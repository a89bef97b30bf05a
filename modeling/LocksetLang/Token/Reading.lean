import LocksetLang.Token.Cursor
import LocksetLang.Token.Lexeme

/-! Reading tokens off a text. Spaces and comments are skipped, and a character that starts nothing
becomes a token of its own kind, so that the grammar can report it. -/

namespace LocksetLang

namespace Cursor

def skipTrivia (c : Cursor) : Cursor := c.past (Lexeme.trivia c.rest)

def readWord (c : Cursor) (start : Place) : Token × Cursor :=
  let used := Lexeme.word c.rest
  let value := String.ofList used
  (⟨(keywords.lookup value).getD .identifier, value, start⟩, c.past used)

/-- A number with a second point is refused behind its second run of digits. -/
def readNumber (c : Cursor) (start : Place) : Except LexicalFault Token × Cursor :=
  let used := Lexeme.number c.rest
  let behind := c.past used
  if behind.rest.head? = some '.' then (.error (.invalidNumber start), behind)
  else (.ok ⟨.number, String.ofList used, start⟩, behind)

/-- Whatever character comes first is the quote. The value keeps its escapes as they are written. -/
def readString (c : Cursor) (start : Place) : Except LexicalFault Token × Cursor :=
  match c.rest with
  | [] => (.error (.pastEnd c.offset c.place.line), c)
  | quote :: rest =>
    match Lexeme.quotedBody quote rest with
    | some body => (.ok ⟨.string, String.ofList body, start⟩, c.past (quote :: body ++ [quote]))
    | none => (.error (.unterminatedString start), c.past c.rest)

/-- The longest sign ahead of the cursor, if there is one. -/
def readSymbol? (c : Cursor) (start : Place) : Option (Token × Cursor) :=
  symbolLengths.findSome? fun (size : Nat) =>
    let used := c.lookahead size
    (symbols.lookup (String.ofList used)).map fun kind =>
      (⟨kind, String.ofList used, start⟩, c.past used)

def endToken (place : Place) : Token := ⟨.endOfInput, Kind.endOfInput.name, place⟩

def nextToken (c : Cursor) : Except LexicalFault Token × Cursor :=
  let c := c.skipTrivia
  match c.rest with
  | [] => (.ok (endToken c.place), c)
  | ch :: _ =>
    if Lexeme.isWordStart ch then
      let (t, c) := c.readWord c.place
      (.ok t, c)
    else if ch.isDigit then c.readNumber c.place
    else if Lexeme.isQuote ch then c.readString c.place
    else match c.readSymbol? c.place with
      | some (t, c) => (.ok t, c)
      | none => (.ok ⟨.unknown, String.ofList [ch], c.place⟩, c.past [ch])

theorem length_rest_past_lt {c : Cursor} {used : List Char} (h : c.rest ≠ []) (hu : used ≠ []) :
    (c.past used).rest.length < c.rest.length := by
  rw [length_rest_past]
  have := List.length_pos_iff.2 h
  have := List.length_pos_iff.2 hu
  omega

theorem readNumber_snd (c : Cursor) (start : Place) :
    (c.readNumber start).2 = c.past (Lexeme.number c.rest) := by
  simp only [readNumber]
  split <;> rfl

theorem readString_ok_snd {c d : Cursor} {start : Place} {t : Token}
    (h : c.readString start = (.ok t, d)) : ∃ used, used ≠ [] ∧ d = c.past used := by
  simp only [readString] at h
  split at h
  · simp at h
  · split at h
    · exact ⟨_, by simp, (Prod.mk.inj h).2.symm⟩
    · simp at h

theorem readSymbol?_snd {c d : Cursor} {start : Place} {t : Token}
    (h : c.readSymbol? start = some (t, d)) : ∃ used, used ≠ [] ∧ d = c.past used := by
  obtain ⟨size, -, h⟩ := List.exists_of_findSome?_eq_some h
  obtain ⟨k, hk, hd⟩ := Option.map_eq_some_iff.1 h
  refine ⟨_, fun he => ?_, (Prod.mk.inj hd).2.symm⟩
  rw [he, show symbols.lookup (String.ofList []) = none by decide] at hk
  cases hk

theorem word_ne_nil {ch : Char} {rest : List Char} (h : Lexeme.isWordStart ch = true) :
    Lexeme.word (ch :: rest) ≠ [] := by
  simp [Lexeme.word, Lexeme.isWordPart, h]

theorem number_ne_nil {ch : Char} {rest : List Char} (h : ch.isDigit = true) :
    Lexeme.number (ch :: rest) ≠ [] := by
  simp only [Lexeme.number]
  split <;> simp [h]

/-- Every token but the last takes a character away. -/
theorem nextToken_shrinks {c d : Cursor} {t : Token} (h : c.nextToken = (.ok t, d))
    (ht : t.kind ≠ .endOfInput) : d.rest.length < c.rest.length := by
  have hle : c.skipTrivia.rest.length ≤ c.rest.length := by simp [skipTrivia, length_rest_past]
  simp only [nextToken] at h
  split at h
  · obtain ⟨rfl, -⟩ := (Prod.mk.inj h).imp_left Except.ok.inj
    exact absurd rfl ht
  · rename_i ch rest hrest
    have hne : c.skipTrivia.rest ≠ [] := by simp [hrest]
    refine Nat.lt_of_lt_of_le ?_ hle
    split at h
    · next hw =>
      obtain ⟨-, rfl⟩ := Prod.mk.inj h
      exact length_rest_past_lt hne (hrest ▸ word_ne_nil hw)
    · split at h
      · next hd =>
        have := readNumber_snd c.skipTrivia c.skipTrivia.place
        rw [h] at this
        rw [show d = _ from this]
        exact length_rest_past_lt hne (hrest ▸ number_ne_nil hd)
      · split at h
        · obtain ⟨used, hu, rfl⟩ := readString_ok_snd h
          exact length_rest_past_lt hne hu
        · split at h
          · next hs =>
            obtain ⟨-, rfl⟩ := Prod.mk.inj h
            obtain ⟨used, hu, rfl⟩ := readSymbol?_snd hs
            exact length_rest_past_lt hne hu
          · obtain ⟨-, rfl⟩ := Prod.mk.inj h
            exact length_rest_past_lt hne (by simp)

def tokens (c : Cursor) : Except LexicalFault (List Token) :=
  match _h : c.nextToken with
  | (.error fault, _) => .error fault
  | (.ok t, d) =>
    if _ht : t.kind = .endOfInput then .ok [t]
    else d.tokens.map (t :: ·)
termination_by c.rest.length
decreasing_by exact nextToken_shrinks ‹_› ‹_›

end Cursor

def tokenize (source : String) : Except LexicalFault (List Token) :=
  (Cursor.ofText source.toList).tokens

end LocksetLang
