import LocksetLang.Proofs.Token.Spelling

/-! Reading a lexeme where it is written. The class of a lexeme shows in its first character, and the
longest lexeme of the class there is the lexeme itself. -/

namespace LocksetLang

open Lexeme

namespace Cursor

/-- The cursor stands in a text, before the characters `cs`. -/
structure Faces (c : Cursor) (cs : List Char) : Prop where
  offset_nonneg : 0 ≤ c.offset
  rest_eq : c.rest = cs

variable {c : Cursor} {gap cs rest : List Char} {start : Place}

theorem Faces.past (h : c.Faces (cs ++ rest)) : (c.past cs).Faces rest := by
  refine ⟨?_, by simp [Cursor.past, h.rest_eq]⟩
  have := h.offset_nonneg
  simp only [Cursor.past]
  omega

theorem past_append (c : Cursor) (as bs : List Char) :
    (c.past as).past bs = c.past (as ++ bs) := by
  simp only [Cursor.past, List.drop_drop, List.length_append, Place.after_append, Nat.cast_add,
    Int.add_assoc]

theorem Faces.skipTrivia {atEnd : Bool} (h : c.Faces (gap ++ rest)) (hg : IsTrivia atEnd gap)
    (he : atEnd → rest = []) (hr : ∀ d ∈ rest.head?, startsTrivia d = false) :
    c.skipTrivia = c.past gap := by
  rw [Cursor.skipTrivia, h.rest_eq, trivia_append hg he hr]

theorem Faces.skipTrivia_self (h : c.Faces cs) (hs : ∀ d ∈ cs.head?, startsTrivia d = false) :
    c.skipTrivia = c := by
  rw [Cursor.skipTrivia, h.rest_eq, trivia_eq_nil hs]
  simp [Cursor.past, Place.after]

theorem nextToken_past {atEnd : Bool} (h : c.Faces (gap ++ rest)) (hg : IsTrivia atEnd gap)
    (he : atEnd → rest = []) (hr : ∀ d ∈ rest.head?, startsTrivia d = false) :
    c.nextToken = (c.past gap).nextToken := by
  unfold nextToken
  rw [h.past.skipTrivia_self hr, h.skipTrivia hg he hr]

/-- Behind the trivia at the end of a text nothing is left to be read. -/
theorem nextToken_of_end (h : c.Faces gap) (hg : IsTrivia true gap) :
    c.nextToken = (.ok (endToken (c.place.after gap)), c.past gap) := by
  have hf : c.Faces (gap ++ []) := ⟨h.offset_nonneg, by rw [h.rest_eq, List.append_nil]⟩
  have hnil : (c.past gap).rest = [] := hf.past.rest_eq
  rw [nextToken_past hf hg (fun _ => rfl) (by simp)]
  unfold nextToken
  rw [hf.past.skipTrivia_self (by simp)]
  dsimp only
  split
  · rfl
  · next he => rw [hnil] at he; cases he

theorem nextToken_of_head {ch : Char} (h : c.Faces (ch :: rest)) (hs : startsTrivia ch = false) :
    c.nextToken =
      if isWordStart ch then (.ok (c.readWord c.place).1, (c.readWord c.place).2)
      else if ch.isDigit then c.readNumber c.place
      else if isQuote ch then c.readString c.place
      else match c.readSymbol? c.place with
        | some (t, d) => (.ok t, d)
        | none => (.ok ⟨.unknown, String.ofList [ch], c.place⟩, c.past [ch]) := by
  have hskip : c.skipTrivia = c := h.skipTrivia_self fun d hd => by
    obtain rfl := Option.some.inj hd
    exact hs
  unfold nextToken
  rw [hskip]
  dsimp only
  split
  · next hnil =>
    rw [h.rest_eq] at hnil
    cases hnil
  · next hcons =>
    obtain ⟨rfl, -⟩ := List.cons.inj (h.rest_eq.symm.trans hcons)
    rfl

theorem takeWhile_append_of_stop {p : Char → Bool} (hcs : ∀ d ∈ cs, p d)
    (hr : ∀ d ∈ rest.head?, p d = false) : (cs ++ rest).takeWhile p = cs := by
  rw [List.takeWhile_append_of_pos hcs]
  cases rest with
  | nil => simp
  | cons d rest => simp [hr d rfl]

theorem number_append (n : Numeral) (hr : ∀ d ∈ rest.head?, d.isDigit = false ∧ d ≠ '.') :
    number (n.chars ++ rest) = n.chars := by
  obtain ⟨whole, fraction, hne, hd⟩ := n
  have hw : ∀ d ∈ whole, d.isDigit := fun d h => hd d (by simp [h])
  have hr' : ∀ d ∈ rest.head?, d.isDigit = false := fun d h => (hr d h).1
  cases fraction with
  | none =>
    rw [Numeral.chars_whole]
    simp only [number, takeWhile_append_of_stop hw hr', List.drop_left]
    cases rest with
    | nil => rfl
    | cons d rest =>
      split
      · next he => exact absurd (List.cons.inj he).1 (hr d rfl).2
      · rfl
  | some fraction =>
    have hf : ∀ d ∈ fraction, d.isDigit := fun d h => hd d (by simp [h])
    have hrun : (whole ++ '.' :: (fraction ++ rest)).takeWhile Char.isDigit = whole :=
      takeWhile_append_of_stop hw (by simp)
    simp only [Numeral.chars, number, List.append_assoc, List.cons_append, hrun, List.drop_left,
      takeWhile_append_of_stop hf hr']

theorem readWord_eq (h : c.Faces (cs ++ rest)) (hcs : ∀ d ∈ cs, isWordPart d)
    (hr : ∀ d ∈ rest.head?, isWordPart d = false) :
    c.readWord start = (⟨(keywords.lookup (String.ofList cs)).getD .identifier, String.ofList cs,
      start⟩, c.past cs) := by
  rw [readWord, h.rest_eq, Lexeme.word, takeWhile_append_of_stop hcs hr]

theorem readNumber_eq {n : Numeral} (h : c.Faces (n.chars ++ rest))
    (hr : ∀ d ∈ rest.head?, d.isDigit = false ∧ d ≠ '.') :
    c.readNumber start = (.ok ⟨.number, String.ofList n.chars, start⟩, c.past n.chars) := by
  simp only [readNumber, h.rest_eq, number_append n hr]
  rw [if_neg]
  rw [h.past.rest_eq]
  exact fun hd => (hr '.' hd).2 rfl

theorem readString_eq {quote : Char} {body : List Char}
    (h : c.Faces (quote :: (body ++ [quote]) ++ rest)) (hq : quote ≠ '\\')
    (hb : isQuotable quote body) :
    c.readString start =
      (.ok ⟨.string, String.ofList body, start⟩, c.past (quote :: (body ++ [quote]))) := by
  have hrest : c.rest = quote :: (body ++ quote :: rest) := by simp [h.rest_eq]
  simp only [readString, hrest, quotedBody_append hq rest hb]
  rfl

theorem readSymbol?_eq (h : c.Faces cs) :
    c.readSymbol? start = [2, 1].findSome? fun size : Nat =>
      (symbols.lookup (String.ofList (cs.take size))).map fun kind =>
        (⟨kind, String.ofList (cs.take size), start⟩, c.past (cs.take size)) := by
  unfold readSymbol?
  simp only [lookahead_natCast h.offset_nonneg, h.rest_eq, symbolLengths]

/-- No symbol of two characters starts with one that stops at what follows. -/
theorem lookup_two_eq_none {k : Kind} {d e : Char}
    (hk : symbols.lookup (String.ofList [d]) = some k) (hs : k = .equals → e ≠ '=') :
    symbols.lookup (String.ofList [d, e]) = none := by
  rcases symbol_cases hk with ⟨d, hd, -, hne, heq⟩ | hd | hd
  · obtain rfl := List.singleton_inj.1 hd
    cases hl : symbols.lookup (String.ofList [_, e]) with
    | none => rfl
    | some k' =>
      rcases symbol_cases hl with ⟨d', hd', -⟩ | hd' | hd'
      · simp at hd'
      · obtain ⟨rfl, rfl⟩ : _ = '=' ∧ e = '=' := by simpa using hd'
        exact absurd rfl (hs (heq rfl))
      · obtain ⟨rfl, -⟩ : _ = '!' ∧ e = '=' := by simpa using hd'
        exact absurd rfl hne
  · simp at hd
  · simp at hd

theorem readSymbol?_of_lookup {k : Kind} (h : c.Faces (cs ++ rest))
    (hk : symbols.lookup (String.ofList cs) = some k)
    (hs : ∀ d ∈ rest.head?, k = .equals → d ≠ '=') :
    c.readSymbol? start = some (⟨k, String.ofList cs, start⟩, c.past cs) := by
  rw [readSymbol?_eq h, List.findSome?_cons]
  by_cases htwo : cs.length = 2
  · have htake : (cs ++ rest).take 2 = cs := by rw [← htwo, List.take_left]
    rw [htake, hk]
    rfl
  obtain ⟨d, rfl⟩ : ∃ d, cs = [d] := by
    rcases symbol_cases hk with ⟨d, rfl, -⟩ | rfl | rfl
    · exact ⟨d, rfl⟩
    · exact absurd rfl htwo
    · exact absurd rfl htwo
  cases rest with
  | nil =>
    rw [show List.take 2 ([d] ++ []) = [d] from rfl, hk]
    rfl
  | cons e rest =>
    rw [show List.take 2 ([d] ++ e :: rest) = [d, e] from rfl, lookup_two_eq_none hk (hs e rfl)]
    dsimp only [Option.map_none]
    rw [List.findSome?_cons, show List.take 1 ([d] ++ e :: rest) = [d] from rfl, hk]
    rfl

theorem nextToken_of_word {ch : Char} (h : c.Faces (ch :: cs ++ rest)) (hch : isWordStart ch)
    (hcs : ∀ d ∈ cs, isWordPart d) (hr : ∀ d ∈ rest.head?, isWordPart d = false) :
    c.nextToken = (.ok ⟨(keywords.lookup (String.ofList (ch :: cs))).getD .identifier,
      String.ofList (ch :: cs), c.place⟩, c.past (ch :: cs)) := by
  obtain ⟨hspace, hhash⟩ := isWordStart_spec hch
  rw [nextToken_of_head h (startsTrivia_eq_false hspace hhash), if_pos hch,
    readWord_eq h (by simpa [isWordPart, hch] using hcs) hr]

theorem nextToken_of_number {n : Numeral} (h : c.Faces (n.chars ++ rest))
    (hr : ∀ d ∈ rest.head?, d.isDigit = false ∧ d ≠ '.') :
    c.nextToken = (.ok ⟨.number, String.ofList n.chars, c.place⟩, c.past n.chars) := by
  obtain ⟨ch, cs, hcs, hdigit⟩ := Binary64.chars_cons n
  obtain ⟨hspace, hhash, hword⟩ := isDigit_spec hdigit
  have hch : c.Faces (ch :: (cs ++ rest)) := by simpa [hcs] using h
  rw [nextToken_of_head hch (startsTrivia_eq_false hspace hhash), if_neg (by simp [hword]),
    if_pos hdigit, readNumber_eq h hr]

theorem nextToken_of_string {quote : Char} {body : List Char}
    (h : c.Faces (quote :: (body ++ [quote]) ++ rest)) (hq : isQuote quote)
    (hb : isQuotable quote body) :
    c.nextToken =
      (.ok ⟨.string, String.ofList body, c.place⟩, c.past (quote :: (body ++ [quote]))) := by
  obtain ⟨hspace, hhash, hword, hdigit, hslash⟩ := isQuote_spec hq
  rw [nextToken_of_head h (startsTrivia_eq_false hspace hhash), if_neg (by simp [hword]),
    if_neg (by simp [hdigit]), if_pos hq, readString_eq h hslash hb]

theorem nextToken_of_symbol {k : Kind} (h : c.Faces (cs ++ rest))
    (hk : symbols.lookup (String.ofList cs) = some k)
    (hr : ∀ d ∈ rest.head?, k = .equals → d ≠ '=') :
    c.nextToken = (.ok ⟨k, String.ofList cs, c.place⟩, c.past cs) := by
  have hstart : ∃ ch tail, cs = ch :: tail ∧ isSpace ch = false ∧ ch ≠ '#' ∧
      isWordStart ch = false ∧ ch.isDigit = false ∧ isQuote ch = false := by
    rcases symbol_cases hk with ⟨ch, rfl, hch, -⟩ | rfl | rfl
    · exact ⟨ch, [], rfl, symbolStarts_spec ch hch⟩
    · exact ⟨'=', ['='], rfl, by decide⟩
    · exact ⟨'!', ['='], rfl, by decide⟩
  obtain ⟨ch, tail, rfl, hspace, hhash, hword, hdigit, hquote⟩ := hstart
  rw [nextToken_of_head h (startsTrivia_eq_false hspace hhash), if_neg (by simp [hword]),
    if_neg (by simp [hdigit]), if_neg (by simp [hquote]), readSymbol?_of_lookup h hk hr]

theorem nextToken_of_speltBy {t : Lexeme} (h : c.Faces (cs ++ rest)) (ht : t.SpeltBy cs)
    (hs : t.StopsAt rest) : c.nextToken = (.ok ⟨t.kind, t.value, c.place⟩, c.past cs) := by
  cases ht with
  | word hc hcs =>
    refine nextToken_of_word h hc hcs fun d hd => ?_
    rw [← goesOnWith_of_mem_wordKinds (wordKind_mem _)]
    exact hs d hd
  | number n =>
    refine nextToken_of_number h fun d hd => ?_
    simpa [Kind.goesOnWith] using hs d hd
  | string hq hb => exact nextToken_of_string h hq hb
  | symbol hk =>
    refine nextToken_of_symbol h hk fun d hd he => ?_
    have := hs d hd
    rw [he] at this
    simpa [Kind.goesOnWith] using this

/-- A stray character is read alone, unless the one behind it makes a sign with it. -/
theorem readSymbol?_of_stray {ch : Char} (h : c.Faces (ch :: rest)) (hch : IsStray ch)
    (hs : ch = '!' → ∀ d ∈ rest.head?, d ≠ '=') : c.readSymbol? start = none := by
  rw [readSymbol?_eq h, List.findSome?_cons, List.findSome?_cons,
    show List.take 1 (ch :: rest) = [ch] from rfl, hch.symbol]
  have htwo : symbols.lookup (String.ofList (List.take 2 (ch :: rest))) = none := by
    cases rest with
    | nil => exact hch.symbol
    | cons d rest =>
      cases hl : symbols.lookup (String.ofList (List.take 2 (ch :: d :: rest))) with
      | none => rfl
      | some k =>
        rcases symbol_cases hl with ⟨e, he, -⟩ | he | he
        · simp at he
        · obtain ⟨rfl, -⟩ : ch = '=' ∧ d = '=' := by simpa using he
          exact absurd hch.symbol (by decide)
        · obtain ⟨rfl, rfl⟩ : ch = '!' ∧ d = '=' := by simpa using he
          exact absurd rfl (hs rfl '=' rfl)
  rw [htwo]
  rfl

theorem nextToken_of_stray {ch : Char} (h : c.Faces (ch :: rest)) (hch : IsStray ch)
    (hs : ch = '!' → ∀ d ∈ rest.head?, d ≠ '=') :
    c.nextToken = (.ok ⟨.unknown, String.ofList [ch], c.place⟩, c.past [ch]) := by
  rw [nextToken_of_head h hch.trivia, if_neg (by simp [hch.word]), if_neg (by simp [hch.digit]),
    if_neg (by simp [hch.quote]), readSymbol?_of_stray h hch hs]

/-- Where a lexeme ends it is read as it is written. -/
theorem nextToken_of_endsBefore {t : Lexeme} (h : c.Faces (gap ++ (cs ++ rest)))
    (hg : IsTrivia false gap) (ht : t.EndsBefore rest cs) :
    c.nextToken = (.ok ⟨t.kind, t.value, c.place.after gap⟩, c.past (gap ++ cs)) := by
  obtain ⟨ch, tail, hcs, hch⟩ := ht.readOff.exists_cons
  rw [nextToken_past h hg nofun (by simpa [hcs] using hch), ← past_append]
  cases ht with
  | spelt ht hs => exact nextToken_of_speltBy h.past ht hs
  | stray hch hs => exact nextToken_of_stray h.past hch hs

end Cursor
end LocksetLang
