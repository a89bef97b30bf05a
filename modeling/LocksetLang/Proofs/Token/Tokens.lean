import LocksetLang.Proofs.Token.Reading

/-! The tokens of a text, one by one. A token stands behind trivia, and it is a lexeme as it can be
written, or unknown, that ends where the next one is looked for. -/

namespace LocksetLang

open Lexeme

namespace Cursor

variable {c d : Cursor} {t : Token}

theorem tokens_of_end (h : c.nextToken = (.ok t, d)) (ht : t.kind = .endOfInput) :
    c.tokens = .ok [t] := by
  rw [tokens]
  split
  · next h' => rw [h] at h'; cases h'
  · next h' =>
    obtain ⟨rfl, rfl⟩ : _ = _ ∧ _ = _ := by simpa [h] using h'
    rw [dif_pos ht]

theorem tokens_of_more (h : c.nextToken = (.ok t, d)) (ht : t.kind ≠ .endOfInput) :
    c.tokens = d.tokens.map (t :: ·) := by
  rw [tokens]
  split
  · next h' => rw [h] at h'; cases h'
  · next h' =>
    obtain ⟨rfl, rfl⟩ : _ = _ ∧ _ = _ := by simpa [h] using h'
    rw [dif_neg ht]

end Cursor

theorem Lexeme.SpeltBy.kind_ne_end {t : Lexeme} {cs : List Char} (h : t.SpeltBy cs) :
    t.kind ≠ .endOfInput := by
  cases h with
  | @word c cs =>
    have hk := wordKind_mem (String.ofList (c :: cs))
    intro he
    dsimp only at he
    rw [he] at hk
    exact absurd hk (by decide)
  | number | string => simp
  | symbol hk =>
    have hall : ∀ p ∈ symbols, p.2 ≠ .endOfInput := by decide
    exact hall _ (mem_of_lookup hk)

def Lexeme.IsWritten (t : Lexeme) : Prop := t.kind = .unknown ∨ ∃ cs, t.SpeltBy cs

theorem exists_numeral_number {c : Char} (hc : c.isDigit) (cs : List Char) :
    ∃ n : Numeral, number (c :: cs) = n.chars := by
  have hw : ∀ d ∈ (c :: cs).takeWhile Char.isDigit, d.isDigit := fun d hd =>
    List.all_eq_true.1 List.all_takeWhile d hd
  have hne : (c :: cs).takeWhile Char.isDigit ≠ [] := by simp [hc]
  simp only [number]
  split
  · next rest _ =>
    refine ⟨⟨_, some (rest.takeWhile Char.isDigit), hne, fun d hd => ?_⟩, rfl⟩
    rcases List.mem_append.1 hd with hd | hd
    · exact hw d hd
    · exact List.all_eq_true.1 List.all_takeWhile d hd
  · exact ⟨⟨_, none, hne, fun d hd => hw d (by simpa using hd)⟩, rfl⟩

theorem dropWhile_head (p : Char → Bool) (cs : List Char) :
    ∀ c ∈ (cs.dropWhile p).head?, p c = false := by
  intro c hc
  have := List.head?_dropWhile_not p cs
  rwa [hc] at this

theorem number_append_eq (cs : List Char) :
    ∃ rest, cs = number cs ++ rest ∧ ∀ c ∈ rest.head?, c.isDigit = false := by
  have hp := List.takeWhile_prefix Char.isDigit (l := cs)
  have hw := (List.prefix_iff_eq_append.1 hp).symm
  simp only [number]
  split
  · next rest hrest =>
    refine ⟨rest.dropWhile Char.isDigit, ?_, dropWhile_head _ _⟩
    rw [List.append_assoc, List.cons_append, List.takeWhile_append_dropWhile, ← hrest]
    exact hw
  · exact ⟨_, List.takeWhile_append_dropWhile.symm, dropWhile_head _ _⟩

theorem Lexeme.ReadOff.isWritten {t : Lexeme} {cs : List Char} (h : t.ReadOff cs) : t.IsWritten := by
  cases h with
  | spelt h => exact .inr ⟨cs, h⟩
  | stray => exact .inl rfl

namespace Cursor

variable {c d : Cursor} {t : Token} {ch : Char} {rest text : List Char}

/-- A token is read off the characters `cs` at a cursor, which goes on to `d`. -/
structure Takes (c : Cursor) (cs : List Char) (t : Token) (d : Cursor) : Prop where
  endsBefore : t.lexeme.EndsBefore d.rest cs
  place_eq : t.place = c.place
  cursor_eq : d = c.past cs
  rest_eq : c.rest = cs ++ d.rest

theorem Takes.readOff {cs : List Char} (h : c.Takes cs t d) : t.lexeme.ReadOff cs :=
  h.endsBefore.readOff

theorem rest_past {cs : List Char} (h : c.rest = cs ++ rest) : (c.past cs).rest = rest := by
  simp [past, h]

theorem readWord_takes (hc : c.rest = ch :: rest) (hw : isWordStart ch) :
    c.Takes (word c.rest) (c.readWord c.place).1 (c.readWord c.place).2 := by
  have hword : word c.rest = ch :: rest.takeWhile isWordPart := by
    simp [word, hc, isWordPart, hw]
  have hsplit : c.rest = word c.rest ++ c.rest.dropWhile isWordPart :=
    List.takeWhile_append_dropWhile.symm
  have hrest := rest_past hsplit
  refine ⟨.spelt ?_ fun d hd => ?_, rfl, rfl, by rw [readWord, hrest, ← hsplit]⟩
  · simp only [readWord, hword]
    exact .word hw fun d hd => List.all_eq_true.1 List.all_takeWhile d hd
  · rw [readWord, hrest] at hd
    exact (goesOnWith_of_mem_wordKinds (wordKind_mem _)).trans (dropWhile_head _ _ d hd)

theorem readNumber_takes (hc : c.rest = ch :: rest) (hdigit : ch.isDigit)
    (h : c.readNumber c.place = (.ok t, d)) : c.Takes (number c.rest) t d := by
  obtain ⟨n, hn⟩ := exists_numeral_number hdigit rest
  obtain ⟨more, hmore, hstop⟩ := number_append_eq c.rest
  have hrest := rest_past hmore
  simp only [readNumber] at h
  split_ifs at h with hpoint
  · simp at h
  · obtain ⟨rfl, rfl⟩ : _ = t ∧ _ = d := by simpa using h
    rw [hrest] at hpoint
    refine ⟨.spelt ?_ fun e he => ?_, rfl, rfl, by rw [hrest, ← hmore]⟩
    · rw [hc, hn]
      exact .number n
    · rw [hrest] at he
      have hne : e ≠ '.' := fun h => hpoint (h ▸ he)
      simp [Kind.goesOnWith, hstop e he, hne]

theorem readString_takes (hc : c.rest = ch :: rest) (hq : isQuote ch)
    (h : c.readString c.place = (.ok t, d)) : ∃ cs, c.Takes cs t d := by
  simp only [readString, hc] at h
  split at h
  · next body hb =>
    obtain ⟨rfl, rfl⟩ : _ = t ∧ _ = d := by simpa using h
    obtain ⟨hquotable, more, he⟩ := quotedBody_eq_some (isQuote_spec hq).2.2.2.2 hb
    have hsplit : c.rest = ch :: (body ++ [ch]) ++ more := by
      rw [hc, he]
      simp
    have hrest := rest_past hsplit
    exact ⟨_, .spelt (.string hq hquotable) fun _ _ => rfl, rfl, rfl, by rw [hrest, ← hsplit]⟩
  · simp at h

/-- The only sign that goes on is the one for equality. -/
theorem goesOnWith_symbol {s : String} {k : Kind} (hk : symbols.lookup s = some k) (c : Char)
    (h : k = .equals → c ≠ '=') : k.goesOnWith c = false := by
  have hall : ∀ p ∈ symbols, p.2 ∉ wordKinds ∧ p.2 ≠ .number := by decide
  have hk := hall _ (mem_of_lookup hk)
  dsimp only at hk
  cases k <;> simp_all [Kind.goesOnWith, wordKinds, keywords]

/-- A sign of one character that is read where one of two could be is not the start of it. -/
theorem ne_equals_of_lookup {a b : Char} (hk : symbols.lookup (String.ofList [a]) = some .equals)
    (htwo : symbols.lookup (String.ofList [a, b]) = none) : b ≠ '=' := by
  have hall : ∀ p ∈ symbols, p.2 = .equals → p.1 = String.ofList ['='] := by decide
  obtain rfl := List.singleton_inj.1 (String.ofList_injective (hall _ (mem_of_lookup hk) rfl))
  rintro rfl
  exact absurd htwo (by decide)

/-- The sign that is found is one of two characters, or one of one character that does not go on. -/
theorem readSymbol?_eq_some (hf : c.Faces text) (h : c.readSymbol? c.place = some (t, d)) :
    ∃ size k, symbols.lookup (String.ofList (text.take size)) = some k ∧
      (∀ e ∈ (text.drop size).head?, k = .equals → e ≠ '=') ∧
      t = ⟨k, String.ofList (text.take size), c.place⟩ ∧ d = c.past (text.take size) := by
  rw [readSymbol?_eq hf, List.findSome?_cons] at h
  cases htwo : symbols.lookup (String.ofList (text.take 2)) with
  | some k =>
    rw [htwo] at h
    obtain ⟨rfl, rfl⟩ : _ = t ∧ _ = d := by simpa using h
    refine ⟨2, k, htwo, fun e he hk => ?_, rfl, rfl⟩
    have hall : ∀ p ∈ symbols, p.2 = .equals → p.1.toList.length = 1 := by decide
    have hlen := hall _ (mem_of_lookup htwo) hk
    rw [String.toList_ofList, List.length_take] at hlen
    rw [List.drop_eq_nil_of_le (by omega)] at he
    cases he
  | none =>
    rw [htwo] at h
    dsimp only [Option.map_none] at h
    rw [List.findSome?_cons] at h
    cases hone : symbols.lookup (String.ofList (text.take 1)) with
    | none =>
      rw [hone] at h
      cases h
    | some k =>
      rw [hone] at h
      obtain ⟨rfl, rfl⟩ : _ = t ∧ _ = d := by simpa using h
      refine ⟨1, k, hone, fun e he hk => ?_, rfl, rfl⟩
      rcases text with _ | ⟨a, _ | ⟨b, rest⟩⟩
      · cases he
      · cases he
      · obtain rfl := Option.some.inj he
        exact ne_equals_of_lookup (hk ▸ hone) htwo

theorem readSymbol?_takes (hf : c.Faces text) (h : c.readSymbol? c.place = some (t, d)) :
    ∃ cs, c.Takes cs t d := by
  obtain ⟨size, k, hk, hstop, rfl, rfl⟩ := readSymbol?_eq_some hf h
  have hsplit : c.rest = text.take size ++ text.drop size := by
    rw [hf.rest_eq, List.take_append_drop]
  have hrest := rest_past hsplit
  refine ⟨_, .spelt (.symbol hk) fun e he => ?_, rfl, rfl, by rw [hrest, ← hsplit]⟩
  rw [hrest] at he
  exact goesOnWith_symbol hk e (hstop e he)

theorem isStray_of_readSymbol?_eq_none {start : Place} (hf : c.Faces (ch :: rest))
    (h : c.readSymbol? start = none) :
    symbols.lookup (String.ofList [ch]) = none ∧ (ch = '!' → ∀ e ∈ rest.head?, e ≠ '=') := by
  rw [readSymbol?_eq hf, List.findSome?_eq_none_iff] at h
  refine ⟨Option.map_eq_none_iff.1 (h 1 (by simp)), ?_⟩
  rintro rfl e he rfl
  obtain ⟨tail, rfl⟩ := List.head?_eq_some_iff.1 he
  have htwo : symbols.lookup (String.ofList ['!', '=']) = none :=
    Option.map_eq_none_iff.1 (h 2 (by simp))
  exact absurd htwo (by decide)

theorem nextToken_takes_of_head (hf : c.Faces (ch :: rest)) (hs : startsTrivia ch = false)
    (h : c.nextToken = (.ok t, d)) : ∃ cs, c.Takes cs t d := by
  have hr := hf.rest_eq
  rw [nextToken_of_head hf hs] at h
  split_ifs at h with hw hdigit hq
  · obtain ⟨rfl, rfl⟩ : _ = t ∧ _ = d := by simpa using h
    exact ⟨_, readWord_takes hr hw⟩
  · exact ⟨_, readNumber_takes hr hdigit h⟩
  · exact readString_takes hr hq h
  · split at h
    · next hsym =>
      obtain ⟨rfl, rfl⟩ : _ = t ∧ _ = d := by simpa using h
      exact readSymbol?_takes hf hsym
    · next hsym =>
      obtain ⟨rfl, rfl⟩ : _ = t ∧ _ = d := by simpa using h
      obtain ⟨hone, htwo⟩ := isStray_of_readSymbol?_eq_none hf hsym
      have hstray : IsStray ch := ⟨hs, by simpa using hw, by simpa using hdigit, by simpa using hq, hone⟩
      have hsplit : c.rest = [ch] ++ rest := hr
      have hrest := rest_past hsplit
      exact ⟨[ch], .stray hstray (by rwa [hrest]), rfl, rfl, by rw [hrest, ← hsplit]⟩

/-- A token stands behind trivia, and only the one for the end has no characters. -/
theorem nextToken_takes (hf : c.Faces text) (h : c.nextToken = (.ok t, d)) :
    (IsTrivia true text ∧ t = endToken (c.place.after text)) ∨
      ∃ gap rest cs, text = gap ++ rest ∧ IsTrivia false gap ∧ (c.past gap).Faces rest ∧
        (c.past gap).Takes cs t d := by
  obtain ⟨rest, he, hr, hg⟩ := trivia_split text
  generalize Lexeme.trivia text = gap at he hg
  subst he
  cases rest with
  | nil =>
    left
    rw [List.append_nil] at hf ⊢
    rw [nextToken_of_end hf hg] at h
    obtain ⟨rfl, -⟩ : _ = t ∧ _ = d := by simpa using h
    exact ⟨hg, rfl⟩
  | cons ch rest =>
    right
    rw [nextToken_past hf hg nofun hr] at h
    obtain ⟨cs, hcs⟩ := nextToken_takes_of_head hf.past (hr ch rfl) h
    exact ⟨gap, ch :: rest, cs, rfl, hg, hf.past, hcs⟩

/-- The tokens from a cursor on, each taken behind trivia where the one before it left off. -/
inductive Yields : Cursor → List Char → List Token → Prop where
  | last {c : Cursor} {text : List Char} (hg : IsTrivia true text) :
    Yields c text [endToken (c.place.after text)]
  | more {c d : Cursor} {gap cs : List Char} {t : Token} {ts : List Token}
    (hg : IsTrivia false gap) (ht : (c.past gap).Takes cs t d) (h : Yields d d.rest ts) :
    Yields c (gap ++ (cs ++ d.rest)) (t :: ts)

end Cursor

theorem Lexeme.IsWritten.kind_ne_end {t : Lexeme} (h : t.IsWritten) : t.kind ≠ .endOfInput := by
  rcases h with h | ⟨cs, h⟩
  · rw [h]
    decide
  · exact h.kind_ne_end

/-- Reading goes through all of a text, from wherever the cursor stands. -/
theorem Cursor.yields_of_tokens {c : Cursor} {text : List Char} {ts : List Token}
    (hf : c.Faces text) (h : c.tokens = .ok ts) : c.Yields text ts := by
  induction c using Cursor.tokens.induct generalizing text ts with
  | case1 c fault d hn =>
    rw [Cursor.tokens] at h
    split at h
    · cases h
    · next h' => rw [hn] at h'; cases h'
  | case2 c t d hn ht =>
    rw [Cursor.tokens_of_end hn ht] at h
    obtain rfl := Except.ok.inj h
    rcases Cursor.nextToken_takes hf hn with ⟨hg, rfl⟩ | ⟨gap, rest, cs, -, -, -, hcs⟩
    · exact .last hg
    · exact absurd ht hcs.readOff.isWritten.kind_ne_end
  | case3 c t d hn ht ih =>
    rw [Cursor.tokens_of_more hn ht] at h
    cases hd : d.tokens with
    | error f => rw [hd] at h; cases h
    | ok us =>
      rw [hd] at h
      obtain rfl := Except.ok.inj h
      rcases Cursor.nextToken_takes hf hn with ⟨-, rfl⟩ | ⟨gap, rest, cs, rfl, hg, hf', hcs⟩
      · exact absurd rfl ht
      obtain rfl : rest = cs ++ d.rest := by rw [← hf'.rest_eq, hcs.rest_eq]
      have hfd : d.Faces d.rest := by
        rw [hcs.cursor_eq] at hf' ⊢
        exact ⟨hf'.past.offset_nonneg, rfl⟩
      exact .more hg hcs (ih hfd hd)

end LocksetLang
