import LocksetLang.Proofs.Token.Scanning

/-! A text and its tokens. Nothing of a text is lost between its tokens but spaces and comments, and
a token knows where it stands. The invariant is that the place of the cursor is the one behind the
characters read so far, counted from the start of the text; every lexeme keeps it, a string with
newlines in it as well. -/

namespace LocksetLang

open Lexeme

/-- The place behind the characters `cs` at the start of a text: lines are counted by newlines, and
columns from the last one. -/
def Place.behind (cs : List Char) : Place :=
  ⟨1 + cs.count '\n', 1 + (cs.reverse.takeWhile (· != '\n')).length⟩

theorem Place.after_start (cs : List Char) : Place.start.after cs = Place.behind cs := by
  induction cs using List.reverseRecOn with
  | nil => rfl
  | append_singleton cs c ih =>
    rw [Place.after_append, ih, Place.after, List.foldl_cons, List.foldl_nil, Place.next]
    by_cases hc : c = '\n'
    · simp [Place.behind, hc, Int.add_assoc]
    · simp [Place.behind, hc, Int.add_assoc, Int.add_comm 1]

theorem Place.behind_append (as bs : List Char) :
    Place.behind (as ++ bs) = (Place.behind as).after bs := by
  rw [← Place.after_start, ← Place.after_start, Place.after_append]

/-- A string is its value between two equal quotes, and any other lexeme is its value. -/
def Lexeme.HasText (t : Lexeme) (cs : List Char) : Prop :=
  if t.kind = .string then ∃ quote, isQuote quote ∧ cs = quote :: (t.value.toList ++ [quote])
  else cs = t.value.toList

/-- Behind the characters `before`, a text is made up of the texts of lexemes with trivia between
them, its tokens are those lexemes in order, each with the place where it stands, and one more for
the end. -/
inductive Covers (reads : Lexeme → List Char → Prop) :
    (before text : List Char) → (lexemes : List (List Char)) → List Token → Prop where
  | last {before gap : List Char} (hg : IsTrivia true gap) :
    Covers reads before gap [] [Cursor.endToken (Place.behind (before ++ gap))]
  | more {before gap cs rest : List Char} {lexemes : List (List Char)} {t : Token}
    {ts : List Token} (hg : IsTrivia false gap) (ht : reads t.lexeme cs)
    (hk : t.kind ≠ .endOfInput) (hp : t.place = Place.behind (before ++ gap))
    (h : Covers reads (before ++ (gap ++ cs)) rest lexemes ts) :
    Covers reads before (gap ++ (cs ++ rest)) (cs :: lexemes) (t :: ts)

variable {reads writes : Lexeme → List Char → Prop} {before text : List Char}
  {lexemes : List (List Char)} {ts : List Token} {source : String}

theorem Covers.mono (h : Covers reads before text lexemes ts) (hr : ∀ t cs, reads t cs → writes t cs) :
    Covers writes before text lexemes ts := by
  induction h with
  | last hg => exact .last hg
  | more hg ht hk hp _ ih => exact .more hg (hr _ _ ht) hk hp ih

theorem Covers.exists_end (h : Covers reads before text lexemes ts) :
    ∃ body, ts = body ++ [Cursor.endToken (Place.behind (before ++ text))] ∧
      ∀ t ∈ body, t.kind ≠ .endOfInput ∧ ∃ cs, reads t.lexeme cs := by
  induction h with
  | last => exact ⟨[], rfl, List.forall_mem_nil _⟩
  | @more before gap cs rest lexemes t ts hg ht hk hp _ ih =>
    obtain ⟨body, rfl, hbody⟩ := ih
    refine ⟨t :: body, by simp, List.forall_mem_cons.2 ⟨⟨hk, cs, ht⟩, hbody⟩⟩

theorem Place.eq_nil_of_behind_eq (h : Place.behind (before ++ text) = Place.behind before) :
    text = [] := by
  obtain ⟨hline, hcolumn⟩ := Place.mk.inj h
  rw [List.count_append] at hline
  have hnl : '\n' ∉ text := fun hmem => by
    have := List.count_pos_iff.2 hmem
    omega
  have hrun : ∀ c ∈ text.reverse, (c != '\n') = true := fun c hc =>
    bne_iff_ne.2 fun he => hnl (he ▸ List.mem_reverse.1 hc)
  rw [List.reverse_append, List.takeWhile_append_of_pos hrun, List.length_append,
    List.length_reverse] at hcolumn
  exact List.length_eq_zero_iff.1 (by omega)

/-- Of two texts that go on from one another, the places behind them tell whether they are the same. -/
theorem Place.eq_of_behind_eq {as bs rest rest' : List Char} (h : as ++ rest = bs ++ rest')
    (hp : Place.behind (before ++ as) = Place.behind (before ++ bs)) : as = bs := by
  rcases List.append_eq_append_iff.1 h with ⟨more, rfl, -⟩ | ⟨more, rfl, -⟩
  · rw [← List.append_assoc] at hp
    rw [Place.eq_nil_of_behind_eq hp.symm, List.append_nil]
  · rw [← List.append_assoc] at hp
    rw [Place.eq_nil_of_behind_eq hp, List.append_nil]

theorem Lexeme.HasText.eq {t : Lexeme} {cs cs' rest rest' : List Char} (h : t.HasText cs)
    (h' : t.HasText cs') (he : cs ++ rest = cs' ++ rest') : cs = cs' := by
  unfold HasText at h h'
  split_ifs at h h'
  · obtain ⟨quote, -, rfl⟩ := h
    obtain ⟨quote', -, rfl⟩ := h'
    obtain rfl : quote = quote' := (List.cons.inj he).1
    rfl
  · rw [h, h']

/-- Tokens with their places leave no choice of what they cover. -/
theorem Covers.unique {lexemes' : List (List Char)} (h : Covers HasText before text lexemes ts)
    (h' : Covers HasText before text lexemes' ts) : lexemes = lexemes' := by
  induction h generalizing lexemes' with
  | last hg =>
    cases h' with
    | last => rfl
    | more _ _ hk => exact absurd rfl hk
  | @more before gap cs rest lexemes t ts _ ht hk hp _ ih =>
    generalize htext : gap ++ (cs ++ rest) = text at h'
    cases h' with
    | last => exact absurd rfl hk
    | @more _ gap' cs' rest' lexemes' _ _ _ ht' _ hp' h' =>
      obtain rfl := Place.eq_of_behind_eq htext (hp.symm.trans hp')
      have hrest := List.append_cancel_left htext
      obtain rfl := ht.eq ht' hrest
      obtain rfl := List.append_cancel_left hrest
      rw [ih h']

theorem Lexeme.ReadOff.hasText {t : Lexeme} {cs : List Char} (h : t.ReadOff cs) : t.HasText cs := by
  rcases h with (@⟨c, cs, hc, hcs⟩ | n | @⟨quote, body, hq, hb⟩ | hk) | hc
  · have hk := wordKind_mem (String.ofList (c :: cs))
    have hne : (keywords.lookup (String.ofList (c :: cs))).getD .identifier ≠ .string := fun he =>
      absurd (he ▸ hk) (by decide)
    rw [HasText, if_neg hne, String.toList_ofList]
  · rw [HasText, if_neg nofun, String.toList_ofList]
  · rw [HasText, if_pos rfl, String.toList_ofList]
    exact ⟨quote, hq, rfl⟩
  · have hall : ∀ p ∈ symbols, p.2 ≠ .string := by decide
    rw [HasText, if_neg (hall _ (mem_of_lookup hk)), String.toList_ofList]
  · rw [HasText, if_neg nofun, String.toList_ofList]

/-- Reading covers a text, from wherever the cursor stands. -/
theorem tokens_cover {c : Cursor} (hf : c.Faces text) (hp : c.place = Place.behind before)
    (h : c.tokens = .ok ts) : ∃ lexemes, Covers ReadOff before text lexemes ts := by
  have hy := Cursor.yields_of_tokens hf h
  clear h hf
  induction hy generalizing before with
  | last hg =>
    rw [hp, ← Place.behind_append]
    exact ⟨[], .last hg⟩
  | @more c d gap cs t ts hg ht _ ih =>
    have hpd : d.place = Place.behind (before ++ (gap ++ cs)) := by
      rw [ht.cursor_eq, Cursor.past_append, Place.behind_append, ← hp]
      rfl
    have hpt : t.place = Place.behind (before ++ gap) := by
      rw [ht.place_eq, Place.behind_append, ← hp]
      rfl
    obtain ⟨lexemes, hl⟩ := ih hpd
    exact ⟨cs :: lexemes, .more hg ht.readOff ht.readOff.isWritten.kind_ne_end hpt hl⟩

theorem tokenize_cover (h : tokenize source = .ok ts) :
    ∃ lexemes, Covers ReadOff [] source.toList lexemes ts :=
  tokens_cover ⟨Int.le_refl 0, rfl⟩ rfl h

/-- The tokens of a text are written there, up to the one for its end. -/
theorem tokens_written (h : tokenize source = .ok ts) :
    ∃ body last, ts = body ++ [last] ∧
      last.lexeme = ⟨.endOfInput, Kind.endOfInput.name⟩ ∧ ∀ t ∈ body, t.lexeme.IsWritten := by
  obtain ⟨lexemes, hl⟩ := tokenize_cover h
  obtain ⟨body, rfl, hbody⟩ := hl.exists_end
  refine ⟨body, _, rfl, rfl, fun t ht => ?_⟩
  obtain ⟨-, cs, hcs⟩ := hbody t ht
  exact hcs.isWritten

/-- Reading a text loses nothing but trivia, and gives every token the place where it stands. -/
theorem tokenize_lossless (h : tokenize source = .ok ts) :
    (∃ lexemes, Covers HasText [] source.toList lexemes ts) ∧
      ∃ body, ts = body ++ [Cursor.endToken (Place.behind source.toList)] ∧
        ∀ t ∈ body, t.kind ≠ .endOfInput := by
  obtain ⟨lexemes, hl⟩ := tokenize_cover h
  obtain ⟨body, rfl, hbody⟩ := hl.exists_end
  exact ⟨⟨lexemes, hl.mono fun _ _ => ReadOff.hasText⟩, body, rfl, fun t ht => (hbody t ht).1⟩

/-- A string with a newline in it, before a comment that nothing ends. -/
theorem string_lossless :
    let ts := [⟨.string, "a\n", ⟨1, 1⟩⟩, ⟨.identifier, "b", ⟨2, 3⟩⟩, Cursor.endToken ⟨2, 6⟩]
    tokenize "'a\n' b #" = .ok ts ∧
      (∃ lexemes, Covers HasText [] "'a\n' b #".toList lexemes ts) ∧
      ∃ body, ts = body ++ [Cursor.endToken (Place.behind "'a\n' b #".toList)] ∧
        ∀ t ∈ body, t.kind ≠ .endOfInput := by
  have h : tokenize "'a\n' b #" = .ok [⟨.string, "a\n", ⟨1, 1⟩⟩, ⟨.identifier, "b", ⟨2, 3⟩⟩,
      Cursor.endToken ⟨2, 6⟩] := by decide +kernel
  exact ⟨h, tokenize_lossless h⟩

end LocksetLang
