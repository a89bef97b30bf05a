import LocksetLang.Proofs.Token.Coverage

/-! Tokens by longest match. From the start of a lexeme a text is read as far as a lexeme of any
class goes, and a character that none starts with is taken alone. Reading stops at a number with a
second point and at a quote that nothing closes, and nowhere else before the end.

That a lexeme which ends before the rest is the longest follows from reading itself: the text cut off
behind a longer one would be read in two ways. -/

namespace LocksetLang

open Lexeme

/-- Trivia that go on to the next lexeme, or to the end. -/
structure IsGap (gap rest : List Char) : Prop where
  trivia : IsTrivia rest.isEmpty gap
  ends : ∀ c ∈ rest.head?, startsTrivia c = false

/-- The lexeme that a text starts with, and its characters: the longest of any class, or one
character if no class has a lexeme there. -/
inductive Lexeme.IsNext (text : List Char) : Lexeme → List Char → Prop where
  | longest {t : Lexeme} {cs : List Char} (ht : t.SpeltBy cs) (hp : cs <+: text)
    (hmax : ∀ u ds, SpeltBy u ds → ds <+: text → ds.length ≤ cs.length) : IsNext text t cs
  | stray {c : Char} (hp : [c] <+: text) (hno : ∀ u ds, SpeltBy u ds → ¬ ds <+: text) :
    IsNext text ⟨.unknown, String.ofList [c]⟩ [c]

/-- The text starts with a number that has a second point. -/
def HasSecondPoint (text : List Char) : Prop :=
  ∃ whole fraction more, whole ≠ [] ∧ (∀ c ∈ whole, c.isDigit) ∧ (∀ c ∈ fraction, c.isDigit) ∧
    text = whole ++ '.' :: (fraction ++ '.' :: more)

/-- The text starts with a quote, and the same quote is not found again but behind a backslash. -/
def IsUnterminated (text : List Char) : Prop :=
  ∃ quote body, isQuote quote ∧ text = quote :: body ∧ hasUnescaped quote body = false

/-- A scan of `source` comes to the start of a lexeme, or to the end: `before` is behind it with the
tokens given, and `rest` is ahead. A lexeme with a fault is not passed. -/
inductive Reaches (source : List Char) : (before rest : List Char) → List Token → Prop where
  | start {gap rest : List Char} (hs : source = gap ++ rest) (hg : IsGap gap rest) :
    Reaches source gap rest []
  | next {before cs gap rest : List Char} {ts : List Token} {t : Lexeme}
    (h : Reaches source before (cs ++ (gap ++ rest)) ts)
    (hn : ¬ HasSecondPoint (cs ++ (gap ++ rest))) (hu : ¬ IsUnterminated (cs ++ (gap ++ rest)))
    (ht : t.IsNext (cs ++ (gap ++ rest)) cs) (hg : IsGap gap rest) :
    Reaches source (before ++ (cs ++ gap)) rest (ts ++ [⟨t.kind, t.value, Place.behind before⟩])

variable {source text rest rest' cs ds gap before : List Char} {t u : Lexeme} {ts : List Token}

theorem exists_gap (text : List Char) : ∃ gap rest, text = gap ++ rest ∧ IsGap gap rest := by
  obtain ⟨rest, he, hr, ht⟩ := trivia_split text
  exact ⟨_, rest, he, ht, hr⟩

/-! ### The longest lexeme -/

theorem Lexeme.SpeltBy.endsBefore_nil (h : t.SpeltBy cs) : t.EndsBefore [] cs :=
  .spelt h (by simp [StopsAt])

theorem Lexeme.EndsBefore.of_head (h : t.EndsBefore rest cs) (hr : rest'.head? = rest.head?) :
    t.EndsBefore rest' cs := by
  cases h with
  | spelt h hs => exact .spelt h (by rwa [StopsAt, hr])
  | stray h hs => exact .stray h (by rwa [hr])

theorem Lexeme.EndsBefore.unique (h : t.EndsBefore rest cs) (h' : u.EndsBefore rest' ds)
    (he : cs ++ rest = ds ++ rest') : t = u ∧ cs = ds := by
  have hf : (Cursor.ofText (cs ++ rest)).Faces ([] ++ (cs ++ rest)) := ⟨le_rfl, rfl⟩
  have hf' : (Cursor.ofText (cs ++ rest)).Faces ([] ++ (ds ++ rest')) := ⟨le_rfl, he⟩
  have hread := Cursor.nextToken_of_endsBefore hf .nil h
  rw [Cursor.nextToken_of_endsBefore hf' .nil h'] at hread
  obtain ⟨ht, hc⟩ := Prod.mk.inj hread
  obtain ⟨hk, hv, -⟩ := Token.mk.inj (Except.ok.inj ht)
  have hlen : cs.length = ds.length := by
    have hoffset := congrArg Cursor.offset hc
    simpa [Cursor.past, eq_comm] using hoffset
  exact ⟨by cases t; cases u; simp_all, List.append_inj_left he hlen⟩

theorem Lexeme.EndsBefore.length_le (h : t.EndsBefore rest cs) (hu : u.SpeltBy ds)
    (hp : ds <+: cs ++ rest) : ds.length ≤ cs.length := by
  by_contra hlong
  obtain ⟨more, hm⟩ := hp
  obtain ⟨x, xs, rfl, hr⟩ : ∃ x xs, ds = cs ++ x :: xs ∧ rest = x :: (xs ++ more) := by
    rcases List.append_eq_append_iff.1 hm with ⟨as, rfl, -⟩ | ⟨as, rfl, rfl⟩
    · simp at hlong
    · cases as with
      | nil => simp at hlong
      | cons x xs => exact ⟨x, xs, rfl, rfl⟩
  have hcut : t.EndsBefore (x :: xs) cs := h.of_head (by rw [hr]; rfl)
  have hsame := (hcut.unique hu.endsBefore_nil (by simp)).2
  exact hlong (by rw [← hsame])

theorem IsStray.not_speltBy {c : Char} (h : IsStray c) : ¬ u.SpeltBy [c] := by
  intro hu
  generalize hc : [c] = cs at hu
  cases hu with
  | word hw =>
    obtain rfl := (List.cons.inj hc).1
    exact absurd h.word (by simp [hw])
  | number n =>
    obtain ⟨d, ds, hn, hd⟩ := Binary64.chars_cons n
    obtain rfl := (List.cons.inj (hc.trans hn)).1
    exact absurd h.digit (by simp [hd])
  | string => simp at hc
  | symbol hk =>
    rw [← hc, h.symbol] at hk
    cases hk

/-- A lexeme that ends before the rest is the one that the text starts with. -/
theorem Lexeme.EndsBefore.isNext (h : t.EndsBefore rest cs) : t.IsNext (cs ++ rest) cs := by
  cases h with
  | spelt ht hs =>
    exact .longest ht (List.prefix_append _ _) fun u ds => (EndsBefore.spelt ht hs).length_le
  | @stray c hc hs =>
    refine .stray (List.prefix_append _ _) fun u ds hu hp => ?_
    have hlen : ds.length ≤ [c].length := (EndsBefore.stray hc hs).length_le hu hp
    obtain ⟨d, ds, rfl, -⟩ := hu.exists_cons
    obtain rfl : ds = [] := List.length_eq_zero_iff.1 (by simpa using hlen)
    obtain rfl : d = c := by simpa using hp
    exact hc.not_speltBy hu

theorem Lexeme.IsNext.unique (h : t.IsNext text cs) (h' : u.IsNext text ds) : t = u ∧ cs = ds := by
  cases h with
  | longest ht hp hmax =>
    cases h' with
    | longest ht' hp' hmax' =>
      have hlen : cs.length = ds.length := le_antisymm (hmax' _ _ ht hp) (hmax _ _ ht' hp')
      obtain rfl := (List.prefix_of_prefix_length_le hp hp' hlen.le).eq_of_length hlen
      exact ht.endsBefore_nil.unique ht'.endsBefore_nil rfl
    | stray _ hno => exact absurd hp (hno _ _ ht)
  | stray hp hno =>
    cases h' with
    | longest ht hp' => exact absurd hp' (hno _ _ ht)
    | stray hp' =>
      obtain rfl := List.singleton_inj.1
        ((List.prefix_of_prefix_length_le hp hp' le_rfl).eq_of_length rfl)
      exact ⟨rfl, rfl⟩

theorem Lexeme.IsNext.ne_nil (h : t.IsNext text cs) : text ≠ [] := by
  rintro rfl
  cases h with
  | longest ht hp =>
    obtain ⟨c, cs, rfl, -⟩ := ht.exists_cons
    simp at hp
  | stray hp => simp at hp

/-! ### The two faults -/

theorem number_of_second_point {whole fraction : List Char} (more : List Char)
    (hw : ∀ c ∈ whole, c.isDigit) (hf : ∀ c ∈ fraction, c.isDigit) :
    number (whole ++ '.' :: (fraction ++ '.' :: more)) = whole ++ '.' :: fraction := by
  have hrun : (whole ++ '.' :: (fraction ++ '.' :: more)).takeWhile Char.isDigit = whole :=
    Cursor.takeWhile_append_of_stop hw (by simp)
  simp only [number, hrun, List.drop_left]
  rw [Cursor.takeWhile_append_of_stop hf (by simp)]

/-- A number that a point stands behind has had one already. -/
theorem hasSecondPoint_of_number {c : Char} (hc : c.isDigit)
    (h : ((c :: rest).drop (number (c :: rest)).length).head? = some '.') :
    HasSecondPoint (c :: rest) := by
  have hall : ∀ cs : List Char, ∀ d ∈ cs.takeWhile Char.isDigit, d.isDigit := fun cs d hd =>
    List.all_eq_true.1 List.all_takeWhile d hd
  have hrun : ∀ cs : List Char,
      cs.takeWhile Char.isDigit ++ cs.drop (cs.takeWhile Char.isDigit).length = cs := fun cs =>
    List.prefix_iff_eq_append.1 (List.takeWhile_prefix _)
  simp only [number] at h
  split at h
  · next tail htail =>
    rw [List.length_append, ← List.drop_drop, htail, List.length_cons, List.drop_succ_cons] at h
    obtain ⟨more, hmore⟩ := List.head?_eq_some_iff.1 h
    refine ⟨(c :: rest).takeWhile Char.isDigit, tail.takeWhile Char.isDigit, more, by simp [hc],
      hall _, hall _, ?_⟩
    rw [← hmore, hrun tail, ← htail, hrun]
  · next hne =>
    obtain ⟨more, hmore⟩ := List.head?_eq_some_iff.1 h
    exact absurd hmore (hne more)

/-! ### One step of a scan -/

namespace Cursor

variable {c : Cursor}

theorem tokens_of_fault {f : LexicalFault} {d : Cursor} (h : c.nextToken = (.error f, d)) :
    c.tokens = .error f := by
  rw [tokens]
  split
  · next h' =>
    rw [h] at h'
    exact congrArg Except.error (Except.error.inj (Prod.mk.inj h').1).symm
  · next h' => rw [h] at h'; cases h'

theorem tokens_past (hf : c.Faces (gap ++ rest)) (hg : IsGap gap rest) :
    c.tokens = (c.past gap).tokens := by
  have hn : c.nextToken = (c.past gap).nextToken :=
    nextToken_past hf hg.trivia List.isEmpty_iff.1 hg.ends
  rcases hc : c.nextToken with ⟨f | t, d⟩
  · rw [tokens_of_fault hc, tokens_of_fault (hn.symm.trans hc)]
  · by_cases ht : t.kind = .endOfInput
    · rw [tokens_of_end hc ht, tokens_of_end (hn.symm.trans hc) ht]
    · rw [tokens_of_more hc ht, tokens_of_more (hn.symm.trans hc) ht]

theorem nextToken_of_second_point (hf : c.Faces text) (h : HasSecondPoint text) :
    ∃ d, c.nextToken = (.error (.invalidNumber c.place), d) := by
  obtain ⟨whole, fraction, more, hne, hw, hfr, rfl⟩ := h
  have hnumber := number_of_second_point more hw hfr
  obtain ⟨ch, tail, rfl⟩ := List.exists_cons_of_ne_nil hne
  obtain ⟨hspace, hhash, hword⟩ := isDigit_spec (hw ch (by simp))
  have hc := hf.rest_eq
  have hpoint : (c.past (number c.rest)).rest.head? = some '.' := by
    rw [hc, hnumber]
    simp [past, hc]
  refine ⟨c.past (number c.rest), ?_⟩
  rw [nextToken_of_head hf (startsTrivia_eq_false hspace hhash), if_neg (by simp [hword]),
    if_pos (hw ch (by simp)), readNumber, if_pos hpoint]

theorem nextToken_of_unterminated (hf : c.Faces text) (h : IsUnterminated text) :
    ∃ d, c.nextToken = (.error (.unterminatedString c.place), d) := by
  obtain ⟨quote, body, hq, rfl, hb⟩ := h
  obtain ⟨hspace, hhash, hword, hdigit, hslash⟩ := isQuote_spec hq
  refine ⟨c.past c.rest, ?_⟩
  rw [nextToken_of_head hf (startsTrivia_eq_false hspace hhash), if_neg (by simp [hword]),
    if_neg (by simp [hdigit]), if_pos hq]
  simp only [readString, hf.rest_eq, (quotedBody_eq_none_iff hslash body).2 hb]

/-- At the start of a lexeme there is one of the faults, or the lexeme is read. -/
theorem nextToken_cases (hf : c.Faces text) (hne : text ≠ [])
    (hs : ∀ d ∈ text.head?, startsTrivia d = false) :
    HasSecondPoint text ∨ IsUnterminated text ∨
      ∃ (t : Lexeme) (cs : List Char), t.IsNext text cs ∧ cs <+: text ∧ cs ≠ [] ∧
        t.kind ≠ .endOfInput ∧ c.nextToken = (.ok ⟨t.kind, t.value, c.place⟩, c.past cs) := by
  obtain ⟨ch, rest, rfl⟩ := List.exists_cons_of_ne_nil hne
  have hc := hf.rest_eq
  rcases hn : c.nextToken with ⟨f | t, d⟩
  · rw [nextToken_of_head hf (hs ch rfl)] at hn
    split_ifs at hn with hw hd hq
    · cases hn
    · simp only [readNumber, hc] at hn
      split_ifs at hn with hpoint
      · exact .inl (hasSecondPoint_of_number hd (by simpa [past, hc] using hpoint))
      · cases hn
    · simp only [readString, hc] at hn
      split at hn
      · cases hn
      · next hnone =>
        exact .inr (.inl ⟨ch, rest, hq, rfl,
          (quotedBody_eq_none_iff (isQuote_spec hq).2.2.2.2 rest).1 hnone⟩)
    · split at hn <;> cases hn
  · right; right
    obtain ⟨cs, htakes⟩ := nextToken_takes_of_head hf (hs ch rfl) hn
    have hsplit : cs ++ d.rest = ch :: rest := by rw [← hc, htakes.rest_eq]
    obtain ⟨e, es, hcs, -⟩ := htakes.readOff.exists_cons
    refine ⟨t.lexeme, cs, hsplit ▸ htakes.endsBefore.isNext, hsplit ▸ List.prefix_append _ _,
      by simp [hcs], htakes.readOff.isWritten.kind_ne_end, ?_⟩
    rw [← htakes.place_eq, ← htakes.cursor_eq]
    rfl

end Cursor

/-! ### The scan -/

/-- A cursor follows the scan, and what it will still read comes behind the tokens so far. -/
theorem Reaches.exists_cursor (h : Reaches source before rest ts) :
    ∃ c : Cursor, c.Faces rest ∧ c.place = Place.behind before ∧
      (∀ d ∈ rest.head?, startsTrivia d = false) ∧ source = before ++ rest ∧
      (Cursor.ofText source).tokens = c.tokens.map (ts ++ ·) := by
  induction h with
  | @start gap rest hs hg =>
    have hf : (Cursor.ofText source).Faces (gap ++ rest) := ⟨le_rfl, hs⟩
    refine ⟨(Cursor.ofText source).past gap, hf.past, Place.after_start gap, hg.ends, hs, ?_⟩
    rw [Cursor.tokens_past hf hg]
    cases ((Cursor.ofText source).past gap).tokens <;> rfl
  | @next before cs gap rest ts t _ hn hu ht hg ih =>
    obtain ⟨c, hf, hplace, hends, hs, htokens⟩ := ih
    rcases Cursor.nextToken_cases hf ht.ne_nil hends with h | h | ⟨u, ds, hu, -, -, hk, hread⟩
    · exact absurd h hn
    · exact absurd h hu
    obtain ⟨rfl, rfl⟩ := hu.unique ht
    have hf' : (c.past ds).Faces (gap ++ rest) := hf.past
    refine ⟨(c.past ds).past gap, hf'.past, ?_, hg.ends, by simp [hs], ?_⟩
    · rw [Cursor.past_append, Place.behind_append, ← hplace]
      rfl
    · rw [htokens, Cursor.tokens_of_more hread hk, Cursor.tokens_past hf' hg, ← hplace]
      cases ((c.past ds).past gap).tokens <;> simp [Except.map]

/-- A scan goes on to the end, or to a lexeme with a fault. -/
theorem Reaches.exists_outcome (h : Reaches source before rest ts) :
    ∃ before rest ts, Reaches source before rest ts ∧
      (rest = [] ∨ HasSecondPoint rest ∨ IsUnterminated rest) := by
  induction hlen : rest.length using Nat.strong_induction_on generalizing before rest ts with
  | _ n ih =>
    by_cases hne : rest = []
    · exact ⟨before, rest, ts, h, .inl hne⟩
    obtain ⟨c, hf, -, hends, -⟩ := h.exists_cursor
    rcases Cursor.nextToken_cases hf hne hends with hn | hu | ⟨t, cs, ht, ⟨more, rfl⟩, hcs, -⟩
    · exact ⟨before, rest, ts, h, .inr (.inl hn)⟩
    · exact ⟨before, rest, ts, h, .inr (.inr hu)⟩
    by_cases hn : HasSecondPoint (cs ++ more)
    · exact ⟨before, _, ts, h, .inr (.inl hn)⟩
    by_cases hu : IsUnterminated (cs ++ more)
    · exact ⟨before, _, ts, h, .inr (.inr hu)⟩
    obtain ⟨gap, rest, rfl, hg⟩ := exists_gap more
    have hshorter : rest.length < n := by
      have := List.length_pos_iff.2 hcs
      simp only [List.length_append] at hlen
      omega
    exact ih _ hshorter (.next h hn hu ht hg) rfl

/-- What the scan comes to decides what reading gives. -/
theorem Reaches.tokens_of_end (h : Reaches source before [] ts) :
    (Cursor.ofText source).tokens = .ok (ts ++ [Cursor.endToken (Place.behind source)]) := by
  obtain ⟨c, hf, hplace, -, hs, htokens⟩ := h.exists_cursor
  obtain rfl : source = before := by rw [hs, List.append_nil]
  rw [htokens, Cursor.tokens_of_end (Cursor.nextToken_of_end hf .nil) rfl, ← hplace]
  rfl

theorem Reaches.tokens_of_fault {fault : Place → LexicalFault} (h : Reaches source before rest ts)
    (hread : ∀ c : Cursor, c.Faces rest → ∃ d, c.nextToken = (.error (fault c.place), d)) :
    (Cursor.ofText source).tokens = .error (fault (Place.behind before)) := by
  obtain ⟨c, hf, hplace, -, -, htokens⟩ := h.exists_cursor
  obtain ⟨d, hread⟩ := hread c hf
  rw [htokens, Cursor.tokens_of_fault hread, ← hplace]
  rfl

theorem Reaches.tokens_of_second_point (h : Reaches source before rest ts)
    (hn : HasSecondPoint rest) :
    (Cursor.ofText source).tokens = .error (.invalidNumber (Place.behind before)) :=
  h.tokens_of_fault fun _ hf => Cursor.nextToken_of_second_point hf hn

theorem Reaches.tokens_of_unterminated (h : Reaches source before rest ts)
    (hu : IsUnterminated rest) :
    (Cursor.ofText source).tokens = .error (.unterminatedString (Place.behind before)) :=
  h.tokens_of_fault fun _ hf => Cursor.nextToken_of_unterminated hf hu

/-- The tokens of a text are its lexemes by longest match, and it is refused for the first lexeme
with a fault, at the place where that starts, and for nothing else. -/
theorem tokenize_longest_match (source : String) :
    (∀ ts, tokenize source = .ok ts ↔
      ∃ body, Reaches source.toList source.toList [] body ∧
        ts = body ++ [Cursor.endToken (Place.behind source.toList)]) ∧
    ∀ f, tokenize source = .error f ↔
      ∃ before rest body, Reaches source.toList before rest body ∧
        (HasSecondPoint rest ∧ f = .invalidNumber (Place.behind before) ∨
          IsUnterminated rest ∧ f = .unterminatedString (Place.behind before)) := by
  obtain ⟨gap, rest, hs, hg⟩ := exists_gap source.toList
  obtain ⟨before, rest, body, h, hend⟩ := (Reaches.start hs hg).exists_outcome
  constructor
  · intro ts
    constructor
    · intro ht
      rcases hend with rfl | hn | hu
      · obtain ⟨-, -, -, -, hbefore, -⟩ := h.exists_cursor
        rw [List.append_nil] at hbefore
        exact ⟨body, hbefore ▸ h, Except.ok.inj (ht.symm.trans h.tokens_of_end)⟩
      · cases ht.symm.trans (h.tokens_of_second_point hn)
      · cases ht.symm.trans (h.tokens_of_unterminated hu)
    · rintro ⟨body, h, rfl⟩
      exact h.tokens_of_end
  · intro f
    constructor
    · intro hf
      rcases hend with rfl | hn | hu
      · cases hf.symm.trans h.tokens_of_end
      · exact ⟨before, rest, body, h,
          .inl ⟨hn, Except.error.inj (hf.symm.trans (h.tokens_of_second_point hn))⟩⟩
      · exact ⟨before, rest, body, h,
          .inr ⟨hu, Except.error.inj (hf.symm.trans (h.tokens_of_unterminated hu))⟩⟩
    · rintro ⟨before, rest, body, h, ⟨hn, rfl⟩ | ⟨hu, rfl⟩⟩
      · exact h.tokens_of_second_point hn
      · exact h.tokens_of_unterminated hu

end LocksetLang
