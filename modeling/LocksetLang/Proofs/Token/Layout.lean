import LocksetLang.Proofs.Token.Scanning

/-! Putting texts of lexemes together. Behind a separator any lexeme stops, and an opening
parenthesis or bracket stops before anything. -/

namespace LocksetLang

open Lexeme

/-- The characters that go on with no lexeme. -/
def separators : List Char := " \n()[],;:{}".toList

variable {t : Lexeme} {as bs cs : List Char} {ls ms : List Lexeme}

theorem goesOnWith_separator {c : Char} (hc : c ∈ separators) (k : Kind) :
    k.goesOnWith c = false := by
  have hall : ∀ c ∈ separators, isWordPart c = false ∧ c.isDigit = false ∧ c ≠ '.' ∧ c ≠ '=' :=
    List.forall_iff_forall_mem.1 (by decide)
  obtain ⟨hw, hd, hp, he⟩ := hall c hc
  cases k <;> simp [Kind.goesOnWith, hw, hd, hp, he]

theorem Lexeme.StopsAt.separator {c : Char} (hc : c ∈ separators) : t.StopsAt (c :: cs) := by
  intro d hd
  obtain rfl := Option.some.inj hd
  exact goesOnWith_separator hc t.kind

theorem Spells.ne_nil (h : Spells cs ls) (hl : ls ≠ []) : cs ≠ [] := by
  cases h with
  | nil => exact absurd rfl hl
  | cons ht =>
    obtain ⟨c, rest, rfl, -⟩ := ht.exists_cons
    simp

theorem Spells.single (h : t.SpeltBy cs) : Spells cs [t] := by
  have hstop : t.StopsAt ([] ++ []) := by
    intro c hc
    cases hc
  have hs := Spells.cons h (List.forall_mem_nil _) hstop (fun _ => rfl) .nil
  rwa [List.append_nil, List.append_nil] at hs

theorem Spells.append (ha : Spells as ls) (gap : List Char) (hb : Spells bs ms)
    (hg : ∀ c ∈ gap, isLayout c) (hl : ls ≠ []) (hm : ms ≠ [])
    (hs : ∀ t ∈ ls.getLast?, t.StopsAt (gap ++ bs)) :
    Spells (as ++ (gap ++ bs)) (ls ++ ms) := by
  induction ha with
  | nil => exact absurd rfl hl
  | @cons t cs gap' rest ls ht hg' hs' hn h ih =>
    rw [List.append_assoc, List.append_assoc, List.cons_append]
    by_cases hls : ls = []
    · subst hls
      obtain rfl := hn rfl
      cases h
      simp only [List.nil_append]
      exact .cons ht hg (hs t rfl) (fun he => absurd he hm) hb
    · refine .cons ht hg' ?_ (fun he => absurd (List.append_eq_nil_iff.1 he).1 hls) (ih hls ?_)
      · obtain ⟨c, tail, hc⟩ := List.exists_cons_of_ne_nil
          (show gap' ++ rest ≠ [] by simp [h.ne_nil hls])
        rw [← List.append_assoc, hc]
        rw [hc] at hs'
        exact hs'
      · intro u hu
        refine hs u ?_
        rw [List.getLast?_cons_of_ne_nil hls]
        exact hu

theorem Spells.spaced (ha : Spells as ls) (hb : Spells bs ms) (hl : ls ≠ []) (hm : ms ≠ []) :
    Spells (as ++ ' ' :: bs) (ls ++ ms) :=
  ha.append [' '] hb (List.forall_mem_singleton.2 rfl) hl hm fun _ _ => .separator (by decide)

theorem Spells.separated {c : Char} (ha : Spells as ls) (hb : Spells (c :: bs) ms)
    (hc : c ∈ separators) (hl : ls ≠ []) (hm : ms ≠ []) : Spells (as ++ c :: bs) (ls ++ ms) :=
  ha.append [] hb (List.forall_mem_nil _) hl hm fun _ _ => .separator hc

theorem Spells.opened (hb : Spells bs ms) (ht : t.SpeltBy cs)
    (h : ∀ c, t.kind.goesOnWith c = false) : Spells (cs ++ bs) (t :: ms) :=
  have hstop : t.StopsAt ([] ++ bs) := fun c _ => h c
  .cons ht (List.forall_mem_nil _) hstop (fun _ => rfl) hb

/-- Neither a parenthesis nor a brace stands at the ends of most lexemes. -/
theorem ends_of_forall_mem (hcs : ∀ c ∈ cs, c ≠ '(' ∧ c ≠ '}') (hl : t.kind ≠ .leftParen)
    (hr : t.kind ≠ .rightBrace) : (cs.head? = some '(' ↔ t.kind = .leftParen) ∧
      (cs.getLast? = some '}' ↔ t.kind = .rightBrace) := by
  refine ⟨⟨fun h => ?_, fun h => absurd h hl⟩, ⟨fun h => ?_, fun h => absurd h hr⟩⟩
  · exact absurd rfl (hcs _ (List.mem_of_mem_head? h)).1
  · exact absurd rfl (hcs _ (List.mem_of_getLast? h)).2

theorem isWordPart_ne {c : Char} (h : isWordPart c) : c ≠ '(' ∧ c ≠ '}' :=
  ⟨ne_of_isWordPart h (by decide), ne_of_isWordPart h (by decide)⟩

/-- The first and the last character tell an opening parenthesis and a closing brace. -/
theorem Lexeme.SpeltBy.ends (h : t.SpeltBy cs) :
    (cs.head? = some '(' ↔ t.kind = .leftParen) ∧
      (cs.getLast? = some '}' ↔ t.kind = .rightBrace) := by
  cases h with
  | @word c cs hc hcs =>
    have hk : ∀ k ∉ wordKinds, (keywords.lookup (String.ofList (c :: cs))).getD .identifier ≠ k :=
      fun k hk h => hk (h ▸ wordKind_mem _)
    refine ends_of_forall_mem (fun d hd => ?_) (hk _ (by decide)) (hk _ (by decide))
    rcases List.mem_cons.1 hd with rfl | hd
    · exact isWordPart_ne (by simp [isWordPart, hc])
    · exact isWordPart_ne (hcs d hd)
  | number n =>
    refine ends_of_forall_mem (fun d hd => ?_) (by simp) (by simp)
    rcases n.mem_chars hd with hd | rfl
    · exact isWordPart_ne (by simp [isWordPart, hd])
    · decide
  | string hq hb =>
    simp only [isQuote, Bool.or_eq_true, decide_eq_true_eq] at hq
    rcases hq with rfl | rfl <;> simp [List.getLast?_cons]
  | symbol hk =>
    have hall : ∀ p ∈ symbols, (p.1.toList.head? = some '(' ↔ p.2 = .leftParen) ∧
        (p.1.toList.getLast? = some '}' ↔ p.2 = .rightBrace) := by decide
    simpa using hall _ (mem_of_lookup hk)

theorem Spells.head?_eq_iff (h : Spells cs ls) :
    cs.head? = some '(' ↔ ls.head?.map Lexeme.kind = some .leftParen := by
  cases h with
  | nil => simp
  | cons ht =>
    obtain ⟨c, tail, rfl, -⟩ := ht.exists_cons
    simpa using ht.ends.1

theorem Spells.getLast?_eq_iff (h : Spells cs ls) :
    cs.getLast? = some '}' ↔ ls.getLast?.map Lexeme.kind = some .rightBrace := by
  induction h with
  | nil => simp
  | @cons t cs gap rest ls ht _ _ hn h ih =>
    by_cases hls : ls = []
    · subst hls
      obtain rfl := hn rfl
      cases h
      simpa using ht.ends.2
    · rw [← List.append_assoc, List.getLast?_append_of_ne_nil _ (h.ne_nil hls),
        List.getLast?_cons_of_ne_nil hls]
      exact ih

end LocksetLang
