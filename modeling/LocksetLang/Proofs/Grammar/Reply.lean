import LocksetLang.Grammar.Parser
import Mathlib.Tactic

/-! How a parser comes to return a value. A parser made of two has run both, the second on what the
first left ahead. Before an end of input, whatever meets a demand is taken off the list. -/

namespace LocksetLang.Parser

variable {α β : Type} {last : Token} {ahead rest : List Token}

theorem bind_of_value {p : Parser α} {f : α → Parser β} {a : α} {mid : List Token}
    (h : p last ahead = .value a mid) : (p >>= f) last ahead = f a last mid := by
  change Parser.bind p f last ahead = _
  unfold Parser.bind
  rw [h]

theorem bind_of_fault {p : Parser α} {f : α → Parser β} {e : ParseFault} {left : List Token}
    (h : p last ahead = .fault e left) : (p >>= f) last ahead = .fault e left := by
  change Parser.bind p f last ahead = _
  unfold Parser.bind
  rw [h]

theorem bind_eq_value {p : Parser α} {f : α → Parser β} {b : β} :
    (p >>= f) last ahead = .value b rest ↔
      ∃ a mid, p last ahead = .value a mid ∧ f a last mid = .value b rest := by
  constructor
  · intro h
    change Parser.bind p f last ahead = _ at h
    unfold Parser.bind at h
    cases hp : p last ahead with
    | value a mid => rw [hp] at h; exact ⟨a, mid, rfl, h⟩
    | fault e mid => rw [hp] at h; cases h
    | unfinished => rw [hp] at h; cases h
  · rintro ⟨a, mid, hp, h⟩
    rw [bind_of_value hp, h]

theorem bind_eq_fault {p : Parser α} {f : α → Parser β} {e : ParseFault} {left : List Token} :
    (p >>= f) last ahead = .fault e left ↔
      p last ahead = .fault e left ∨
        ∃ a mid, p last ahead = .value a mid ∧ f a last mid = .fault e left := by
  constructor
  · intro h
    cases hp : p last ahead with
    | value a mid => exact .inr ⟨a, mid, rfl, by rwa [bind_of_value hp] at h⟩
    | fault e' mid =>
      rw [bind_of_fault hp] at h
      obtain ⟨rfl, rfl⟩ := Reply.fault.inj h
      exact .inl rfl
    | unfinished =>
      change Parser.bind p f last ahead = _ at h
      unfold Parser.bind at h
      rw [hp] at h
      cases h
  · rintro (h | ⟨a, mid, hp, h⟩)
    · exact bind_of_fault h
    · rw [bind_of_value hp, h]

theorem peek_bind (f : Token → Parser β) (last : Token) (ahead : List Token) :
    (peek >>= f) last ahead = f (ahead.headD last) last ahead := rfl

theorem advance_bind (f : Token → Parser β) (last : Token) (ahead : List Token) :
    (advance >>= f) last ahead = f (ahead.headD last) last ahead.tail := rfl

theorem return_bind (a : α) (f : α → Parser β) : (pure a >>= f) = f a := rfl

theorem return_eq_value {a b : α} :
    (pure a : Parser α) last ahead = .value b rest ↔ a = b ∧ ahead = rest := by
  change Reply.value a ahead = .value b rest ↔ _
  rw [Reply.value.injEq]

theorem fail_ne_value {e : ParseFault} {a : α} : fail e last ahead ≠ .value a rest := by
  simp [fail]

theorem unfinished_ne_value {a : α} : unfinished last ahead ≠ .value a rest := by
  simp [unfinished]

theorem expect_bind (d : Demand) (f : Token → Parser β) (last : Token) (ahead : List Token) :
    (expect d >>= f) last ahead =
      if (ahead.headD last).kind = d.kind then f (ahead.headD last) last ahead.tail
      else .fault (.unexpected d (ahead.headD last)) ahead.tail := by
  change Parser.bind (expect d) f last ahead = _
  unfold expect
  simp only [Parser.bind, advance_bind]
  split_ifs <;> rfl

theorem expect_of_kind {d : Demand} {t : Token} {ts : List Token} (h : t.kind = d.kind) :
    expect d last (t :: ts) = .value t ts := by
  unfold expect
  rw [advance_bind, List.headD_cons, if_pos h]
  rfl

theorem expect_bind_of_kind {d : Demand} {f : Token → Parser β} {t : Token} {ts : List Token}
    (h : t.kind = d.kind) : (expect d >>= f) last (t :: ts) = f t last ts := by
  rw [expect_bind, List.headD_cons, if_pos h, List.tail_cons]

theorem atListEnd_bind (f : Bool → Parser β) (last : Token) (ahead : List Token) :
    (atListEnd >>= f) last ahead =
      f ((ahead.headD last).kind = .endOfInput || (ahead.headD last).kind = .rightBrace)
        last ahead := rfl

theorem atOperator_bind (operators : List String) (f : Bool → Parser β) (last : Token)
    (ahead : List Token) :
    (atOperator operators >>= f) last ahead =
      f ((ahead.headD last).kind = .operator && operators.contains (ahead.headD last).value)
        last ahead := rfl

theorem eq_cons_of_headD {k : Kind} (hl : last.kind = .endOfInput)
    (h : (ahead.headD last).kind = k) (hk : k ≠ .endOfInput) :
    ∃ t ts, ahead = t :: ts ∧ t.kind = k := by
  cases ahead with
  | nil => exact absurd (h.symm.trans hl) hk
  | cons t ts => exact ⟨t, ts, rfl, h⟩

theorem eq_cons_of_headD_or {k k' : Kind} (hl : last.kind = .endOfInput)
    (h : (ahead.headD last).kind = k ∨ (ahead.headD last).kind = k') (hk : k ≠ .endOfInput)
    (hk' : k' ≠ .endOfInput) : ∃ t ts, ahead = t :: ts ∧ (t.kind = k ∨ t.kind = k') := by
  rcases h with h | h
  · obtain ⟨t, ts, rfl, ht⟩ := eq_cons_of_headD hl h hk
    exact ⟨t, ts, rfl, .inl ht⟩
  · obtain ⟨t, ts, rfl, ht⟩ := eq_cons_of_headD hl h hk'
    exact ⟨t, ts, rfl, .inr ht⟩

theorem eq_cons_of_comparison (hl : last.kind = .endOfInput)
    (h : ((ahead.headD last).kind = .doubleEquals || (ahead.headD last).kind = .notEquals) = true) :
    ∃ s ss, ahead = s :: ss ∧ (s.kind = .doubleEquals ∨ s.kind = .notEquals) := by
  rw [Bool.or_eq_true, decide_eq_true_eq, decide_eq_true_eq] at h
  exact eq_cons_of_headD_or hl h (by decide) (by decide)

theorem eq_cons_of_operator {operators : List String} (hl : last.kind = .endOfInput)
    (h : ((ahead.headD last).kind = .operator &&
      operators.contains (ahead.headD last).value) = true) :
    ∃ o ts, ahead = o :: ts ∧ o.kind = .operator ∧ o.value ∈ operators := by
  rw [Bool.and_eq_true, decide_eq_true_eq, List.contains_iff_mem] at h
  obtain ⟨o, ts, rfl, ho⟩ := eq_cons_of_headD hl h.1 (by decide)
  exact ⟨o, ts, rfl, ho, h.2⟩

theorem expect_bind_eq_value (d : Demand) (hl : last.kind = .endOfInput)
    (hd : d.kind ≠ .endOfInput) {f : Token → Parser β} {b : β} :
    (expect d >>= f) last ahead = .value b rest ↔
      ∃ t ts, ahead = t :: ts ∧ t.kind = d.kind ∧ f t last ts = .value b rest := by
  constructor
  · intro h
    rw [expect_bind] at h
    split_ifs at h with hk
    obtain ⟨t, ts, rfl, ht⟩ := eq_cons_of_headD hl hk hd
    exact ⟨t, ts, rfl, ht, h⟩
  · rintro ⟨t, ts, rfl, ht, h⟩
    rw [expect_bind_of_kind ht, h]

end LocksetLang.Parser
