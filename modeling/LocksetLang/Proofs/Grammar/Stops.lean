import LocksetLang.Proofs.Grammar.Boundary
import LocksetLang.Proofs.Grammar.Soundness

/-! Where the reading of a statement stops. A call takes in every opening parenthesis behind its
callee, so one is left ahead of a statement only behind a brace or a semicolon. -/

namespace LocksetLang.Grammar

open LocksetLang.Parser

variable {last : Token} {ahead rest : List Token} {u v : Node}

theorem call_stops : ∀ {d ahead u}, call d u last ahead = .value v rest →
    (rest.headD last).kind ≠ .leftParen := by
  intro d
  induction d with
  | zero => intro ahead u h; rw [call] at h; exact absurd h unfinished_ne_value
  | succ d ih =>
    intro ahead u h
    rw [call, bind_eq_value] at h
    obtain ⟨as, mid, -, h⟩ := h
    rw [bind_eq_value] at h
    obtain ⟨r, mid', -, h⟩ := h
    rw [peek_bind] at h
    split_ifs at h with hp
    · exact ih h
    · obtain ⟨-, rfl⟩ := return_eq_value.1 h
      exact hp

theorem callOrMember_stops {d : Nat} (h : callOrMember d last ahead = .value v rest) :
    (rest.headD last).kind ≠ .leftParen := by
  cases d with
  | zero => rw [callOrMember] at h; exact absurd h unfinished_ne_value
  | succ d =>
    rw [callOrMember, bind_eq_value] at h
    obtain ⟨u, mid, -, h⟩ := h
    rw [peek_bind] at h
    split_ifs at h with hp
    · exact call_stops h
    · obtain ⟨-, rfl⟩ := return_eq_value.1 h
      exact hp

theorem product_stops {d : Nat} (hl : last.kind = .endOfInput)
    (h : product d last ahead = .value v rest) : (rest.headD last).kind ≠ .leftParen :=
  products.whole_ends (P := fun ts => (ts.headD last).kind ≠ .leftParen) hl callOrMember_stops h

theorem sum_stops {d : Nat} (hl : last.kind = .endOfInput)
    (h : sum d last ahead = .value v rest) : (rest.headD last).kind ≠ .leftParen :=
  sums.whole_ends (P := fun ts => (ts.headD last).kind ≠ .leftParen) hl (product_stops hl) h

/-- No opening parenthesis is left ahead, unless a closing brace is the last token used. -/
def Settled (last : Token) (ahead rest : List Token) : Prop :=
  (rest.headD last).kind = .leftParen → ∃ init c, ahead = init ++ c :: rest ∧ c.kind = .rightBrace

theorem object_settled {d : Nat} (hl : last.kind = .endOfInput)
    (h : object d last ahead = .value v rest) : Settled last ahead rest := by
  cases d with
  | zero => rw [object] at h; exact absurd h unfinished_ne_value
  | succ d =>
    rw [object, peek_bind] at h
    split_ifs at h with hb
    · obtain ⟨o, ts, rfl, ho⟩ := eq_cons_of_headD hl hb (by decide)
      rw [advance_bind, List.tail_cons, bind_eq_value] at h
      obtain ⟨ps, mid, hp, h⟩ := h
      obtain ⟨xs, rfl, -⟩ := (sound hl d).properties hp
      rw [expect_bind_eq_value .objectEnd hl (by decide)] at h
      obtain ⟨c, cs, rfl, hc, h⟩ := h
      obtain ⟨-, rfl⟩ := return_eq_value.1 h
      exact fun _ => ⟨o :: xs, c, rfl, hc⟩
    · exact fun hp => absurd hp (sum_stops hl h)

theorem expression_settled (hl : last.kind = .endOfInput) : ∀ {d ahead v},
    expression d last ahead = .value v rest → Settled last ahead rest := by
  intro d
  induction d with
  | zero => intro ahead v h; rw [expression] at h; exact absurd h unfinished_ne_value
  | succ d ih =>
    intro ahead v h
    rw [expression, bind_eq_value] at h
    obtain ⟨u, mid, hu, h⟩ := h
    rw [peek_bind] at h
    split_ifs at h with hq
    · obtain ⟨xs, rfl, -⟩ := (sound hl d).object hu
      obtain ⟨q, qs, rfl, hq⟩ := eq_cons_of_headD hl hq (by decide)
      rw [advance_bind, List.tail_cons, bind_eq_value] at h
      obtain ⟨e, mid, he, h⟩ := h
      obtain ⟨-, rfl⟩ := return_eq_value.1 h
      intro hp
      obtain ⟨init, c, rfl, hc⟩ := ih he hp
      exact ⟨xs ++ q :: init, c, by simp, hc⟩
    · obtain ⟨-, rfl⟩ := return_eq_value.1 h
      exact object_settled hl hu

end LocksetLang.Grammar
