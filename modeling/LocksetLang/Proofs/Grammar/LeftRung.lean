import LocksetLang.Grammar.Productions
import LocksetLang.Proofs.Grammar.Derivation
import LocksetLang.Proofs.Grammar.Reply

/-! Products and sums are read alike: an operand first, and while one of the operators comes next, an
operator and one more operand, grouped to the left. What holds of a rung of the ladder that is read
in this way is shown for any such rung. -/

namespace LocksetLang.Grammar

open LocksetLang.Parser

/-- A rung that groups to the left: its operators, its operands, what goes on behind an operand, and
the production as a whole. -/
structure LeftRung where
  operators : List String
  operand : (depth : Nat) → Parser Node
  tail : (depth : Nat) → (left : Node) → Parser Node
  whole : (depth : Nat) → Parser Node
  tail_zero (left : Node) : tail 0 left = unfinished
  tail_succ (depth : Nat) (left : Node) : tail (depth + 1) left = (do
    if ← atOperator operators then
      let operator ← advance
      let right ← operand depth
      tail depth (.binary left right operator.value)
    else return left)
  whole_zero : whole 0 = unfinished
  whole_succ (depth : Nat) : whole (depth + 1) = operand depth >>= tail depth

def products : LeftRung where
  operators := multiplicativeOperators
  operand := callOrMember
  tail := productTail
  whole := product
  tail_zero _ := by rw [productTail]
  tail_succ _ _ := by rw [productTail]
  whole_zero := by rw [product]
  whole_succ _ := by rw [product]

def sums : LeftRung where
  operators := additiveOperators
  operand := product
  tail := sumTail
  whole := sum
  tail_zero _ := by rw [sumTail]
  tail_succ _ _ := by rw [sumTail]
  whole_zero := by rw [sum]
  whole_succ _ := by rw [sum]

namespace LeftRung

/-- What makes up the rung, told of lexemes and trees: the operands are those of `D`. -/
structure Groups (R : LeftRung) (D E : List Lexeme → Node → Prop) : Prop where
  operand {xs e} : D xs e → E xs e
  binary {o : Lexeme} {xs ys l r} : E xs l → o.kind = .operator → o.value ∈ R.operators → D ys r →
    E (xs ++ o :: ys) (.binary l r o.value)

theorem groups_products {joins : List Lexeme → List Lexeme → Prop} :
    products.Groups (Derives joins .call) (Derives joins .product) :=
  ⟨.factor, .product⟩

theorem groups_sums {joins : List Lexeme → List Lexeme → Prop} :
    sums.Groups (Derives joins .product) (Derives joins .sum) :=
  ⟨.term, .sum⟩

variable (R : LeftRung) {last o : Token} {d : Nat} {ahead mid rest ts : List Token} {u r v : Node}

/-- Where none of the operators comes next, the rung goes on no further. -/
theorem tail_stop (hd : 1 ≤ d) (h : (ahead.headD last).kind = .operator →
    (ahead.headD last).value ∉ R.operators) : R.tail d u last ahead = .value u ahead := by
  obtain ⟨d, rfl⟩ : ∃ e, d = e + 1 := ⟨d - 1, by omega⟩
  rw [R.tail_succ, atOperator_bind, if_neg]
  · rfl
  · rw [Bool.and_eq_true, decide_eq_true_eq, List.contains_iff_mem]
    exact fun ⟨hk, hv⟩ => h hk hv

theorem tail_of_operator (ho : o.kind = .operator) (hv : o.value ∈ R.operators)
    (hr : R.operand d last ts = .value r mid) :
    R.tail (d + 1) u last (o :: ts) = R.tail d (.binary u r o.value) last mid := by
  rw [R.tail_succ, atOperator_bind, if_pos (by simp [ho, hv]), advance_bind, List.headD_cons,
    List.tail_cons, bind_of_value hr]

/-- A tail has stopped at once, or has gone on behind one operator and one operand. -/
theorem tail_eq_value (hl : last.kind = .endOfInput)
    (h : R.tail (d + 1) u last ahead = .value v rest) :
    u = v ∧ ahead = rest ∨ ∃ o ts r mid, ahead = o :: ts ∧ o.kind = .operator ∧
      o.value ∈ R.operators ∧ R.operand d last ts = .value r mid ∧
      R.tail d (.binary u r o.value) last mid = .value v rest := by
  rw [R.tail_succ, atOperator_bind] at h
  split_ifs at h with hb
  · obtain ⟨o, ts, rfl, ho, hv⟩ := eq_cons_of_operator hl hb
    rw [advance_bind, List.tail_cons, bind_eq_value] at h
    obtain ⟨r, mid, hr, h⟩ := h
    exact .inr ⟨o, ts, r, mid, rfl, ho, hv, hr, h⟩
  · exact .inl (return_eq_value.1 h)

/-- What holds of the tokens ahead behind every operand, and is asked for at the start, holds where
a tail ends. -/
theorem tail_ends {P : List Token → Prop} (hl : last.kind = .endOfInput)
    (hoperand : ∀ {d ahead r mid}, R.operand d last ahead = .value r mid → P mid) :
    ∀ {d u ahead}, R.tail d u last ahead = .value v rest → P ahead → P rest := by
  intro d
  induction d with
  | zero =>
    intro u ahead h
    rw [R.tail_zero] at h
    exact absurd h unfinished_ne_value
  | succ d ih =>
    intro u ahead h hp
    rcases R.tail_eq_value hl h with ⟨-, rfl⟩ | ⟨o, ts, r, mid, rfl, -, -, hr, ht⟩
    · exact hp
    · exact ih ht (hoperand hr)

theorem whole_ends {P : List Token → Prop} (hl : last.kind = .endOfInput)
    (hoperand : ∀ {d ahead r mid}, R.operand d last ahead = .value r mid → P mid)
    (h : R.whole d last ahead = .value v rest) : P rest := by
  cases d with
  | zero =>
    rw [R.whole_zero] at h
    exact absurd h unfinished_ne_value
  | succ d =>
    rw [R.whole_succ, bind_eq_value] at h
    obtain ⟨u, mid, hu, h⟩ := h
    exact R.tail_ends hl hoperand h (hoperand hu)

end LeftRung
end LocksetLang.Grammar
