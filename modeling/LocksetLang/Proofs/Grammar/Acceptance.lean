import LocksetLang.Proofs.Grammar.Boundary
import LocksetLang.Proofs.Grammar.LeftRung

/-! A production takes a phrase off the tokens when what comes next does not go on with it. Members,
calls, products and sums group to the left, so for these a phrase is accepted in front of whatever
the rest of the ladder does with its tree. Between two tokens fewer than sixteen productions begin,
which bounds the depth. -/

namespace LocksetLang.Grammar

open LocksetLang.Parser

/-- No member or call goes on at the token. -/
def EndsCall (t : Token) : Prop :=
  t.kind ≠ .dot ∧ t.kind ≠ .leftBracket ∧ t.kind ≠ .leftParen

def EndsWith (k : Kind) (used : List Token) : Prop := ∃ c ∈ used.getLast?, c.kind = k

/-- No operand goes on at the token behind `used`. A brace takes no arguments. -/
def EndsObject (used : List Token) (t : Token) : Prop :=
  t.kind ≠ .dot ∧ t.kind ≠ .leftBracket ∧ t.kind ≠ .operator ∧
    (t.kind = .leftParen → EndsWith .rightBrace used)

def EndsExpression (used : List Token) (t : Token) : Prop := EndsObject used t ∧ t.kind ≠ .equals

/-- No statement goes on at the token behind `used`. -/
def EndsStatement (used : List Token) (t : Token) : Prop :=
  t.kind ∈ .rightBrace :: .endOfInput :: Phrase.firsts .statement ∧
    (t.kind = .leftParen → EndsWith .semicolon used ∨ EndsWith .rightBrace used)

variable (last : Token)

/-- From an operand with the tree `u`, members and calls lead on to `v`. -/
def Chains (depth : Nat) (u : Node) (ahead : List Token) (v : Node) (rest : List Token) : Prop :=
  ∃ w mid, (∀ d, depth ≤ d → memberTail d u last ahead = .value w mid) ∧
    if (mid.headD last).kind = .leftParen then ∀ d, depth ≤ d → call d w last mid = .value v rest
    else w = v ∧ mid = rest

/-- The production takes just the tokens of the phrase, whatever the tokens behind them are. -/
def Accepts : (p : Phrase) → List Token → p.Tree → Prop
  | .primary, used, v => ∀ rest d, 16 * used.length + 1 ≤ d →
    primary d last (used ++ rest) = .value v rest
  | .call, used, u => ∀ {k ahead v rest}, Chains last (16 * k + 2) u ahead v rest →
    ∀ d, 16 * (used.length + k) + 4 ≤ d → callOrMember d last (used ++ ahead) = .value v rest
  | .product, used, u => ∀ {k ahead v rest}, EndsCall (ahead.headD last) →
    (∀ d, 16 * k + 1 ≤ d → productTail d u last ahead = .value v rest) →
    ∀ d, 16 * (used.length + k) + 5 ≤ d → product d last (used ++ ahead) = .value v rest
  | .sum, used, u => ∀ {k ahead v rest}, EndsCall (ahead.headD last) →
    ((ahead.headD last).kind = .operator → (ahead.headD last).value ∉ multiplicativeOperators) →
    (∀ d, 16 * k + 1 ≤ d → sumTail d u last ahead = .value v rest) →
    ∀ d, 16 * (used.length + k) + 6 ≤ d → sum d last (used ++ ahead) = .value v rest
  | .object, used, v => ∀ rest d, EndsObject used (rest.headD last) →
    16 * used.length + 7 ≤ d → object d last (used ++ rest) = .value v rest
  | .expression, used, v => ∀ rest d, EndsExpression used (rest.headD last) →
    16 * used.length + 8 ≤ d → expression d last (used ++ rest) = .value v rest
  | .argumentList, used, es => ∀ c rest d, c.kind = .rightParen → 16 * used.length + 9 ≤ d →
    ∃ as, argumentList d last (used ++ c :: rest) = .value as (c :: rest) ∧ as.map (·.2) = es
  | .arguments, used, es => ∀ o c rest d, o.kind = .leftParen → c.kind = .rightParen →
    16 * used.length + 10 ≤ d →
    ∃ as, locatedArguments d last (o :: (used ++ c :: rest)) = .value as rest ∧ as.map (·.2) = es
  | .entries, used, ps => ∀ c rest d, c.kind = .rightBrace → 16 * used.length + 1 ≤ d →
    properties d last (used ++ c :: rest) = .value ps (c :: rest)
  | .statement, used, v => ∀ rest d, EndsStatement used (rest.headD last) →
    16 * used.length + 9 ≤ d → statement d last (used ++ rest) = .value v rest
  | .statements, used, ss => ∀ rest d, 16 * used.length + 10 ≤ d →
    ((rest.headD last).kind ∈ [.rightBrace, .endOfInput] →
      statements d last (used ++ rest) = .value ss rest) ∧
    ((rest.headD last).kind = .endOfInput → program d last (used ++ rest) = .value ss rest)
  | .block, used, ss => ∀ name rest d, 16 * used.length + 1 ≤ d →
    block d name last (used ++ rest) = .value ss rest
  | .alternate, used, a => ∀ rest d, (rest.headD last).kind ≠ .elseWord →
    16 * used.length + 1 ≤ d → alternate d last (used ++ rest) = .value a rest
  | .conditional, used, v => ∀ rest d, (rest.headD last).kind ≠ .elseWord →
    16 * used.length + 1 ≤ d → conditional d last (used ++ rest) = .value v rest

variable {last} {used ahead rest : List Token} {u v e : Node} {d : Nat}

/-- The depth that is left for the productions that one production calls. -/
theorem exists_succ_of_le {n : Nat} (h : n + 1 ≤ d) : ∃ m, d = m + 1 ∧ n ≤ m :=
  ⟨d - 1, by omega, by omega⟩

theorem memberTail_stop {d : Nat} (hd : 1 ≤ d) (hs : (ahead.headD last).kind ≠ .dot)
    (hb : (ahead.headD last).kind ≠ .leftBracket) :
    memberTail d u last ahead = .value u ahead := by
  obtain ⟨d, rfl, -⟩ := exists_succ_of_le hd
  rw [memberTail, peek_bind, if_neg hs, if_neg hb]
  rfl

theorem Chains.stop (h : EndsCall (ahead.headD last)) : Chains last 2 u ahead u ahead := by
  obtain ⟨hd, hb, hp⟩ := h
  refine ⟨u, ahead, fun d hd' => memberTail_stop (by omega) hd hb, ?_⟩
  rw [if_neg hp]
  exact ⟨rfl, rfl⟩

theorem Accepts.call_of_ends (h : Accepts last .call used v) (he : EndsCall (rest.headD last))
    (hd : 16 * used.length + 4 ≤ d) : callOrMember d last (used ++ rest) = .value v rest :=
  h (k := 0) (Chains.stop he) d hd

theorem Accepts.product_of_ends (h : Accepts last .product used v) (he : EndsCall (rest.headD last))
    (hm : (rest.headD last).kind = .operator →
      (rest.headD last).value ∉ multiplicativeOperators)
    (hd : 16 * used.length + 5 ≤ d) : product d last (used ++ rest) = .value v rest :=
  h (k := 0) he (fun _ hd => products.tail_stop hd hm) d hd

theorem EndsWith.of_append {k : Kind} {xs ys : List Token} (h : EndsWith k (xs ++ ys))
    (hy : ys ≠ []) : EndsWith k ys := by
  obtain ⟨c, hc, hk⟩ := h
  exact ⟨c, by rwa [List.getLast?_append_of_ne_nil _ hy] at hc, hk⟩

theorem EndsObject.of_append {xs ys : List Token} {t : Token} (h : EndsObject (xs ++ ys) t)
    (hy : ys ≠ []) : EndsObject ys t :=
  ⟨h.1, h.2.1, h.2.2.1, fun hp => (h.2.2.2 hp).of_append hy⟩

/-- A token that neither goes on with an operand nor opens a parenthesis ends any expression. -/
theorem EndsExpression.of_kind {k : Kind} {t : Token} (ht : t.kind = k)
    (hk : k ∉ [.dot, .leftBracket, .operator, .leftParen, .equals]) : EndsExpression used t := by
  subst ht
  simp only [List.mem_cons, List.not_mem_nil, or_false, not_or] at hk
  obtain ⟨hd, hb, ho, hp, hq⟩ := hk
  exact ⟨⟨hd, hb, ho, fun h => absurd h hp⟩, hq⟩

section
variable {o c t s n q k : Token} {xs ys : List Token} {l r : Node} {es ps : List Node}

theorem identifier_accepts (ht : t.kind = .identifier) :
    Accepts last .primary [t] (.identifier t.value) := by
  intro rest d hd
  obtain ⟨d, rfl, -⟩ := exists_succ_of_le hd
  rw [List.singleton_append, primary, peek_bind, List.headD_cons, ht]
  rfl

theorem string_accepts (ht : t.kind = .string) : Accepts last .primary [t] (.string t.value) := by
  intro rest d hd
  obtain ⟨d, rfl, -⟩ := exists_succ_of_le hd
  rw [List.singleton_append, primary, peek_bind, List.headD_cons, ht]
  rfl

theorem number_accepts {x : Binary64} (ht : t.kind = .number)
    (hx : Binary64.ofText? t.value = some x) (hf : x.isFinite) :
    Accepts last .primary [t] (.number x) := by
  intro rest d hd
  obtain ⟨d, rfl, -⟩ := exists_succ_of_le hd
  rw [List.singleton_append, primary, peek_bind, List.headD_cons, ht]
  dsimp only
  rw [advance_bind, List.headD_cons, List.tail_cons, numberOf, hx]
  dsimp only
  rw [if_pos hf]
  rfl

theorem group_accepts (ho : o.kind = .leftParen) (he : Accepts last .expression xs e)
    (hc : c.kind = .rightParen) : Accepts last .primary (o :: (xs ++ [c])) e := by
  intro rest d hd
  obtain ⟨d, rfl, hd⟩ := exists_succ_of_le hd
  simp only [List.length_cons, List.length_append, List.length_nil] at hd
  have hx := he (c :: rest) d (EndsExpression.of_kind hc (by decide)) (by omega)
  have hne : ¬ ((c.kind = .doubleEquals || c.kind = .notEquals) = true) := by simp [hc]
  rw [List.cons_append, List.append_assoc, List.singleton_append, primary, peek_bind,
    List.headD_cons, ho]
  dsimp only
  rw [advance_bind, List.tail_cons, bind_of_value hx, peek_bind, List.headD_cons, if_neg hne,
    return_bind, expect_bind_of_kind hc]
  rfl

theorem comparison_accepts (ho : o.kind = .leftParen) (hl : Accepts last .expression xs l)
    (hs : s.kind = .doubleEquals ∨ s.kind = .notEquals) (hr : Accepts last .expression ys r)
    (hc : c.kind = .rightParen) :
    Accepts last .primary (o :: (xs ++ s :: (ys ++ [c]))) (.equality l s.kind.name r) := by
  intro rest d hd
  obtain ⟨d, rfl, hd⟩ := exists_succ_of_le hd
  simp only [List.length_cons, List.length_append, List.length_nil] at hd
  have hends : EndsExpression xs s := by
    rcases hs with hs | hs
    · exact .of_kind hs (by decide)
    · exact .of_kind hs (by decide)
  have hx := hl (s :: (ys ++ c :: rest)) d hends (by omega)
  have hy := hr (c :: rest) d (EndsExpression.of_kind hc (by decide)) (by omega)
  have heq : (s.kind = .doubleEquals || s.kind = .notEquals) = true := by simpa using hs
  rw [show o :: (xs ++ s :: (ys ++ [c])) ++ rest = o :: (xs ++ s :: (ys ++ c :: rest)) by simp,
    primary, peek_bind, List.headD_cons, ho]
  dsimp only
  rw [advance_bind, List.tail_cons, bind_of_value hx, peek_bind, List.headD_cons, if_pos heq,
    advance_bind, List.tail_cons, bind_of_value hy, return_bind, expect_bind_of_kind hc]
  rfl

theorem operand_accepts (he : Accepts last .primary used e) : Accepts last .call used e := by
  intro k ahead v rest ⟨w, mid, hw, hv⟩ d hd
  obtain ⟨d, rfl, hm⟩ := exists_succ_of_le hd
  obtain ⟨d, rfl, hd⟩ := exists_succ_of_le hm
  have hm : member (d + 1) last (used ++ ahead) = .value w mid := by
    rw [member, bind_of_value (he ahead d (by omega)), hw d (by omega)]
  rw [callOrMember, bind_of_value hm, peek_bind]
  split_ifs at hv ⊢ with hp
  · exact hv (d + 1) (by omega)
  · obtain ⟨rfl, rfl⟩ := hv
    rfl

theorem memberName_accepts (he : Accepts last .call xs e) (ho : o.kind = .dot)
    (hn : n.kind = .identifier) :
    Accepts last .call (xs ++ [o, n]) (.member e (.identifier n.value) false) := by
  intro k ahead v rest ⟨w, mid, hw, hv⟩ d hd
  rw [List.append_assoc]
  refine he (k := k + 2) ⟨w, mid, fun d hd => ?_, ?_⟩ d (by simp at hd; omega)
  · obtain ⟨d, rfl, hd⟩ := exists_succ_of_le hd
    rw [List.cons_append, memberTail, peek_bind, List.headD_cons, if_pos ho, advance_bind,
      List.tail_cons, List.singleton_append, expect_bind_of_kind hn, hw d (by omega)]
  · split_ifs at hv ⊢ with hp
    · exact fun d hd => hv d (by omega)
    · exact hv

theorem memberIndex_accepts (he : Accepts last .call xs e) (ho : o.kind = .leftBracket)
    (hi : Accepts last .expression ys r) (hc : c.kind = .rightBracket) :
    Accepts last .call (xs ++ o :: (ys ++ [c])) (.member e r true) := by
  intro k ahead v rest ⟨w, mid, hw, hv⟩ d hd
  rw [List.append_assoc]
  refine he (k := k + ys.length + 2) ⟨w, mid, fun d hd => ?_, ?_⟩ d (by simp at hd; omega)
  · obtain ⟨d, rfl, hd⟩ := exists_succ_of_le hd
    have hx := hi (c :: ahead) d (EndsExpression.of_kind hc (by decide)) (by omega)
    rw [List.cons_append, List.append_assoc, List.singleton_append, memberTail, peek_bind,
      List.headD_cons, if_neg (by simp [ho]), if_pos ho, advance_bind, List.tail_cons,
      bind_of_value hx, expect_bind_of_kind hc, hw d (by omega)]
  · split_ifs at hv ⊢ with hp
    · exact fun d hd => hv d (by omega)
    · exact hv

theorem call_accepts (he : Accepts last .call xs e) (ho : o.kind = .leftParen)
    (ha : Accepts last .arguments ys es) (hc : c.kind = .rightParen) :
    Accepts last .call (xs ++ o :: (ys ++ [c])) (.call e es) := by
  intro k ahead v rest ⟨w, mid, hw, hv⟩ d hd
  rw [List.append_assoc, List.cons_append, List.append_assoc, List.singleton_append]
  refine he (k := k + ys.length + 2)
    ⟨e, o :: (ys ++ c :: ahead), fun d hd => ?_, ?_⟩ d (by simp at hd; omega)
  · exact memberTail_stop (by omega) (by simp [ho]) (by simp [ho])
  rw [List.headD_cons, if_pos ho]
  intro d hd
  obtain ⟨d, rfl, hd⟩ := exists_succ_of_le hd
  obtain ⟨as, hx, rfl⟩ := ha o c ahead d ho hc (by omega)
  rw [call, bind_of_value hx, bind_of_value (hw d (by omega)), peek_bind]
  split_ifs at hv ⊢ with hp
  · exact hv d (by omega)
  · obtain ⟨rfl, rfl⟩ := hv
    rfl

theorem factor_accepts (he : Accepts last .call used e) : Accepts last .product used e := by
  intro k ahead v rest hends ht d hd
  obtain ⟨d, rfl, hd⟩ := exists_succ_of_le hd
  rw [product, bind_of_value (he.call_of_ends hends (by omega)), ht d (by omega)]

theorem EndsCall.of_operator (ho : o.kind = .operator) : EndsCall o := by
  simp [EndsCall, ho]

theorem product_accepts (hl : Accepts last .product xs l) (ho : o.kind = .operator)
    (hv : o.value ∈ multiplicativeOperators) (hr : Accepts last .call ys r) :
    Accepts last .product (xs ++ o :: ys) (.binary l r o.value) := by
  intro k ahead v rest hends ht d hd
  rw [List.append_assoc]
  refine hl (k := ys.length + k + 1) (by exact EndsCall.of_operator ho) (fun d hd => ?_) d
    (by simp at hd; omega)
  obtain ⟨d, rfl, hd⟩ := exists_succ_of_le hd
  have hx := hr.call_of_ends (d := d) hends (by omega)
  exact (products.tail_of_operator ho hv hx).trans (ht d (by omega))

theorem term_accepts (he : Accepts last .product used e) : Accepts last .sum used e := by
  intro k ahead v rest hends hm ht d hd
  obtain ⟨d, rfl, hd⟩ := exists_succ_of_le hd
  rw [sum, bind_of_value (he.product_of_ends hends hm (by omega)), ht d (by omega)]

theorem not_multiplicative_of_additive {a : String} (h : a ∈ additiveOperators) :
    a ∉ multiplicativeOperators := by
  simp only [additiveOperators, List.mem_cons, List.not_mem_nil, or_false] at h
  rcases h with rfl | rfl <;> decide

theorem sum_accepts (hl : Accepts last .sum xs l) (ho : o.kind = .operator)
    (hv : o.value ∈ additiveOperators) (hr : Accepts last .product ys r) :
    Accepts last .sum (xs ++ o :: ys) (.binary l r o.value) := by
  intro k ahead v rest hends hm ht d hd
  rw [List.append_assoc]
  refine hl (k := ys.length + k + 1) (by exact EndsCall.of_operator ho)
    (by exact fun _ => not_multiplicative_of_additive hv) (fun d hd => ?_) d
    (by simp at hd; omega)
  obtain ⟨d, rfl, hd⟩ := exists_succ_of_le hd
  have hx := hr.product_of_ends (d := d) hends hm (by omega)
  exact (sums.tail_of_operator ho hv hx).trans (ht d (by omega))

end

end LocksetLang.Grammar
