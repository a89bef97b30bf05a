import LocksetLang.Proofs.Grammar.LeftRung

/-! Whatever a production takes off the tokens is a phrase of the grammar, with the tree that it
returns. The depth is the induction: at each depth one step per production, from all productions at
the depth below. -/

namespace LocksetLang.Grammar

open LocksetLang.Parser

/-- The tokens between `ahead` and `rest` are a phrase with the tree `v`. -/
def Reads (p : Phrase) (ahead rest : List Token) (v : p.Tree) : Prop :=
  ∃ used, ahead = used ++ rest ∧ Derives Parted p (used.map Token.lexeme) v

/-- Behind any phrase with the tree `u`, the tokens between `ahead` and `rest` go on with it, to one
with the tree `v`. -/
def Extends (p : Phrase) (u : p.Tree) (ahead rest : List Token) (v : p.Tree) : Prop :=
  ∀ xs, Derives Parted p xs u →
    ∃ used, ahead = used ++ rest ∧ Derives Parted p (xs ++ used.map Token.lexeme) v

def ReadsArguments (ahead rest : List Token) (as : List Node) : Prop :=
  ∃ o used c, ahead = o :: (used ++ c :: rest) ∧ o.kind = .leftParen ∧ c.kind = .rightParen ∧
    Derives Parted .arguments (used.map Token.lexeme) as

theorem Extends.refl {p : Phrase} {u : p.Tree} {ahead : List Token} : Extends p u ahead ahead u := by
  intro xs h
  exact ⟨[], rfl, by simpa using h⟩

theorem Reads.extend {p : Phrase} {u v : p.Tree} {ahead mid rest : List Token}
    (hu : Reads p ahead mid u) (hv : Extends p u mid rest v) : Reads p ahead rest v := by
  obtain ⟨used, rfl, hd⟩ := hu
  obtain ⟨more, rfl, hd'⟩ := hv _ hd
  exact ⟨used ++ more, by rw [List.append_assoc], by simpa using hd'⟩

structure Sound (last : Token) (d : Nat) : Prop where
  primary {ahead rest v} : primary d last ahead = .value v rest → Reads .primary ahead rest v
  memberTail {u ahead rest v} : memberTail d u last ahead = .value v rest →
    Extends .call u ahead rest v
  member {ahead rest v} : member d last ahead = .value v rest → Reads .call ahead rest v
  argumentList {ahead rest as} : argumentList d last ahead = .value as rest →
    Reads .argumentList ahead rest (as.map (·.2))
  locatedArguments {ahead rest as} : locatedArguments d last ahead = .value as rest →
    ReadsArguments ahead rest (as.map (·.2))
  call {u ahead rest v} : call d u last ahead = .value v rest → Extends .call u ahead rest v
  callOrMember {ahead rest v} : callOrMember d last ahead = .value v rest →
    Reads .call ahead rest v
  productTail {u ahead rest v} : productTail d u last ahead = .value v rest →
    Extends .product u ahead rest v
  product {ahead rest v} : product d last ahead = .value v rest → Reads .product ahead rest v
  sumTail {u ahead rest v} : sumTail d u last ahead = .value v rest → Extends .sum u ahead rest v
  sum {ahead rest v} : sum d last ahead = .value v rest → Reads .sum ahead rest v
  properties {ahead rest ps} : properties d last ahead = .value ps rest →
    Reads .entries ahead rest ps
  object {ahead rest v} : object d last ahead = .value v rest → Reads .object ahead rest v
  expression {ahead rest v} : expression d last ahead = .value v rest →
    Reads .expression ahead rest v

variable {last : Token} {d : Nat} {ahead rest : List Token}

theorem numberOf_sound {t : Token} {v : Node} (h : numberOf t last ahead = .value v rest) :
    ahead = rest ∧ ∃ x, Binary64.ofText? t.value = some x ∧ x.isFinite ∧ v = .number x := by
  unfold numberOf at h
  cases hx : Binary64.ofText? t.value with
  | none => rw [hx] at h; exact absurd h fail_ne_value
  | some x =>
    rw [hx] at h
    dsimp only at h
    split_ifs at h with hf
    · obtain ⟨rfl, rfl⟩ := return_eq_value.1 h
      exact ⟨rfl, x, rfl, hf, rfl⟩
    · exact absurd h fail_ne_value

theorem group_sound (hl : last.kind = .endOfInput) (ih : Sound last d) {o : Token} {v : Node}
    (ho : o.kind = .leftParen)
    (h : (do
      let left ← expression d
      let t ← peek
      let inner ←
        if t.kind = .doubleEquals || t.kind = .notEquals then do
          let _ ← advance
          pure (.equality left t.kind.name (← expression d))
        else pure left
      let _ ← expect .groupEnd
      return inner : Parser Node) last ahead = .value v rest) :
    Reads .primary (o :: ahead) rest v := by
  rw [bind_eq_value] at h
  obtain ⟨left, mid, hx, h⟩ := h
  obtain ⟨xs, rfl, dx⟩ := ih.expression hx
  rw [peek_bind] at h
  split_ifs at h with hc
  · obtain ⟨s, ss, rfl, hs⟩ := eq_cons_of_comparison hl hc
    rw [advance_bind, List.tail_cons, bind_eq_value] at h
    obtain ⟨right, mid, hy, h⟩ := h
    obtain ⟨ys, rfl, dy⟩ := ih.expression hy
    rw [return_bind, expect_bind_eq_value .groupEnd hl (by decide)] at h
    obtain ⟨c, cs, rfl, hc, h⟩ := h
    obtain ⟨rfl, rfl⟩ := return_eq_value.1 h
    have dc : Derives Parted .primary _ (.equality left s.kind.name right) :=
      .comparison (o := o.lexeme) (s := s.lexeme) (c := c.lexeme) ho dx hs dy hc
    exact ⟨o :: (xs ++ s :: (ys ++ [c])), by simp, by simpa using dc⟩
  · rw [return_bind, expect_bind_eq_value .groupEnd hl (by decide)] at h
    obtain ⟨c, cs, rfl, hc, h⟩ := h
    obtain ⟨rfl, rfl⟩ := return_eq_value.1 h
    exact ⟨o :: (xs ++ [c]), by simp, by simpa using Derives.group ho dx hc⟩

theorem primary_sound (hl : last.kind = .endOfInput) (ih : Sound last d) {v : Node}
    (h : primary (d + 1) last ahead = .value v rest) : Reads .primary ahead rest v := by
  rw [primary, peek_bind] at h
  generalize hk : (ahead.headD last).kind = k at h
  cases k with
  | identifier =>
    obtain ⟨t, ts, rfl, ht⟩ := eq_cons_of_headD hl hk (by decide)
    dsimp only at h
    rw [advance_bind, return_eq_value] at h
    obtain ⟨rfl, rfl⟩ := h
    exact ⟨[t], rfl, .identifier ht⟩
  | number =>
    obtain ⟨t, ts, rfl, ht⟩ := eq_cons_of_headD hl hk (by decide)
    obtain ⟨rfl, x, hx, hf, rfl⟩ := numberOf_sound h
    exact ⟨[t], rfl, .number ht hx hf⟩
  | string =>
    obtain ⟨t, ts, rfl, ht⟩ := eq_cons_of_headD hl hk (by decide)
    dsimp only at h
    rw [advance_bind, return_eq_value] at h
    obtain ⟨rfl, rfl⟩ := h
    exact ⟨[t], rfl, .string ht⟩
  | leftParen =>
    obtain ⟨o, ts, rfl, ho⟩ := eq_cons_of_headD hl hk (by decide)
    dsimp only at h
    rw [advance_bind, List.tail_cons] at h
    exact group_sound hl ih ho h
  | _ => exact absurd h fail_ne_value

theorem memberTail_sound (hl : last.kind = .endOfInput) (ih : Sound last d) {u v : Node}
    (h : memberTail (d + 1) u last ahead = .value v rest) : Extends .call u ahead rest v := by
  rw [memberTail, peek_bind] at h
  split_ifs at h with hd hb
  · obtain ⟨t, ts, rfl, ht⟩ := eq_cons_of_headD hl hd (by decide)
    rw [advance_bind, List.tail_cons, expect_bind_eq_value .memberName hl (by decide)] at h
    obtain ⟨n, ns, rfl, hn, h⟩ := h
    intro xs hxs
    obtain ⟨ys, rfl, dy⟩ := ih.memberTail h _ (.memberName (d := t.lexeme) (n := n.lexeme) hxs ht hn)
    exact ⟨t :: n :: ys, rfl, by simpa using dy⟩
  · obtain ⟨o, ts, rfl, ho⟩ := eq_cons_of_headD hl hb (by decide)
    rw [advance_bind, List.tail_cons, bind_eq_value] at h
    obtain ⟨i, mid, hi, h⟩ := h
    obtain ⟨is, rfl, di⟩ := ih.expression hi
    rw [expect_bind_eq_value .indexEnd hl (by decide)] at h
    obtain ⟨c, cs, rfl, hc, h⟩ := h
    intro xs hxs
    obtain ⟨ys, rfl, dy⟩ :=
      ih.memberTail h _ (.memberIndex (o := o.lexeme) (c := c.lexeme) hxs ho di hc)
    exact ⟨o :: (is ++ c :: ys), by simp, by simpa using dy⟩
  · obtain ⟨rfl, rfl⟩ := return_eq_value.1 h
    exact .refl

theorem member_sound (ih : Sound last d) {v : Node}
    (h : member (d + 1) last ahead = .value v rest) : Reads .call ahead rest v := by
  rw [member, bind_eq_value] at h
  obtain ⟨u, mid, hu, h⟩ := h
  obtain ⟨xs, rfl, dx⟩ := ih.primary hu
  exact Reads.extend ⟨xs, rfl, .primary dx⟩ (ih.memberTail h)

theorem argumentList_sound (hl : last.kind = .endOfInput) (ih : Sound last d)
    {as : List (Token × Node)} (h : argumentList (d + 1) last ahead = .value as rest) :
    Reads .argumentList ahead rest (as.map (·.2)) := by
  rw [argumentList, peek_bind, bind_eq_value] at h
  obtain ⟨e, mid, hx, h⟩ := h
  obtain ⟨xs, rfl, dx⟩ := ih.expression hx
  rw [peek_bind] at h
  split_ifs at h with hc
  · obtain ⟨c, cs, rfl, hc⟩ := eq_cons_of_headD hl hc (by decide)
    rw [advance_bind, List.tail_cons, bind_eq_value] at h
    obtain ⟨more, mid, hy, h⟩ := h
    obtain ⟨ys, rfl, dy⟩ := ih.argumentList hy
    obtain ⟨rfl, rfl⟩ := return_eq_value.1 h
    exact ⟨xs ++ c :: ys, by simp, by simpa using Derives.moreArguments dx hc dy⟩
  · obtain ⟨rfl, rfl⟩ := return_eq_value.1 h
    exact ⟨xs, rfl, .oneArgument dx⟩

theorem locatedArguments_sound (hl : last.kind = .endOfInput) (ih : Sound last d)
    {as : List (Token × Node)} (h : locatedArguments (d + 1) last ahead = .value as rest) :
    ReadsArguments ahead rest (as.map (·.2)) := by
  rw [locatedArguments, expect_bind_eq_value .argumentsStart hl (by decide)] at h
  obtain ⟨o, ts, rfl, ho, h⟩ := h
  rw [peek_bind] at h
  split_ifs at h with hp
  · rw [return_bind, expect_bind_eq_value .argumentsEnd hl (by decide)] at h
    obtain ⟨c, cs, rfl, hc, h⟩ := h
    obtain ⟨rfl, rfl⟩ := return_eq_value.1 h
    exact ⟨o, [], c, rfl, ho, hc, .noArguments⟩
  · rw [bind_eq_value] at h
    obtain ⟨bs, mid, hx, h⟩ := h
    obtain ⟨xs, rfl, dx⟩ := ih.argumentList hx
    rw [expect_bind_eq_value .argumentsEnd hl (by decide)] at h
    obtain ⟨c, cs, rfl, hc, h⟩ := h
    obtain ⟨rfl, rfl⟩ := return_eq_value.1 h
    exact ⟨o, xs, c, rfl, ho, hc, .arguments dx⟩

theorem call_sound (ih : Sound last d) {u v : Node}
    (h : call (d + 1) u last ahead = .value v rest) : Extends .call u ahead rest v := by
  rw [call, bind_eq_value] at h
  obtain ⟨as, mid, ha, h⟩ := h
  obtain ⟨o, ys, c, rfl, ho, hc, dy⟩ := ih.locatedArguments ha
  rw [bind_eq_value] at h
  obtain ⟨r, mid', hr, h⟩ := h
  intro xs hxs
  obtain ⟨zs, rfl, dz⟩ := ih.memberTail hr _ (.call (o := o.lexeme) (c := c.lexeme) hxs ho dy hc)
  rw [peek_bind] at h
  split_ifs at h with hp
  · obtain ⟨us, rfl, du⟩ := ih.call h _ dz
    exact ⟨o :: (ys ++ c :: (zs ++ us)), by simp, by simpa using du⟩
  · obtain ⟨rfl, rfl⟩ := return_eq_value.1 h
    exact ⟨o :: (ys ++ c :: zs), by simp, by simpa using dz⟩

theorem callOrMember_sound (ih : Sound last d) {v : Node}
    (h : callOrMember (d + 1) last ahead = .value v rest) : Reads .call ahead rest v := by
  rw [callOrMember, bind_eq_value] at h
  obtain ⟨u, mid, hu, h⟩ := h
  rw [peek_bind] at h
  split_ifs at h with hp
  · exact (ih.member hu).extend (ih.call h)
  · obtain ⟨rfl, rfl⟩ := return_eq_value.1 h
    exact ih.member hu

section
variable {R : LeftRung} {D E : List Lexeme → Node → Prop}

theorem LeftRung.Groups.tail_sound (hR : R.Groups D E) (hl : last.kind = .endOfInput)
    (ihOperand : ∀ {ahead rest v}, R.operand d last ahead = .value v rest →
      ∃ used, ahead = used ++ rest ∧ D (used.map Token.lexeme) v)
    (ihTail : ∀ {u ahead rest v}, R.tail d u last ahead = .value v rest → ∀ xs, E xs u →
      ∃ used, ahead = used ++ rest ∧ E (xs ++ used.map Token.lexeme) v)
    {u v : Node} (h : R.tail (d + 1) u last ahead = .value v rest) {xs : List Lexeme} (hxs : E xs u) :
    ∃ used, ahead = used ++ rest ∧ E (xs ++ used.map Token.lexeme) v := by
  rcases R.tail_eq_value hl h with ⟨rfl, rfl⟩ | ⟨o, ts, r, mid, rfl, ho, hv, hr, ht⟩
  · exact ⟨[], rfl, by simpa using hxs⟩
  · obtain ⟨ys, rfl, dy⟩ := ihOperand hr
    obtain ⟨zs, rfl, dz⟩ := ihTail ht _ (hR.binary (o := o.lexeme) hxs ho hv dy)
    exact ⟨o :: (ys ++ zs), by simp, by simpa using dz⟩

theorem LeftRung.Groups.whole_sound (hR : R.Groups D E)
    (ihOperand : ∀ {ahead rest v}, R.operand d last ahead = .value v rest →
      ∃ used, ahead = used ++ rest ∧ D (used.map Token.lexeme) v)
    (ihTail : ∀ {u ahead rest v}, R.tail d u last ahead = .value v rest → ∀ xs, E xs u →
      ∃ used, ahead = used ++ rest ∧ E (xs ++ used.map Token.lexeme) v)
    {v : Node} (h : R.whole (d + 1) last ahead = .value v rest) :
    ∃ used, ahead = used ++ rest ∧ E (used.map Token.lexeme) v := by
  rw [R.whole_succ, bind_eq_value] at h
  obtain ⟨u, mid, hu, h⟩ := h
  obtain ⟨xs, rfl, dx⟩ := ihOperand hu
  obtain ⟨ys, rfl, dy⟩ := ihTail h _ (hR.operand dx)
  exact ⟨xs ++ ys, by simp, by simpa using dy⟩

end

theorem properties_sound (hl : last.kind = .endOfInput) (ih : Sound last d) {ps : List Node}
    (h : properties (d + 1) last ahead = .value ps rest) : Reads .entries ahead rest ps := by
  rw [properties, atListEnd_bind] at h
  split_ifs at h with he
  · obtain ⟨rfl, rfl⟩ := return_eq_value.1 h
    exact ⟨[], rfl, .noEntries⟩
  rw [expect_bind_eq_value .objectKey hl (by decide)] at h
  obtain ⟨k, ks, rfl, hk, h⟩ := h
  rw [peek_bind] at h
  split_ifs at h with hm hb
  · obtain ⟨c, cs, rfl, hc⟩ := eq_cons_of_headD hl hm (by decide)
    rw [advance_bind, List.tail_cons, bind_eq_value] at h
    obtain ⟨qs, mid, hq, h⟩ := h
    obtain ⟨xs, rfl, dx⟩ := ih.properties hq
    obtain ⟨rfl, rfl⟩ := return_eq_value.1 h
    exact ⟨k :: c :: xs, rfl, .key (k := k.lexeme) (c := c.lexeme) hk hc dx⟩
  · obtain ⟨rfl, rfl⟩ := return_eq_value.1 h
    exact ⟨[k], rfl, .lastKey (k := k.lexeme) hk⟩
  · rw [expect_bind_eq_value .objectColon hl (by decide)] at h
    obtain ⟨s, ss, rfl, hs, h⟩ := h
    rw [bind_eq_value] at h
    obtain ⟨e, mid, hx, h⟩ := h
    obtain ⟨xs, rfl, dx⟩ := ih.expression hx
    rw [peek_bind] at h
    split_ifs at h with hd
    · obtain ⟨rfl, rfl⟩ := return_eq_value.1 h
      exact ⟨k :: s :: xs, rfl, .lastEntry (k := k.lexeme) (s := s.lexeme) hk hs dx⟩
    · rw [expect_bind_eq_value .objectComma hl (by decide)] at h
      obtain ⟨c, cs, rfl, hc, h⟩ := h
      rw [bind_eq_value] at h
      obtain ⟨qs, mid, hq, h⟩ := h
      obtain ⟨ys, rfl, dy⟩ := ih.properties hq
      obtain ⟨rfl, rfl⟩ := return_eq_value.1 h
      refine ⟨k :: s :: (xs ++ c :: ys), by simp, ?_⟩
      simpa using Derives.entry (k := k.lexeme) (s := s.lexeme) (c := c.lexeme) hk hs dx hc dy

theorem object_sound (hl : last.kind = .endOfInput) (ih : Sound last d) {v : Node}
    (h : object (d + 1) last ahead = .value v rest) : Reads .object ahead rest v := by
  rw [object, peek_bind] at h
  split_ifs at h with hb
  · obtain ⟨o, ts, rfl, ho⟩ := eq_cons_of_headD hl hb (by decide)
    rw [advance_bind, List.tail_cons, bind_eq_value] at h
    obtain ⟨ps, mid, hp, h⟩ := h
    obtain ⟨xs, rfl, dx⟩ := ih.properties hp
    rw [expect_bind_eq_value .objectEnd hl (by decide)] at h
    obtain ⟨c, cs, rfl, hc, h⟩ := h
    obtain ⟨rfl, rfl⟩ := return_eq_value.1 h
    refine ⟨o :: (xs ++ [c]), by simp, ?_⟩
    simpa using Derives.object (o := o.lexeme) (c := c.lexeme) ho dx hc
  · obtain ⟨xs, rfl, dx⟩ := ih.sum h
    exact ⟨xs, rfl, .operand dx⟩

theorem expression_sound (hl : last.kind = .endOfInput) (ih : Sound last d) {v : Node}
    (h : expression (d + 1) last ahead = .value v rest) : Reads .expression ahead rest v := by
  rw [expression, bind_eq_value] at h
  obtain ⟨u, mid, hu, h⟩ := h
  obtain ⟨xs, rfl, dx⟩ := ih.object hu
  rw [peek_bind] at h
  split_ifs at h with hq
  · obtain ⟨q, qs, rfl, hq⟩ := eq_cons_of_headD hl hq (by decide)
    rw [advance_bind, List.tail_cons, bind_eq_value] at h
    obtain ⟨e, mid, he, h⟩ := h
    obtain ⟨ys, rfl, dy⟩ := ih.expression he
    obtain ⟨rfl, rfl⟩ := return_eq_value.1 h
    exact ⟨xs ++ q :: ys, by simp, by simpa using Derives.assignment dx hq dy⟩
  · obtain ⟨rfl, rfl⟩ := return_eq_value.1 h
    exact ⟨xs, rfl, .target dx⟩

theorem sound (hl : last.kind = .endOfInput) : ∀ d, Sound last d := by
  intro d
  induction d with
  | zero =>
    constructor <;> intro <;> intros <;> rename_i h <;>
      simp [primary, memberTail, member, argumentList, locatedArguments, call, callOrMember,
        productTail, product, sumTail, sum, properties, object, expression,
        LocksetLang.Parser.unfinished] at h
  | succ d ih =>
    exact {
      primary := primary_sound hl ih
      memberTail := memberTail_sound hl ih
      member := member_sound ih
      argumentList := argumentList_sound hl ih
      locatedArguments := locatedArguments_sound hl ih
      call := call_sound ih
      callOrMember := callOrMember_sound ih
      productTail := fun h _ => LeftRung.groups_products.tail_sound hl ih.callOrMember ih.productTail h
      product := LeftRung.groups_products.whole_sound ih.callOrMember ih.productTail
      sumTail := fun h _ => LeftRung.groups_sums.tail_sound hl ih.product ih.sumTail h
      sum := LeftRung.groups_sums.whole_sound ih.product ih.sumTail
      properties := properties_sound hl ih
      object := object_sound hl ih
      expression := expression_sound hl ih }

end LocksetLang.Grammar
