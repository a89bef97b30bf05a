import LocksetLang.Proofs.Grammar.StatementSoundness

/-! Every production comes to an end if its depth is enough for the tokens ahead. Only a token that
is used up lets the productions start over from the top of the ladder, so the tokens are counted
sixteenfold and the rungs are counted on. -/

namespace LocksetLang

namespace Parser

variable {α β : Type} {last : Token} {ahead : List Token}

def Finishes (p : Parser α) (last : Token) (ahead : List Token) : Prop := p last ahead ≠ .unfinished

theorem Finishes.return {a : α} : Finishes (pure a) last ahead := nofun

theorem Finishes.fail {e : ParseFault} : Finishes (fail e : Parser α) last ahead := nofun

theorem Finishes.bind {p : Parser α} {f : α → Parser β} (hp : Finishes p last ahead)
    (hf : ∀ {a rest}, p last ahead = .value a rest → Finishes (f a) last rest) :
    Finishes (p >>= f) last ahead := by
  unfold Finishes
  cases h : p last ahead with
  | value a rest =>
    rw [bind_of_value h]
    exact hf h
  | fault e left =>
    rw [bind_of_fault h]
    nofun
  | unfinished => exact absurd h hp

theorem Finishes.peek_bind {f : Token → Parser β} (h : Finishes (f (ahead.headD last)) last ahead) :
    Finishes (peek >>= f) last ahead := h

theorem Finishes.advance_bind {f : Token → Parser β} {t : Token} {rest : List Token}
    (h : Finishes (f t) last rest) : Finishes (advance >>= f) last (t :: rest) := h

theorem Finishes.advance_bind_of_le {f : Token → Parser β}
    (h : ∀ {t rest}, rest.length ≤ ahead.length → Finishes (f t) last rest) :
    Finishes (advance >>= f) last ahead := by
  cases ahead with
  | nil => exact @h last [] le_rfl
  | cons t rest => exact h (Nat.le_succ _)

theorem Finishes.expect_bind {d : Demand} {f : Token → Parser β} (hl : last.kind = .endOfInput)
    (hd : d.kind ≠ .endOfInput)
    (h : ∀ {t rest}, rest.length < ahead.length → Finishes (f t) last rest) :
    Finishes (expect d >>= f) last ahead := by
  unfold Finishes
  rw [Parser.expect_bind]
  split_ifs with hk
  · obtain ⟨t, rest, rfl, -⟩ := eq_cons_of_headD hl hk hd
    exact h (Nat.lt_succ_self _)
  · nofun

theorem Finishes.atOperator_bind {operators : List String} {f : Bool → Parser β}
    (h : Finishes (f ((ahead.headD last).kind = .operator &&
      operators.contains (ahead.headD last).value)) last ahead) :
    Finishes (atOperator operators >>= f) last ahead := h

theorem Finishes.atListEnd_bind {f : Bool → Parser β}
    (h : Finishes (f ((ahead.headD last).kind = .endOfInput ||
      (ahead.headD last).kind = .rightBrace)) last ahead) :
    Finishes (atListEnd >>= f) last ahead := h

theorem Finishes.ite {c : Prop} [Decidable c] {p q : Parser α} (h : c → Finishes p last ahead)
    (h' : ¬ c → Finishes q last ahead) : Finishes (if c then p else q) last ahead := by
  split_ifs with hc
  · exact h hc
  · exact h' hc

end Parser

namespace Grammar

open LocksetLang.Parser

theorem Reads.length_le {p : Phrase} {ahead rest : List Token} {v : p.Tree}
    (h : Reads p ahead rest v) : rest.length ≤ ahead.length := by
  obtain ⟨used, rfl, -⟩ := h
  simp

theorem Reads.length_lt {p : Phrase} {ahead rest : List Token} {v : p.Tree}
    (h : Reads p ahead rest v) (hp : p.isSolid) : rest.length < ahead.length := by
  obtain ⟨used, rfl, hd⟩ := h
  have hne := hd.ne_nil hp
  have : 0 < used.length := List.length_pos_iff.2 fun he => hne (by rw [he]; rfl)
  simp
  omega

theorem ReadsStatement.length_lt {last : Token} {ahead rest : List Token} {v : Node}
    (h : ReadsStatement last ahead rest v) : rest.length < ahead.length := by
  obtain ⟨used, he, hd, -⟩ := h
  exact Reads.length_lt (p := .statement) ⟨used, he, hd⟩ rfl

structure ExpressionsFinish (last : Token) (d : Nat) : Prop where
  primary {ahead} : 16 * ahead.length + 1 ≤ d → Finishes (primary d) last ahead
  memberTail {u ahead} : 16 * ahead.length + 1 ≤ d → Finishes (memberTail d u) last ahead
  member {ahead} : 16 * ahead.length + 2 ≤ d → Finishes (member d) last ahead
  argumentList {ahead} : 16 * ahead.length + 8 ≤ d → Finishes (argumentList d) last ahead
  locatedArguments {ahead} : 16 * ahead.length + 1 ≤ d → Finishes (locatedArguments d) last ahead
  call {u ahead} : 16 * ahead.length + 2 ≤ d → Finishes (call d u) last ahead
  callOrMember {ahead} : 16 * ahead.length + 3 ≤ d → Finishes (callOrMember d) last ahead
  productTail {u ahead} : 16 * ahead.length + 1 ≤ d → Finishes (productTail d u) last ahead
  product {ahead} : 16 * ahead.length + 4 ≤ d → Finishes (product d) last ahead
  sumTail {u ahead} : 16 * ahead.length + 1 ≤ d → Finishes (sumTail d u) last ahead
  sum {ahead} : 16 * ahead.length + 5 ≤ d → Finishes (sum d) last ahead
  properties {ahead} : 16 * ahead.length + 1 ≤ d → Finishes (properties d) last ahead
  object {ahead} : 16 * ahead.length + 6 ≤ d → Finishes (object d) last ahead
  expression {ahead} : 16 * ahead.length + 7 ≤ d → Finishes (expression d) last ahead

structure StatementsFinish (last : Token) (d : Nat) : Prop where
  statements {ahead} : 16 * ahead.length + 9 ≤ d → Finishes (statements d) last ahead
  block {name ahead} : 16 * ahead.length + 1 ≤ d → Finishes (block d name) last ahead
  function {ahead} : 16 * ahead.length + 1 ≤ d → Finishes (function d) last ahead
  alternate {ahead} : 16 * ahead.length + 1 ≤ d → Finishes (alternate d) last ahead
  conditional {ahead} : 16 * ahead.length + 1 ≤ d → Finishes (conditional d) last ahead
  statement {ahead} : 16 * ahead.length + 8 ≤ d → Finishes (statement d) last ahead

variable {last : Token} {d : Nat} {ahead : List Token} {u : Node}

theorem primary_finishes (hl : last.kind = .endOfInput) (ih : ExpressionsFinish last d)
    (hd : 16 * ahead.length + 1 ≤ d + 1) : Finishes (primary (d + 1)) last ahead := by
  rw [primary]
  refine .peek_bind ?_
  generalize hk : (ahead.headD last).kind = k
  cases k with
  | identifier | string => exact .advance_bind_of_le fun _ => .return
  | number =>
    refine .advance_bind_of_le fun {t rest} _ => ?_
    unfold numberOf
    cases Binary64.ofText? t.value with
    | none => exact .fail
    | some x => exact .ite (fun _ => .return) fun _ => .fail
  | leftParen =>
    obtain ⟨o, ts, rfl, ho⟩ := eq_cons_of_headD hl hk (by decide)
    rw [List.length_cons] at hd
    refine .advance_bind (.bind (ih.expression (by omega)) fun {left rest} hx => ?_)
    have hlt := ((sound hl d).expression hx).length_lt rfl
    have hend {inner : Node} {ahead} :
        Finishes (expect .groupEnd >>= fun _ => pure inner) last ahead :=
      .expect_bind hl (by decide) fun _ => .return
    refine .peek_bind (.ite (fun hc => ?_) fun _ => hend)
    obtain ⟨s, ss, rfl, -⟩ := eq_cons_of_comparison hl hc
    rw [List.length_cons] at hlt
    exact .advance_bind (.bind (ih.expression (by omega)) fun _ => hend)
  | _ => exact .fail

theorem memberTail_finishes (hl : last.kind = .endOfInput) (ih : ExpressionsFinish last d)
    (hd : 16 * ahead.length + 1 ≤ d + 1) : Finishes (memberTail (d + 1) u) last ahead := by
  rw [memberTail]
  refine .peek_bind (.ite (fun hk => ?_) fun _ => .ite (fun hk => ?_) fun _ => .return)
  · obtain ⟨t, ts, rfl, -⟩ := eq_cons_of_headD hl hk (by decide)
    rw [List.length_cons] at hd
    exact .advance_bind (.expect_bind hl (by decide) fun _ => ih.memberTail (by omega))
  · obtain ⟨o, ts, rfl, -⟩ := eq_cons_of_headD hl hk (by decide)
    rw [List.length_cons] at hd
    refine .advance_bind (.bind (ih.expression (by omega)) fun hx => ?_)
    have hlt := ((sound hl d).expression hx).length_lt rfl
    exact .expect_bind hl (by decide) fun _ => ih.memberTail (by omega)

theorem member_finishes (hl : last.kind = .endOfInput) (ih : ExpressionsFinish last d)
    (hd : 16 * ahead.length + 2 ≤ d + 1) : Finishes (member (d + 1)) last ahead := by
  rw [member]
  refine .bind (ih.primary (by omega)) fun hx => ih.memberTail ?_
  have hlt := ((sound hl d).primary hx).length_lt rfl
  omega

theorem argumentList_finishes (hl : last.kind = .endOfInput) (ih : ExpressionsFinish last d)
    (hd : 16 * ahead.length + 8 ≤ d + 1) : Finishes (argumentList (d + 1)) last ahead := by
  rw [argumentList]
  refine .peek_bind (.bind (ih.expression (by omega)) fun hx => ?_)
  have hlt := ((sound hl d).expression hx).length_lt rfl
  refine .peek_bind (.ite (fun hc => ?_) fun _ => .return)
  obtain ⟨c, cs, rfl, -⟩ := eq_cons_of_headD hl hc (by decide)
  rw [List.length_cons] at hlt
  exact .advance_bind (.bind (ih.argumentList (by omega)) fun _ => .return)

theorem locatedArguments_finishes (hl : last.kind = .endOfInput) (ih : ExpressionsFinish last d)
    (hd : 16 * ahead.length + 1 ≤ d + 1) : Finishes (locatedArguments (d + 1)) last ahead := by
  rw [locatedArguments]
  refine .expect_bind hl (by decide) fun hlt => .peek_bind (.ite (fun _ => ?_) fun _ => ?_)
  · exact .expect_bind hl (by decide) fun _ => .return
  · exact .bind (ih.argumentList (by omega)) fun _ => .expect_bind hl (by decide) fun _ => .return

theorem locatedArguments_length {as : List (Token × Node)} {rest : List Token}
    (hl : last.kind = .endOfInput) (h : locatedArguments d last ahead = .value as rest) :
    rest.length < ahead.length := by
  obtain ⟨o, used, c, rfl, -⟩ := (sound hl d).locatedArguments h
  simp
  omega

theorem memberTail_length (hl : last.kind = .endOfInput) : ∀ {d u ahead v rest},
    memberTail d u last ahead = .value v rest → rest.length ≤ ahead.length := by
  intro d
  induction d with
  | zero => intro u ahead v rest h; rw [memberTail] at h; exact absurd h unfinished_ne_value
  | succ d ih =>
    intro u ahead v rest h
    rw [memberTail, peek_bind] at h
    split_ifs at h with hk hk
    · obtain ⟨t, ts, rfl, -⟩ := eq_cons_of_headD hl hk (by decide)
      rw [advance_bind, List.tail_cons, expect_bind_eq_value .memberName hl (by decide)] at h
      obtain ⟨n, ns, rfl, -, h⟩ := h
      exact (ih h).trans (Nat.le_add_right _ 2)
    · obtain ⟨t, ts, rfl, -⟩ := eq_cons_of_headD hl hk (by decide)
      rw [advance_bind, List.tail_cons, bind_eq_value] at h
      obtain ⟨i, mid, hx, h⟩ := h
      have hle := ((sound hl d).expression hx).length_le
      rw [expect_bind_eq_value .indexEnd hl (by decide)] at h
      obtain ⟨c, cs, rfl, -, h⟩ := h
      have hle' := ih h
      rw [List.length_cons] at hle ⊢
      omega
    · obtain ⟨-, rfl⟩ := return_eq_value.1 h
      exact le_rfl

theorem call_finishes (hl : last.kind = .endOfInput) (ih : ExpressionsFinish last d)
    (hd : 16 * ahead.length + 2 ≤ d + 1) : Finishes (call (d + 1) u) last ahead := by
  rw [call]
  refine .bind (ih.locatedArguments (by omega)) fun ha => ?_
  have hlt := locatedArguments_length hl ha
  refine .bind (ih.memberTail (by omega)) fun hm => ?_
  have hle := memberTail_length hl hm
  exact .peek_bind (.ite (fun _ => ih.call (by omega)) fun _ => .return)

theorem callOrMember_finishes (hl : last.kind = .endOfInput) (ih : ExpressionsFinish last d)
    (hd : 16 * ahead.length + 3 ≤ d + 1) : Finishes (callOrMember (d + 1)) last ahead := by
  rw [callOrMember]
  refine .bind (ih.member (by omega)) fun hx => ?_
  have hlt := ((sound hl d).member hx).length_lt rfl
  exact .peek_bind (.ite (fun _ => ih.call (by omega)) fun _ => .return)

/-- An operand uses a token, which is depth enough for whatever goes on behind it. -/
theorem LeftRung.operand_bind_finishes (R : LeftRung) {f : Node → Node}
    (ihOperand : Finishes (R.operand d) last ahead)
    (shorter : ∀ {r mid}, R.operand d last ahead = .value r mid → mid.length < ahead.length)
    (ihTail : ∀ {u ts}, 16 * ts.length + 1 ≤ d → Finishes (R.tail d u) last ts)
    (hd : 16 * ahead.length ≤ d + 15) :
    Finishes (R.operand d >>= fun r => R.tail d (f r)) last ahead := by
  refine .bind ihOperand fun hx => ihTail ?_
  have hlt := shorter hx
  omega

theorem LeftRung.tail_finishes (R : LeftRung) (hl : last.kind = .endOfInput)
    (ihOperand : ∀ {ts}, 16 * ts.length + 4 ≤ d → Finishes (R.operand d) last ts)
    (shorter : ∀ {ts r mid}, R.operand d last ts = .value r mid → mid.length < ts.length)
    (ihTail : ∀ {u ts}, 16 * ts.length + 1 ≤ d → Finishes (R.tail d u) last ts)
    (hd : 16 * ahead.length + 1 ≤ d + 1) : Finishes (R.tail (d + 1) u) last ahead := by
  rw [R.tail_succ]
  refine .atOperator_bind (.ite (fun h => ?_) fun _ => .return)
  obtain ⟨o, os, rfl, -⟩ := eq_cons_of_operator hl h
  rw [List.length_cons] at hd
  exact .advance_bind (R.operand_bind_finishes (ihOperand (by omega)) shorter ihTail (by omega))

theorem LeftRung.whole_finishes (R : LeftRung) (ihOperand : Finishes (R.operand d) last ahead)
    (shorter : ∀ {r mid}, R.operand d last ahead = .value r mid → mid.length < ahead.length)
    (ihTail : ∀ {u ts}, 16 * ts.length + 1 ≤ d → Finishes (R.tail d u) last ts)
    (hd : 16 * ahead.length ≤ d + 15) : Finishes (R.whole (d + 1)) last ahead := by
  rw [R.whole_succ]
  exact R.operand_bind_finishes (f := id) ihOperand shorter ihTail hd

theorem properties_finishes (hl : last.kind = .endOfInput) (ih : ExpressionsFinish last d)
    (hd : 16 * ahead.length + 1 ≤ d + 1) : Finishes (properties (d + 1)) last ahead := by
  rw [properties]
  refine .atListEnd_bind (.ite (fun _ => .return) fun _ => .expect_bind hl (by decide) fun hk => ?_)
  refine .peek_bind (.ite (fun hc => ?_) fun _ => .ite (fun _ => .return) fun _ => ?_)
  · obtain ⟨c, cs, rfl, -⟩ := eq_cons_of_headD hl hc (by decide)
    rw [List.length_cons] at hk
    exact .advance_bind (.bind (ih.properties (by omega)) fun _ => .return)
  · refine .expect_bind hl (by decide) fun hs => .bind (ih.expression (by omega)) fun hx => ?_
    have hlt := ((sound hl d).expression hx).length_lt rfl
    exact .peek_bind (.ite (fun _ => .return) fun _ => .expect_bind hl (by decide) fun _ =>
      .bind (ih.properties (by omega)) fun _ => .return)

theorem object_finishes (hl : last.kind = .endOfInput) (ih : ExpressionsFinish last d)
    (hd : 16 * ahead.length + 6 ≤ d + 1) : Finishes (object (d + 1)) last ahead := by
  rw [object]
  refine .peek_bind (.ite (fun hb => ?_) fun _ => ih.sum (by omega))
  obtain ⟨o, os, rfl, -⟩ := eq_cons_of_headD hl hb (by decide)
  rw [List.length_cons] at hd
  exact .advance_bind (.bind (ih.properties (by omega)) fun _ =>
    .expect_bind hl (by decide) fun _ => .return)

theorem expression_finishes (hl : last.kind = .endOfInput) (ih : ExpressionsFinish last d)
    (hd : 16 * ahead.length + 7 ≤ d + 1) : Finishes (expression (d + 1)) last ahead := by
  rw [expression]
  refine .bind (ih.object (by omega)) fun hx => ?_
  have hlt := ((sound hl d).object hx).length_lt rfl
  refine .peek_bind (.ite (fun hq => ?_) fun _ => .return)
  obtain ⟨q, qs, rfl, -⟩ := eq_cons_of_headD hl hq (by decide)
  rw [List.length_cons] at hlt
  exact .advance_bind (.bind (ih.expression (by omega)) fun _ => .return)

theorem expressionsFinish (hl : last.kind = .endOfInput) : ∀ d, ExpressionsFinish last d := by
  intro d
  induction d with
  | zero => constructor <;> intros <;> omega
  | succ d ih =>
    exact {
      primary := primary_finishes hl ih
      memberTail := memberTail_finishes hl ih
      member := member_finishes hl ih
      argumentList := argumentList_finishes hl ih
      locatedArguments := locatedArguments_finishes hl ih
      call := call_finishes hl ih
      callOrMember := callOrMember_finishes hl ih
      productTail := products.tail_finishes hl (fun h => ih.callOrMember (by omega))
        (fun hx => ((sound hl d).callOrMember hx).length_lt rfl) ih.productTail
      product := fun h => products.whole_finishes (ih.callOrMember (by omega))
        (fun hx => ((sound hl d).callOrMember hx).length_lt rfl) ih.productTail (by omega)
      sumTail := sums.tail_finishes hl (fun h => ih.product h)
        (fun hx => ((sound hl d).product hx).length_lt rfl) ih.sumTail
      sum := fun h => sums.whole_finishes (ih.product (by omega))
        (fun hx => ((sound hl d).product hx).length_lt rfl) ih.sumTail (by omega)
      properties := properties_finishes hl ih
      object := object_finishes hl ih
      expression := expression_finishes hl ih }

theorem declaration_finishes (hl : last.kind = .endOfInput) (hd : 16 * ahead.length ≤ d) :
    Finishes (declaration d) last ahead := by
  unfold declaration
  refine .advance_bind_of_le fun hw => ?_
  refine .expect_bind hl (by decide) fun hn => .peek_bind (.ite (fun _ => ?_) fun _ => ?_)
  · exact .bind nofun fun _ => .ite (fun _ => .fail) fun _ => .return
  · exact .expect_bind hl (by decide) fun hq => .bind ((expressionsFinish hl d).expression (by omega))
      fun _ => .expect_bind hl (by decide) fun _ => .return

theorem statements_finishes (hl : last.kind = .endOfInput) (ih : StatementsFinish last d)
    (hd : 16 * ahead.length + 9 ≤ d + 1) : Finishes (statements (d + 1)) last ahead := by
  rw [statements]
  refine .atListEnd_bind (.ite (fun _ => .return) fun _ => ?_)
  refine .bind (ih.statement (by omega)) fun hs => .bind (ih.statements ?_) fun _ => .return
  have hlt := ((statementsSound hl d).statement hs).length_lt
  omega

theorem block_finishes (hl : last.kind = .endOfInput) (ih : StatementsFinish last d) (name : String)
    (hd : 16 * ahead.length + 1 ≤ d + 1) : Finishes (block (d + 1) name) last ahead := by
  rw [block]
  exact .expect_bind hl (by simp [Demand.kind]) fun _ => .bind (ih.statements (by omega)) fun _ =>
    .expect_bind hl (by simp [Demand.kind]) fun _ => .return

theorem function_finishes (hl : last.kind = .endOfInput) (ih : StatementsFinish last d)
    (hd : 16 * ahead.length + 1 ≤ d + 1) : Finishes (function (d + 1)) last ahead := by
  rw [function]
  refine .advance_bind_of_le fun hw => .expect_bind hl (by decide) fun hn => ?_
  refine .bind ((expressionsFinish hl d).locatedArguments (by omega)) fun {args rest} ha => ?_
  have hlt := locatedArguments_length hl ha
  refine .bind ?_ fun {names rest} hp => ?_
  · rcases parameterNames_cases args with ⟨names, -, h⟩ | ⟨start, h⟩
    · rw [h]
      exact .return
    · rw [h]
      exact .fail
  · obtain ⟨rfl, -⟩ := parameterNames_sound hp
    exact .bind (ih.block (by omega)) fun _ => .return

theorem alternate_finishes (hl : last.kind = .endOfInput) (ih : StatementsFinish last d)
    (hd : 16 * ahead.length + 1 ≤ d + 1) : Finishes (alternate (d + 1)) last ahead := by
  rw [alternate]
  refine .peek_bind (.ite (fun hw => ?_) fun _ => .return)
  obtain ⟨w, ws, rfl, -⟩ := eq_cons_of_headD hl hw (by decide)
  rw [List.length_cons] at hd
  refine .advance_bind (.peek_bind (.ite (fun _ => ?_) fun _ => ?_))
  · exact .bind (ih.conditional (by omega)) fun _ => .return
  · exact .bind (ih.block (by omega)) fun _ => .return

theorem conditional_finishes (hl : last.kind = .endOfInput) (ih : StatementsFinish last d)
    (hd : 16 * ahead.length + 1 ≤ d + 1) : Finishes (conditional (d + 1)) last ahead := by
  rw [conditional]
  refine .expect_bind hl (by decide) fun hw => ?_
  refine .bind ((expressionsFinish hl d).expression (by omega)) fun hx => ?_
  have hlt := ((sound hl d).expression hx).length_lt rfl
  refine .bind (ih.block (by omega)) fun hb => ?_
  have hlt' := ((statementsSound hl d).block hb).length_lt rfl
  exact .bind (ih.alternate (by omega)) fun _ => .return

theorem statement_finishes (hl : last.kind = .endOfInput) (ih : StatementsFinish last d)
    (hd : 16 * ahead.length + 8 ≤ d + 1) : Finishes (statement (d + 1)) last ahead := by
  rw [statement]
  refine .peek_bind ?_
  generalize (ahead.headD last).kind = k
  cases k with
  | setWord | lockWord => exact declaration_finishes hl (by omega)
  | funWord => exact ih.function (by omega)
  | ifWord => exact ih.conditional (by omega)
  | _ => exact (expressionsFinish hl d).expression (by omega)

theorem statementsFinish (hl : last.kind = .endOfInput) : ∀ d, StatementsFinish last d := by
  intro d
  induction d with
  | zero => constructor <;> intros <;> omega
  | succ d ih =>
    exact {
      statements := statements_finishes hl ih
      block := block_finishes hl ih _
      function := function_finishes hl ih
      alternate := alternate_finishes hl ih
      conditional := conditional_finishes hl ih
      statement := statement_finishes hl ih }

theorem program_finishes (hl : last.kind = .endOfInput) : ∀ {d ahead},
    16 * ahead.length + 9 ≤ d → Finishes (program d) last ahead := by
  intro d
  induction d with
  | zero => intros; omega
  | succ d ih =>
    intro ahead hd
    rw [program]
    refine .peek_bind (.ite (fun _ => .return) fun _ => ?_)
    refine .bind ((statementsFinish hl d).statement (by omega)) fun hs => ?_
    have hlt := ((statementsSound hl d).statement hs).length_lt
    exact .bind (ih (by omega)) fun _ => .return

/-- With all the depth that it is given, the reading of a program comes to an end. -/
theorem full_program_finishes (hl : last.kind = .endOfInput) :
    Finishes (full program) last ahead := by
  have hd : 16 * ahead.length + 9 ≤ depthFor ahead := by
    rw [depthFor]
    omega
  have h := program_finishes hl hd
  unfold Finishes full at *
  exact h

end Grammar
end LocksetLang
