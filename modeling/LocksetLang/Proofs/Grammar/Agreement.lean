import LocksetLang.Proofs.Grammar.LeftRung

/-! More depth and other places change nothing. A production that does not run out of its depth does
the same at any greater one, on tokens that stand elsewhere too, down to its faults, but for the
places in them. Whether it returns or fails, it leaves an end of the tokens that were ahead. All this
is kept by each combinator, and so by the productions, depth by depth. -/

namespace LocksetLang

abbrev Token.moved (φ : Place → Place) (t : Token) : Token := { t with place := φ t.place }

theorem map_moved_id (ts : List Token) : ts.map (Token.moved id) = ts := List.map_id ts

def ParseFault.moved (φ : Place → Place) : ParseFault → ParseFault
  | unexpected demand token => unexpected demand (token.moved φ)
  | constantWithoutValue name => constantWithoutValue (name.moved φ)
  | parameterNotName start => parameterNotName (start.moved φ)
  | numberTooLarge number => numberTooLarge (number.moved φ)
  | numberMisspelt number => numberMisspelt (number.moved φ)
  | noEnd => noEnd
  | noToken => noToken
  | noIndex => noIndex
  | endless => endless

/-- The reply at other places; those in its value are changed by `g`. -/
def Reply.moved {α : Type} (φ : Place → Place) (g : α → α) : Reply α → Reply α
  | value a ahead => value (g a) (ahead.map (Token.moved φ))
  | fault f ahead => fault (f.moved φ) (ahead.map (Token.moved φ))
  | unfinished => unfinished

theorem Reply.moved_id {α : Type} (r : Reply α) : r.moved id id = r := by
  cases r with
  | value a ahead => rw [Reply.moved, map_moved_id]; rfl
  | fault f ahead =>
    rw [Reply.moved, map_moved_id]
    cases f <;> rfl
  | unfinished => rfl

/-- The reply leaves an end of the tokens that were ahead, and its fault is that of a token. -/
inductive Reply.Leaves {α : Type} (ahead : List Token) : Reply α → Prop where
  | value {a : α} {rest : List Token} (h : rest <:+ ahead) : Leaves ahead (.value a rest)
  | fault {f : ParseFault} {rest : List Token} (h : rest <:+ ahead) (hf : f ≠ .endless) :
    Leaves ahead (.fault f rest)

theorem Reply.Leaves.of_suffix {α : Type} {r : Reply α} {mid ahead : List Token} (h : r.Leaves mid)
    (hm : mid <:+ ahead) : r.Leaves ahead := by
  cases h with
  | value h => exact .value (h.trans hm)
  | fault h hf => exact .fault (h.trans hm) hf

namespace Parser

variable {α β : Type} {φ : Place → Place} {g : α → α} {k : β → β} {p q : Parser α}

/-- Where `p` finishes, `q` does the same on the tokens at their other places, and an end of the
tokens ahead is left. -/
def Agrees (φ : Place → Place) (g : α → α) (p q : Parser α) : Prop :=
  ∀ last ahead, p last ahead ≠ .unfinished →
    q (last.moved φ) (ahead.map (Token.moved φ)) = (p last ahead).moved φ g ∧
      (p last ahead).Leaves ahead

/-- Agreement where no token is moved. -/
theorem Agrees.same {last : Token} {ahead : List Token} (h : Agrees id id p q)
    (hp : p last ahead ≠ .unfinished) :
    q last ahead = p last ahead ∧ (p last ahead).Leaves ahead := by
  have := h last ahead hp
  rwa [map_moved_id, Reply.moved_id] at this

theorem Agrees.unfinished : Agrees φ g unfinished q := fun _ _ h => absurd rfl h

theorem Agrees.return {a b : α} (h : b = g a) : Agrees φ g (pure a) (pure b) := by
  intro last ahead _
  rw [h]
  exact ⟨rfl, .value (List.suffix_refl ahead)⟩

theorem Agrees.fail {e e' : ParseFault} (h : e' = e.moved φ) (he : e ≠ .endless) :
    Agrees φ g (fail e) (fail e') := by
  intro last ahead _
  rw [h]
  exact ⟨rfl, .fault (List.suffix_refl ahead) he⟩

theorem Agrees.bind {f h : α → Parser β} (hp : Agrees φ g p q)
    (hf : ∀ a, Agrees φ k (f a) (h (g a))) : Agrees φ k (p >>= f) (q >>= h) := by
  intro last ahead hne
  cases hr : p last ahead with
  | value a rest =>
    obtain ⟨hq, hleft⟩ := hp last ahead (by rw [hr]; nofun)
    rw [hr] at hq hleft
    cases hleft with
    | value hrest =>
      rw [bind_of_value hr] at hne ⊢
      rw [bind_of_value hq]
      obtain ⟨hg, hmore⟩ := hf a last rest hne
      exact ⟨hg, hmore.of_suffix hrest⟩
  | fault e rest =>
    obtain ⟨hq, hleft⟩ := hp last ahead (by rw [hr]; nofun)
    rw [hr] at hq hleft
    rw [bind_of_fault hr, bind_of_fault hq]
    cases hleft with
    | fault hrest he => exact ⟨rfl, .fault hrest he⟩
  | unfinished =>
    refine absurd ?_ hne
    change Parser.bind p f last ahead = _
    unfold Parser.bind
    rw [hr]

theorem Agrees.peek : Agrees φ (Token.moved φ) peek peek := by
  intro last ahead _
  refine ⟨?_, .value (List.suffix_refl ahead)⟩
  cases ahead <;> rfl

theorem Agrees.advance : Agrees φ (Token.moved φ) advance advance := by
  intro last ahead _
  refine ⟨?_, .value (List.tail_suffix ahead)⟩
  cases ahead <;> rfl

theorem Agrees.ite {c : Prop} [Decidable c] {p' q' : Parser α} (h : Agrees φ g p q)
    (h' : Agrees φ g p' q') : Agrees φ g (if c then p else p') (if c then q else q') := by
  split_ifs
  · exact h
  · exact h'

theorem Agrees.expect (d : Demand) : Agrees φ (Token.moved φ) (expect d) (expect d) := by
  refine .bind .advance fun t => ?_
  change Agrees φ _ _ (if t.kind = d.kind then _ else _)
  exact .ite (.return rfl) (.fail rfl (by simp))

theorem Agrees.atOperator (operators : List String) :
    Agrees φ id (atOperator operators) (atOperator operators) :=
  .bind .peek fun _ => .return rfl

theorem Agrees.atListEnd : Agrees φ id atListEnd atListEnd := .bind .peek fun _ => .return rfl

end Parser

namespace Grammar

open LocksetLang.Parser

def movedArguments (φ : Place → Place) (args : List (Token × Node)) : List (Token × Node) :=
  args.map fun arg => (arg.1.moved φ, arg.2)

variable {φ : Place → Place} {d e : Nat}

/-- All productions for expressions do at the depth `e` what they do at the depth `d`. -/
structure ExpressionsAgree (φ : Place → Place) (d e : Nat) : Prop where
  primary : Agrees φ id (primary d) (primary e)
  memberTail u : Agrees φ id (memberTail d u) (memberTail e u)
  member : Agrees φ id (member d) (member e)
  argumentList : Agrees φ (movedArguments φ) (argumentList d) (argumentList e)
  locatedArguments : Agrees φ (movedArguments φ) (locatedArguments d) (locatedArguments e)
  call u : Agrees φ id (call d u) (call e u)
  callOrMember : Agrees φ id (callOrMember d) (callOrMember e)
  productTail u : Agrees φ id (productTail d u) (productTail e u)
  product : Agrees φ id (product d) (product e)
  sumTail u : Agrees φ id (sumTail d u) (sumTail e u)
  sum : Agrees φ id (sum d) (sum e)
  properties : Agrees φ id (properties d) (properties e)
  object : Agrees φ id (object d) (object e)
  expression : Agrees φ id (expression d) (expression e)

theorem numberOf_agrees (t : Token) : Agrees φ id (numberOf t) (numberOf (t.moved φ)) := by
  unfold numberOf
  cases Binary64.ofText? t.value with
  | none => exact .fail rfl (by simp)
  | some x => exact .ite (.return rfl) (.fail rfl (by simp))

theorem primary_agrees (ih : ExpressionsAgree φ d e) :
    Agrees φ id (primary (d + 1)) (primary (e + 1)) := by
  rw [primary, primary]
  refine .bind .peek fun t => ?_
  dsimp only
  cases t.kind with
  | identifier | string => exact .bind .advance fun _ => .return rfl
  | number => exact .bind .advance numberOf_agrees
  | leftParen =>
    have hend (inner : Node) : Agrees φ id (expect .groupEnd >>= fun _ => pure inner)
      (expect .groupEnd >>= fun _ => pure inner) := .bind (.expect _) fun _ => .return rfl
    refine .bind .advance fun _ => .bind ih.expression fun left => .bind .peek fun s => ?_
    refine .ite ?_ (.bind (.return rfl) hend)
    exact .bind .advance fun _ => .bind ih.expression fun _ => .bind (.return rfl) hend
  | _ => exact .fail rfl (by simp)

theorem memberTail_agrees (ih : ExpressionsAgree φ d e) (u : Node) :
    Agrees φ id (memberTail (d + 1) u) (memberTail (e + 1) u) := by
  rw [memberTail, memberTail]
  refine .bind .peek fun _ => .ite ?_ (.ite ?_ (.return rfl))
  · exact .bind .advance fun _ => .bind (.expect _) fun _ => ih.memberTail _
  · exact .bind .advance fun _ => .bind ih.expression fun _ => .bind (.expect _) fun _ =>
      ih.memberTail _

theorem argumentList_agrees (ih : ExpressionsAgree φ d e) :
    Agrees φ (movedArguments φ) (argumentList (d + 1)) (argumentList (e + 1)) := by
  rw [argumentList, argumentList]
  refine .bind .peek fun _ => .bind ih.expression fun _ => .bind .peek fun _ => ?_
  refine .ite ?_ (.return rfl)
  exact .bind .advance fun _ => .bind ih.argumentList fun _ => .return rfl

theorem locatedArguments_agrees (ih : ExpressionsAgree φ d e) :
    Agrees φ (movedArguments φ) (locatedArguments (d + 1)) (locatedArguments (e + 1)) := by
  rw [locatedArguments, locatedArguments]
  refine .bind (.expect _) fun _ => .bind .peek fun _ => .ite ?_ ?_
  · exact .bind (.return rfl) fun _ => .bind (.expect _) fun _ => .return rfl
  · exact .bind ih.argumentList fun _ => .bind (.expect _) fun _ => .return rfl

theorem call_agrees (ih : ExpressionsAgree φ d e) (u : Node) :
    Agrees φ id (call (d + 1) u) (call (e + 1) u) := by
  rw [call, call]
  refine .bind ih.locatedArguments fun args => ?_
  have hargs : (movedArguments φ args).map (·.2) = args.map (·.2) := by
    rw [movedArguments, List.map_map]
    rfl
  rw [hargs]
  exact .bind (ih.memberTail _) fun _ => .bind .peek fun _ => .ite (ih.call _) (.return rfl)

theorem callOrMember_agrees (ih : ExpressionsAgree φ d e) :
    Agrees φ id (callOrMember (d + 1)) (callOrMember (e + 1)) := by
  rw [callOrMember, callOrMember]
  exact .bind ih.member fun _ => .bind .peek fun _ => .ite (ih.call _) (.return rfl)

theorem LeftRung.tail_agrees (R : LeftRung) (ihOperand : Agrees φ id (R.operand d) (R.operand e))
    (ihTail : ∀ u, Agrees φ id (R.tail d u) (R.tail e u)) (u : Node) :
    Agrees φ id (R.tail (d + 1) u) (R.tail (e + 1) u) := by
  rw [R.tail_succ, R.tail_succ]
  refine .bind (.atOperator _) fun _ => .ite ?_ (.return rfl)
  exact .bind .advance fun _ => .bind ihOperand fun _ => ihTail _

theorem LeftRung.whole_agrees (R : LeftRung) (ihOperand : Agrees φ id (R.operand d) (R.operand e))
    (ihTail : ∀ u, Agrees φ id (R.tail d u) (R.tail e u)) :
    Agrees φ id (R.whole (d + 1)) (R.whole (e + 1)) := by
  rw [R.whole_succ, R.whole_succ]
  exact .bind ihOperand ihTail

theorem properties_agrees (ih : ExpressionsAgree φ d e) :
    Agrees φ id (properties (d + 1)) (properties (e + 1)) := by
  rw [properties, properties]
  refine .bind .atListEnd fun _ => .ite (.return rfl) <| .bind (.expect _) fun _ =>
    .bind .peek fun _ => .ite ?_ <| .ite (.return rfl) ?_
  · exact .bind .advance fun _ => .bind ih.properties fun _ => .return rfl
  · refine .bind (.expect _) fun _ => .bind ih.expression fun _ => .bind .peek fun _ => ?_
    refine .ite (.return rfl) ?_
    exact .bind (.expect _) fun _ => .bind ih.properties fun _ => .return rfl

theorem object_agrees (ih : ExpressionsAgree φ d e) :
    Agrees φ id (object (d + 1)) (object (e + 1)) := by
  rw [object, object]
  refine .bind .peek fun _ => .ite ?_ ih.sum
  exact .bind .advance fun _ => .bind ih.properties fun _ => .bind (.expect _) fun _ => .return rfl

theorem expression_agrees (ih : ExpressionsAgree φ d e) :
    Agrees φ id (expression (d + 1)) (expression (e + 1)) := by
  rw [expression, expression]
  refine .bind ih.object fun _ => .bind .peek fun _ => .ite ?_ (.return rfl)
  exact .bind .advance fun _ => .bind ih.expression fun _ => .return rfl

theorem expressionsAgree : ∀ {d e}, d ≤ e → ExpressionsAgree φ d e := by
  intro d
  induction d with
  | zero =>
    intro e _
    constructor <;> intros <;>
      simp only [primary, memberTail, member, argumentList, locatedArguments, call, callOrMember,
        productTail, product, sumTail, sum, properties, object, expression] <;>
      exact .unfinished
  | succ d ih =>
    intro e h
    obtain ⟨e, rfl⟩ := Nat.exists_eq_add_of_le' (Nat.le_of_add_left_le h)
    have ih := ih (Nat.le_of_add_le_add_right h)
    exact {
      primary := primary_agrees ih
      memberTail := memberTail_agrees ih
      member := by rw [member, member]; exact .bind ih.primary ih.memberTail
      argumentList := argumentList_agrees ih
      locatedArguments := locatedArguments_agrees ih
      call := call_agrees ih
      callOrMember := callOrMember_agrees ih
      productTail := products.tail_agrees ih.callOrMember ih.productTail
      product := products.whole_agrees ih.callOrMember ih.productTail
      sumTail := sums.tail_agrees ih.product ih.sumTail
      sum := sums.whole_agrees ih.product ih.sumTail
      properties := properties_agrees ih
      object := object_agrees ih
      expression := expression_agrees ih }

structure StatementsAgree (φ : Place → Place) (d e : Nat) : Prop where
  statements : Agrees φ id (statements d) (statements e)
  block name : Agrees φ id (block d name) (block e name)
  function : Agrees φ id (function d) (function e)
  alternate : Agrees φ id (alternate d) (alternate e)
  conditional : Agrees φ id (conditional d) (conditional e)
  statement : Agrees φ id (statement d) (statement e)

theorem declaration_agrees (h : d ≤ e) : Agrees φ id (declaration d) (declaration e) := by
  unfold declaration
  refine .bind .advance fun _ => .bind (.expect _) fun _ => .bind .peek fun _ => .ite ?_ ?_
  · exact .bind .advance fun _ => .ite (.fail rfl (by simp)) (.return rfl)
  · exact .bind (.expect _) fun _ => .bind (expressionsAgree h).expression fun _ =>
      .bind (.expect _) fun _ => .return rfl

theorem parameterNames_agrees (args : List (Token × Node)) :
    Agrees φ id (parameterNames args) (parameterNames (movedArguments φ args)) := by
  induction args with
  | nil => exact .return rfl
  | cons arg args ih =>
    obtain ⟨start, e⟩ := arg
    cases e with
    | identifier name => exact .bind ih fun _ => .return rfl
    | _ => exact .fail rfl (by simp)

theorem function_agrees (h : d ≤ e) (ih : StatementsAgree φ d e) :
    Agrees φ id (function (d + 1)) (function (e + 1)) := by
  rw [function, function]
  refine .bind .advance fun _ => .bind (.expect _) fun _ =>
    .bind (expressionsAgree h).locatedArguments fun args => ?_
  exact .bind (parameterNames_agrees args) fun _ => .bind (ih.block _) fun _ => .return rfl

theorem alternate_agrees (ih : StatementsAgree φ d e) :
    Agrees φ id (alternate (d + 1)) (alternate (e + 1)) := by
  rw [alternate, alternate]
  refine .bind .peek fun _ => .ite ?_ (.return rfl)
  refine .bind .advance fun _ => .bind .peek fun _ => .ite ?_ ?_
  · exact .bind ih.conditional fun _ => .return rfl
  · exact .bind (ih.block _) fun _ => .return rfl

theorem conditional_agrees (h : d ≤ e) (ih : StatementsAgree φ d e) :
    Agrees φ id (conditional (d + 1)) (conditional (e + 1)) := by
  rw [conditional, conditional]
  exact .bind (.expect _) fun _ => .bind (expressionsAgree h).expression fun _ =>
    .bind (ih.block _) fun _ => .bind ih.alternate fun _ => .return rfl

theorem statement_agrees (h : d ≤ e) (ih : StatementsAgree φ d e) :
    Agrees φ id (statement (d + 1)) (statement (e + 1)) := by
  rw [statement, statement]
  refine .bind .peek fun t => ?_
  cases t.kind with
  | setWord | lockWord => exact declaration_agrees h
  | funWord => exact ih.function
  | ifWord => exact ih.conditional
  | _ => exact (expressionsAgree h).expression

theorem statementsAgree : ∀ {d e}, d ≤ e → StatementsAgree φ d e := by
  intro d
  induction d with
  | zero =>
    intro e _
    constructor <;> intros <;>
      simp only [statements, block, function, alternate, conditional, statement] <;>
      exact .unfinished
  | succ d ih =>
    intro e h
    obtain ⟨e, rfl⟩ := Nat.exists_eq_add_of_le' (Nat.le_of_add_left_le h)
    have hd := Nat.le_of_add_le_add_right h
    have ih := ih hd
    exact {
      statements := by
        rw [statements, statements]
        exact .bind .atListEnd fun _ => .ite (.return rfl) <|
          .bind ih.statement fun _ => .bind ih.statements fun _ => .return rfl
      block := fun name => by
        rw [block, block]
        exact .bind (.expect _) fun _ => .bind ih.statements fun _ => .bind (.expect _) fun _ =>
          .return rfl
      function := function_agrees hd ih
      alternate := alternate_agrees ih
      conditional := conditional_agrees hd ih
      statement := statement_agrees hd ih }

theorem program_agrees : ∀ {d e}, d ≤ e → Agrees φ id (program d) (program e) := by
  intro d
  induction d with
  | zero => exact fun _ => .unfinished
  | succ d ih =>
    intro e h
    obtain ⟨e, rfl⟩ := Nat.exists_eq_add_of_le' (Nat.le_of_add_left_le h)
    have hd := Nat.le_of_add_le_add_right h
    rw [program, program]
    exact .bind .peek fun _ => .ite (.return rfl) <|
      .bind (statementsAgree hd).statement fun _ => .bind (ih hd) fun _ => .return rfl

end Grammar
end LocksetLang
