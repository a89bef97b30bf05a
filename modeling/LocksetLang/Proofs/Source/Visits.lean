import LocksetLang.Proofs.Source.Formatting

/-! Where the writing of a tree stops. The nodes of a tree are visited in a fixed order, each in the
position of a statement, of an expression or of an entry of an object, and the first that does not do
in its position is the fault that is reported. Any node may stand anywhere. -/

namespace LocksetLang

inductive Position where
  | statement | expression | entry
  deriving DecidableEq

namespace Node

def hasExpressionKind : Node → Bool
  | .assignment .. | .object _ | .binary .. | .equality .. | .call .. | .member .. | .identifier _
  | .number _ | .string _ => true
  | _ => false

/-- Whether a node is of one of the kinds of statements, which the expressions are among. -/
def hasStatementKind : Node → Bool
  | .declaration .. | .function .. | .conditional .. => true
  | node => node.hasExpressionKind

/-- What stands against a node whatever it is written as. -/
def flaw? : Node → Option PrintFault
  | .number value => if value.isFinite then none else some (.notFinite value)
  | .equality _ operator _ =>
    if operator ∈ equalityOperators.map (·.1) then none else some (.unknownComparison operator)
  | .member _ name computed =>
    if computed || name.isIdentifier then none else some .memberWithoutName
  | _ => none

/-- What stands against a node in its position. Only a bare node is no statement at all. -/
def faultAs : Position → Node → Option PrintFault
  | .statement, .bare => some (.notStatement Node.bare.kind none)
  | .statement, node => node.flaw?
  | .expression, node =>
    if node.hasExpressionKind then node.flaw? else some (.notExpression node.kind)
  | .entry, .property .. => none
  | .entry, node => some (.lacksPart node.typeName (if node.isValued then "key" else "value"))

mutual

/-- The nodes of a tree with their positions, in the order in which they are visited: a member behind
its owner, any other node before all that it has. -/
def visits (position : Position) : Node → List (Position × Node)
  | .program body => (position, .program body) :: visitsAll .statement body
  | .declaration name constant value =>
    (position, .declaration name constant value) :: visitsOption value
  | .function name parameters body =>
    (position, .function name parameters body) :: visitsAll .statement body
  | .conditional condition consequent alternate =>
    (position, .conditional condition consequent alternate) ::
      (visits .expression condition ++ (visitsAll .statement consequent ++ visitsBranch alternate))
  | .assignment target value =>
    (position, .assignment target value) :: (visits .expression target ++ visits .expression value)
  | .property key value => (position, .property key value) :: visitsOption value
  | .object properties => (position, .object properties) :: visitsAll .entry properties
  | .binary left right operator =>
    (position, .binary left right operator) :: (visits .expression left ++ visits .expression right)
  | .equality left operator right =>
    (position, .equality left operator right) :: (visits .expression left ++ visits .expression right)
  | .call caller args =>
    (position, .call caller args) :: (visits .expression caller ++ visitsAll .expression args)
  | .member owner name computed =>
    -- where an entry is asked for, the member itself comes first like all else
    if position = .entry then
      (position, .member owner name computed) :: (visits .expression owner ++ visits .expression name)
    else visits .expression owner ++ (position, .member owner name computed) :: visits .expression name
  | .identifier symbol => [(position, .identifier symbol)]
  | .number value => [(position, .number value)]
  | .string value => [(position, .string value)]
  | .bare => [(position, .bare)]

def visitsAll (position : Position) : List Node → List (Position × Node)
  | [] => []
  | node :: rest => visits position node ++ visitsAll position rest

def visitsOption : Option Node → List (Position × Node)
  | none => []
  | some node => visits .expression node

def visitsBranch : Option (List Node) → List (Position × Node)
  | none => []
  | some body => visitsAll .statement body

end

/-- An owner comes before the member that it has. -/
theorem visits_member {position : Position} (h : position ≠ .entry) (owner name : Node)
    (computed : Bool) : (Node.member owner name computed).visits position =
      owner.visits .expression ++ (position, .member owner name computed) :: name.visits .expression := by
  rw [visits, if_neg h]

section
variable {position : Position} {n : Node}

theorem mem_visitsAll {v : Position × Node} {ns : List Node} :
    v ∈ visitsAll position ns ↔ ∃ n ∈ ns, v ∈ n.visits position := by
  induction ns with
  | nil => simp [visitsAll]
  | cons n ns ih => simp [visitsAll, ih]

theorem visitsAll_append (ms ns : List Node) :
    visitsAll position (ms ++ ns) = visitsAll position ms ++ visitsAll position ns := by
  induction ms with
  | nil => rfl
  | cons m ms ih => rw [List.cons_append, visitsAll, visitsAll, ih, List.append_assoc]

theorem mem_visits_self : (position, n) ∈ n.visits position := by
  cases n with
  | member owner name computed =>
    rw [visits]
    split_ifs <;> simp
  | _ => simp [visits]

end

end Node

/-- The fault of the first node that does not do in its position. -/
def firstFault (vs : List (Position × Node)) : Option PrintFault :=
  vs.findSome? fun v => v.2.faultAs v.1

open Node

variable {position : Position} {n : Node} {vs ws : List (Position × Node)}

@[simp] theorem firstFault_nil : firstFault [] = none := rfl

@[simp] theorem firstFault_cons (v : Position × Node) (vs : List (Position × Node)) :
    firstFault (v :: vs) = (v.2.faultAs v.1).or (firstFault vs) := by
  rw [firstFault, List.findSome?_cons, firstFault]
  cases v.2.faultAs v.1 <;> rfl

@[simp] theorem firstFault_append (vs ws : List (Position × Node)) :
    firstFault (vs ++ ws) = (firstFault vs).or (firstFault ws) :=
  List.findSome?_append

theorem exists_firstFault_iff :
    (∃ fault, firstFault vs = some fault) ↔
      ∃ position n fault, (position, n) ∈ vs ∧ n.faultAs position = some fault := by
  rw [← Option.isSome_iff_exists, firstFault, List.findSome?_isSome_iff]
  simp [Option.isSome_iff_exists]

def fault? {ε α : Type} : Except ε α → Option ε
  | .ok _ => none
  | .error fault => some fault

section
variable {ε α β : Type} {o : Option ε}

theorem fault?_eq_some {x : Except ε α} {fault : ε} : fault? x = some fault ↔ x = .error fault := by
  cases x <;> simp [fault?]

theorem fault?_bind (x : Except ε α) {f : α → Except ε β} (h : ∀ a, fault? (f a) = o) :
    fault? (x >>= f) = (fault? x).or o := by
  cases x with
  | ok a => exact h a
  | error fault => rfl

end

namespace Source

theorem fault?_return {ε α β : Type} (x : Except ε α) (f : α → β) :
    fault? (do return f (← x)) = fault? x := by
  cases x <;> rfl

theorem lookup_eq_none_iff_not_mem {α : Type} {table : List (String × α)} {s : String} :
    table.lookup s = none ↔ s ∉ table.map (·.1) := by
  simp only [List.lookup_eq_none_iff, List.mem_map, not_exists, not_and, bne_iff_ne, ne_comm]

mutual

/-- The fault of an expression is that of the first node in it that does not do. -/
theorem fault?_expression (asked : Nat) :
    (n : Node) → fault? (expression asked n) = firstFault (visits .expression n)
  | .program _ | .declaration .. | .function .. | .conditional .. | .property .. | .bare => by
    rw [visits, firstFault_cons]
    rfl
  | .assignment target value => by
    rw [visits, firstFault_cons, firstFault_append, ← fault?_expression 1 target,
      ← fault?_expression 0 value, expression]
    exact fault?_bind _ fun _ => fault?_return _ _
  | .object properties => by
    rw [visits, firstFault_cons, ← fault?_entryTexts properties, expression]
    exact fault?_return _ _
  | .binary left right operator => by
    rw [visits, firstFault_cons, firstFault_append,
      ← fault?_expression (Node.binary left right operator).level left,
      ← fault?_expression ((Node.binary left right operator).level + 1) right, expression]
    exact fault?_bind _ fun _ => fault?_return _ _
  | .equality left operator right => by
    rw [visits, firstFault_cons, firstFault_append, ← fault?_expression 0 left,
      ← fault?_expression 0 right, expression]
    simp only [faultAs, hasExpressionKind, flaw?, if_true]
    cases hsign : equalityOperators.lookup operator with
    | none =>
      rw [if_neg (lookup_eq_none_iff_not_mem.1 hsign)]
      rfl
    | some sign =>
      have hmem : operator ∈ equalityOperators.map (·.1) := by
        by_contra hnot
        rw [lookup_eq_none_iff_not_mem.2 hnot] at hsign
        cases hsign
      rw [if_pos hmem]
      exact fault?_bind _ fun _ => fault?_return _ _
  | .call caller args => by
    rw [visits, firstFault_cons, firstFault_append, ← fault?_expression 4 caller,
      ← fault?_expressions args, expression]
    exact fault?_bind _ fun _ => fault?_return _ _
  | .member owner name true => by
    rw [visits_member (by decide), firstFault_append, firstFault_cons, ← fault?_expression 4 owner,
      ← fault?_expression 0 name, expression]
    exact fault?_bind _ fun _ => fault?_return _ _
  | .member owner name false => by
    rw [visits_member (by decide), firstFault_append, firstFault_cons, ← fault?_expression 4 owner,
      expression]
    refine fault?_bind _ fun _ => ?_
    cases name <;> rfl
  | .identifier _ | .string _ => by
    rw [visits, firstFault_cons]
    rfl
  | .number value => by
    rw [visits, firstFault_cons, expression]
    cases value <;> rfl

theorem fault?_expressions :
    (ns : List Node) → fault? (expressions ns) = firstFault (visitsAll .expression ns)
  | [] => rfl
  | n :: ns => by
    rw [visitsAll, firstFault_append, ← fault?_expression 0 n, ← fault?_expressions ns, expressions]
    exact fault?_bind _ fun _ => fault?_return _ _

theorem fault?_entryText : (n : Node) → fault? (entryText n) = firstFault (visits .entry n)
  | .property _ none => rfl
  | .property _ (some value) => by
    rw [visits, firstFault_cons, visitsOption, ← fault?_expression 0 value, entryText]
    exact fault?_return _ _
  | .member .. => by
    rw [visits, if_pos rfl, firstFault_cons]
    rfl
  | .program _ | .declaration .. | .function .. | .conditional .. | .assignment .. | .object _
  | .binary .. | .equality .. | .call .. | .identifier _ | .number _ | .string _ | .bare => by
    rw [visits, firstFault_cons]
    rfl

theorem fault?_entryTexts :
    (ns : List Node) → fault? (entryTexts ns) = firstFault (visitsAll .entry ns)
  | [] => rfl
  | n :: ns => by
    rw [visitsAll, firstFault_append, ← fault?_entryText n, ← fault?_entryTexts ns, entryTexts]
    exact fault?_bind _ fun _ => fault?_return _ _

end

end Source

namespace Writing

variable {α β : Type} {w : Writing α} {f : α → Writing β} {o o' : Option PrintFault}

/-- On whatever page, the writing comes to the fault. -/
def Meets (w : Writing α) (o : Option PrintFault) : Prop := ∀ p : Page, fault? (w.run p).1 = o

theorem run_bind_fault {p q : Page} {fault : PrintFault} (h : w.run p = (.error fault, q)) :
    (w >>= f).run p = (.error fault, q) :=
  Outcome.run_bind_fault (f := fun a => f a true) h

theorem Meets.bind (hw : w.Meets o) (hf : ∀ a, (f a).Meets o') : (w >>= f).Meets (o.or o') := by
  intro p
  have hp := hw p
  rcases hrun : w.run p with ⟨a | a, q⟩
  · rw [hrun] at hp
    rw [run_bind_fault hrun, ← hp]
    rfl
  · rw [hrun] at hp
    rw [run_bind hrun, ← hp]
    exact hf a q

theorem Meets.then (hw : w.Meets none) (hf : ∀ a, (f a).Meets o) : (w >>= f).Meets o :=
  hw.bind hf

theorem Meets.before (hw : w.Meets o) (hf : ∀ a, (f a).Meets none) : (w >>= f).Meets o := by
  simpa using hw.bind hf

theorem meets_margin : margin.Meets none := fun _ => rfl

theorem meets_append (text : String) : (append text).Meets none := fun _ => rfl

theorem meets_line (text : String) : (line text).Meets none := fun _ => rfl

theorem meets_shift (levels : Int) : (shift levels).Meets none := fun _ => rfl

theorem meets_expression (n : Node) : (expression n).Meets (firstFault (visits .expression n)) :=
  fun _ => Source.fault?_expression 0 n

/-- The lines around a block have no faults of their own. -/
theorem Meets.nested {v w : Writing Unit} (hv : v.Meets o) (hw : w.Meets o') (text : String) :
    Meets (do line text; shift 1; v; shift (-1); w) (o.or o') :=
  (meets_line text).then fun _ => (meets_shift 1).then fun _ =>
    hv.bind fun _ => (meets_shift (-1)).then fun _ => hw

theorem Meets.block {v : Writing Unit} (hv : v.Meets o) (opening closing : String) :
    Meets (do line opening; shift 1; v; shift (-1); line closing) o := by
  simpa using hv.nested (meets_line closing) opening

theorem firstFault_statement (h : n.hasExpressionKind) :
    firstFault (visits .statement n) = firstFault (visits .expression n) := by
  cases n with
  | program | declaration | function | conditional | property | bare => cases h
  | _ => simp [visits, faultAs, hasExpressionKind]

theorem meets_expressionLine (h : n.hasExpressionKind) :
    (expressionLine n).Meets (firstFault (visits .statement n)) := by
  rw [firstFault_statement h, expressionLine]
  exact meets_margin.then fun _ => (meets_expression n).before fun _ => meets_append _

mutual

/-- The fault of a statement is that of the first node in it that does not do. -/
theorem meets_statement (lead : String) :
    (n : Node) → (statement lead n).Meets (firstFault (visits .statement n))
  | .program body => by
    rw [visits, firstFault_cons, statement]
    exact meets_statements body
  | .declaration name constant none => by
    rw [visits, firstFault_cons, statement]
    exact meets_line _
  | .declaration name constant (some value) => by
    rw [visits, firstFault_cons, visitsOption, statement]
    exact (meets_expression value).before fun _ => meets_line _
  | .function name parameters body => by
    rw [visits, firstFault_cons, statement]
    exact (meets_statements body).block _ _
  | .conditional condition consequent alternate => by
    rw [visits, firstFault_cons, firstFault_append, firstFault_append, statement]
    exact (meets_expression condition).bind fun _ =>
      (meets_statements consequent).nested (meets_branch alternate) _
  | .property _ none => fun _ => rfl
  | .property _ (some value) => by
    rw [visits, firstFault_cons, visitsOption, statement]
    exact (meets_expression value).before fun _ _ => rfl
  | .bare => fun _ => rfl
  | .assignment .. | .object _ | .binary .. | .equality .. | .call .. | .member .. | .identifier _
  | .number _ | .string _ => meets_expressionLine rfl

theorem meets_statements :
    (ns : List Node) → (statements ns).Meets (firstFault (visitsAll .statement ns))
  | [] => fun _ => rfl
  | n :: ns => by
    rw [visitsAll, firstFault_append, statements]
    exact (meets_statement "" n).bind fun _ => meets_statements ns

theorem meets_branch :
    (alternate : Option (List Node)) → (branch alternate).Meets (firstFault (visitsBranch alternate))
  | none => meets_line _
  | some [] => by
    rw [branch]
    · exact (meets_statements []).block _ _
    · nofun
  | some [n] => by
    rw [visitsBranch, visitsAll, visitsAll, List.append_nil, branch]
    split_ifs
    · exact meets_statement _ n
    · exact (meets_statement _ n).block _ _
  | some (n :: m :: ns) => by
    rw [branch]
    · exact (meets_statements (n :: m :: ns)).block _ _
    · nofun

end

end Writing

/-- A program can be written if and only if all nodes of it do in their positions, and otherwise the
first that does not is the fault. -/
theorem fault?_formatSource (body : List Node) :
    fault? (formatSource (.program body)) = firstFault (visitsAll .statement body) := by
  rw [← Writing.meets_statements body Page.blank, formatSource_eq]
  cases ((Writing.statements body).run Page.blank).1 <;> rfl

/-- A program cannot be written if and only if a node of it does not do in its position. -/
theorem formatSource_error_iff {body : List Node} :
    (∃ fault, formatSource (.program body) = .error fault) ↔
      ∃ position n fault, (position, n) ∈ visitsAll .statement body ∧
        n.faultAs position = some fault := by
  simp only [← fault?_eq_some, fault?_formatSource, exists_firstFault_iff]

end LocksetLang
