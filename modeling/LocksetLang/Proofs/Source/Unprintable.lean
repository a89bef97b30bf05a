import LocksetLang.Proofs.Source.Visits

/-! Trees that no source text stands for. A tree with a node of the right kind in each position can be
written unless there is an unprintable node in it, and the first of these in the order of writing is
the fault. -/

namespace LocksetLang

namespace Node

/-- Expressions all the way down, with any names, strings, numbers and operators. -/
inductive IsExpressionTree : Node → Prop where
  | assignment {target value : Node} (ht : IsExpressionTree target) (hv : IsExpressionTree value) :
    IsExpressionTree (.assignment target value)
  | object {properties : List Node} (hk : ∀ p ∈ properties, ∃ key value, p = .property key value)
    (hv : ∀ key value, .property key (some value) ∈ properties → IsExpressionTree value) :
    IsExpressionTree (.object properties)
  | binary {left right : Node} (operator : String) (hl : IsExpressionTree left)
    (hr : IsExpressionTree right) : IsExpressionTree (.binary left right operator)
  | equality {left right : Node} (operator : String) (hl : IsExpressionTree left)
    (hr : IsExpressionTree right) : IsExpressionTree (.equality left operator right)
  | call {caller : Node} {args : List Node} (hc : IsExpressionTree caller)
    (ha : ∀ a ∈ args, IsExpressionTree a) : IsExpressionTree (.call caller args)
  | member {owner name : Node} (computed : Bool) (ho : IsExpressionTree owner)
    (hn : IsExpressionTree name) : IsExpressionTree (.member owner name computed)
  | identifier (symbol : String) : IsExpressionTree (.identifier symbol)
  | number (value : Binary64) : IsExpressionTree (.number value)
  | string (value : String) : IsExpressionTree (.string value)

/-- Statements down to their expressions. -/
inductive IsStatementTree : Node → Prop where
  | declaration (name : String) (constant : Bool) {value : Option Node}
    (hv : ∀ e ∈ value, IsExpressionTree e) : IsStatementTree (.declaration name constant value)
  | function (name : String) (parameters : List String) {body : List Node}
    (hb : ∀ s ∈ body, IsStatementTree s) : IsStatementTree (.function name parameters body)
  | conditional {condition : Node} {consequent : List Node} {alternate : Option (List Node)}
    (hc : IsExpressionTree condition) (ht : ∀ s ∈ consequent, IsStatementTree s)
    (ha : ∀ ss ∈ alternate, ∀ s ∈ ss, IsStatementTree s) :
    IsStatementTree (.conditional condition consequent alternate)
  | expression {e : Node} (he : IsExpressionTree e) : IsStatementTree e

/-- A program with statements in the positions of statements, expressions in those of expressions and
entries in those of entries. -/
def IsProgramTree : Node → Prop
  | .program body => ∀ s ∈ body, IsStatementTree s
  | _ => False

def children : Node → List Node
  | .program body | .function _ _ body => body
  | .declaration _ _ value | .property _ value => value.toList
  | .conditional condition consequent alternate => condition :: (consequent ++ alternate.getD [])
  | .assignment target value => [target, value]
  | .object properties => properties
  | .binary left right _ | .equality left _ right => [left, right]
  | .call caller args => caller :: args
  | .member owner name _ => [owner, name]
  | _ => []

/-- The nodes of a tree, its root among them. -/
inductive PartOf : Node → Node → Prop where
  | self (n : Node) : PartOf n n
  | under {m c n : Node} (hc : c ∈ n.children) (h : PartOf m c) : PartOf m n

/-- A node that no text stands for, with the class of the fault. -/
inductive Unprintable : Node → (className : String) → Prop where
  | number {value : Binary64} (h : ¬ value.isFinite) : Unprintable (.number value) "ValueError"
  | member {owner name : Node} (h : ∀ symbol, name ≠ .identifier symbol) :
    Unprintable (.member owner name false) "TypeError"
  | equality {left right : Node} {operator : String}
    (h : operator ∉ equalityOperators.map (·.1)) :
    Unprintable (.equality left operator right) "KeyError"

/-- The nodes of a program in the order of writing. -/
def inOrder (program : Node) : List Node := (program.visits .statement).map (·.2)

variable {m n : Node} {position : Position}

theorem partOf_iff : m.PartOf n ↔ m = n ∨ ∃ c ∈ n.children, m.PartOf c := by
  constructor
  · rintro (_ | ⟨hc, h⟩)
    · exact .inl rfl
    · exact .inr ⟨_, hc, h⟩
  · rintro (rfl | ⟨c, hc, h⟩)
    · exact .self m
    · exact .under hc h

mutual

/-- All nodes of a tree are visited, and no others. -/
theorem visited_iff (m : Node) (position : Position) :
    (n : Node) → ((∃ as, (as, m) ∈ n.visits position) ↔ m.PartOf n)
  | .program body => by
    rw [partOf_iff]
    simp [visits, children, exists_or, visitedAll_iff m .statement body]
  | .declaration name constant value => by
    rw [partOf_iff]
    simp [visits, children, exists_or, visitedOption_iff m value]
  | .function name parameters body => by
    rw [partOf_iff]
    simp [visits, children, exists_or, visitedAll_iff m .statement body]
  | .conditional condition consequent alternate => by
    rw [partOf_iff]
    simp [visits, children, exists_or, visited_iff m .expression condition,
      visitedAll_iff m .statement consequent, visitedBranch_iff m alternate, or_and_right]
  | .assignment target value => by
    rw [partOf_iff]
    simp [visits, children, exists_or, visited_iff m .expression target,
      visited_iff m .expression value]
  | .property key value => by
    rw [partOf_iff]
    simp [visits, children, exists_or, visitedOption_iff m value]
  | .object properties => by
    rw [partOf_iff]
    simp [visits, children, exists_or, visitedAll_iff m .entry properties]
  | .binary left right operator => by
    rw [partOf_iff]
    simp [visits, children, exists_or, visited_iff m .expression left,
      visited_iff m .expression right]
  | .equality left operator right => by
    rw [partOf_iff]
    simp [visits, children, exists_or, visited_iff m .expression left,
      visited_iff m .expression right]
  | .call caller args => by
    rw [partOf_iff]
    simp [visits, children, exists_or, visited_iff m .expression caller,
      visitedAll_iff m .expression args]
  | .member owner name computed => by
    rw [partOf_iff, visits]
    split_ifs
    · simp [children, exists_or, visited_iff m .expression owner, visited_iff m .expression name]
    · simp [children, exists_or, visited_iff m .expression owner, visited_iff m .expression name,
        or_left_comm]
  | .identifier _ | .number _ | .string _ | .bare => by
    rw [partOf_iff]
    simp [visits, children]

theorem visitedAll_iff (m : Node) (position : Position) :
    (ns : List Node) → ((∃ as, (as, m) ∈ visitsAll position ns) ↔ ∃ n ∈ ns, m.PartOf n)
  | [] => by simp [visitsAll]
  | n :: ns => by
    simp [visitsAll, exists_or, visited_iff m position n, visitedAll_iff m position ns]

theorem visitedOption_iff (m : Node) :
    (value : Option Node) → ((∃ as, (as, m) ∈ visitsOption value) ↔ ∃ n ∈ value, m.PartOf n)
  | none => by simp [visitsOption]
  | some n => by simp [visitsOption, visited_iff m .expression n]

theorem visitedBranch_iff (m : Node) : (alternate : Option (List Node)) →
    ((∃ as, (as, m) ∈ visitsBranch alternate) ↔ ∃ n ∈ alternate.getD [], m.PartOf n)
  | none => by simp [visitsBranch]
  | some ns => by simp [visitsBranch, visitedAll_iff m .statement ns]

end

theorem mem_inOrder {program : Node} : m ∈ program.inOrder ↔ m.PartOf program := by
  rw [← visited_iff m .statement program, inOrder]
  simp

/-- A node is unprintable if and only if there is a fault of its own in it, which has the class. -/
theorem unprintable_iff {className : String} :
    n.Unprintable className ↔ ∃ fault, n.flaw? = some fault ∧ fault.className = className := by
  constructor
  · rintro (h | h | h)
    · exact ⟨_, if_neg h, rfl⟩
    · next owner name =>
      have hname : name.isIdentifier = false := by
        cases name with
        | identifier symbol => exact absurd rfl (h symbol)
        | _ => rfl
      exact ⟨.memberWithoutName, by rw [flaw?, hname]; rfl, rfl⟩
    · exact ⟨_, if_neg h, rfl⟩
  · rintro ⟨fault, hf, rfl⟩
    cases n with
    | number value =>
      rw [flaw?] at hf
      split_ifs at hf with h
      obtain rfl := Option.some.inj hf
      exact .number h
    | member owner name computed =>
      rw [flaw?] at hf
      split_ifs at hf with h
      obtain rfl := Option.some.inj hf
      cases computed with
      | true => exact absurd rfl h
      | false =>
        refine .member fun symbol he => ?_
        rw [he] at h
        exact h rfl
    | equality left operator right =>
      rw [flaw?] at hf
      split_ifs at hf with h
      obtain rfl := Option.some.inj hf
      exact .equality h
    | _ => cases hf

/-- Each of the nodes does in its position unless there is a fault of its own in it. -/
def Fit (vs : List (Position × Node)) : Prop := ∀ v ∈ vs, v.2.faultAs v.1 = v.2.flaw?

theorem Fit.firstFault {vs : List (Position × Node)} (h : Fit vs) :
    firstFault vs = (vs.map (·.2)).findSome? flaw? := by
  induction vs with
  | nil => rfl
  | cons v vs ih =>
    obtain ⟨hv, hvs⟩ := List.forall_mem_cons.1 h
    rw [firstFault_cons, hv, ih hvs, List.map_cons, List.findSome?_cons]
    cases v.2.flaw? <;> rfl

theorem fit_visitsAll {ns : List Node} (h : ∀ n ∈ ns, Fit (n.visits position)) :
    Fit (visitsAll position ns) := by
  intro v hv
  obtain ⟨n, hn, hv⟩ := mem_visitsAll.1 hv
  exact h n hn v hv

theorem IsExpressionTree.fit (h : n.IsExpressionTree) : Fit (n.visits .expression) := by
  induction h with
  | assignment _ _ iht ihv =>
    rw [visits]
    exact List.forall_mem_cons.2 ⟨rfl, List.forall_mem_append.2 ⟨iht, ihv⟩⟩
  | object hk _ ihv =>
    rw [visits]
    refine List.forall_mem_cons.2 ⟨rfl, fit_visitsAll fun p hp => ?_⟩
    obtain ⟨key, value, rfl⟩ := hk p hp
    rw [visits]
    refine List.forall_mem_cons.2 ⟨rfl, ?_⟩
    cases value with
    | none => exact List.forall_mem_nil _
    | some value => exact ihv key value hp
  | binary _ _ _ ihl ihr | equality _ _ _ ihl ihr =>
    rw [visits]
    exact List.forall_mem_cons.2 ⟨rfl, List.forall_mem_append.2 ⟨ihl, ihr⟩⟩
  | call _ _ ihc iha =>
    rw [visits]
    exact List.forall_mem_cons.2 ⟨rfl, List.forall_mem_append.2 ⟨ihc, fit_visitsAll iha⟩⟩
  | member _ _ _ iho ihn =>
    rw [visits_member (by decide)]
    exact List.forall_mem_append.2 ⟨iho, List.forall_mem_cons.2 ⟨rfl, ihn⟩⟩
  | identifier | number | string => exact List.forall_mem_singleton.2 rfl

theorem IsExpressionTree.fit_statement (h : n.IsExpressionTree) : Fit (n.visits .statement) := by
  have hfit := h.fit
  cases h with
  | member =>
    rw [visits_member (by decide)] at hfit ⊢
    obtain ⟨ho, hn⟩ := List.forall_mem_append.1 hfit
    exact List.forall_mem_append.2 ⟨ho, List.forall_mem_cons.2 ⟨rfl, (List.forall_mem_cons.1 hn).2⟩⟩
  | _ =>
    rw [visits] at hfit ⊢
    exact List.forall_mem_cons.2 ⟨rfl, (List.forall_mem_cons.1 hfit).2⟩

theorem IsStatementTree.fit (h : n.IsStatementTree) : Fit (n.visits .statement) := by
  induction h with
  | @declaration name constant value hv =>
    rw [visits]
    refine List.forall_mem_cons.2 ⟨rfl, ?_⟩
    cases value with
    | none => exact List.forall_mem_nil _
    | some e => exact (hv e rfl).fit
  | function _ _ _ ihb =>
    rw [visits]
    exact List.forall_mem_cons.2 ⟨rfl, fit_visitsAll ihb⟩
  | @conditional condition consequent alternate hc _ _ iht iha =>
    rw [visits]
    refine List.forall_mem_cons.2 ⟨rfl, List.forall_mem_append.2
      ⟨hc.fit, List.forall_mem_append.2 ⟨fit_visitsAll iht, ?_⟩⟩⟩
    cases alternate with
    | none => exact List.forall_mem_nil _
    | some body => exact fit_visitsAll (iha body rfl)
  | expression he => exact he.fit_statement

end Node

open Node

/-- What is reported against a program is what stands against the first node in the order of writing
that something stands against. -/
theorem fault?_formatSource_inOrder {program : Node} (h : program.IsProgramTree) :
    fault? (formatSource program) = program.inOrder.findSome? flaw? := by
  cases program with
  | program body =>
    rw [fault?_formatSource, (fit_visitsAll fun s hs => (h s hs).fit).firstFault, inOrder, visits]
    rfl
  | _ => exact h.elim

/-- A program of statements, expressions and entries cannot be written if and only if there is an
unprintable node in it, and the fault is that of the first one in the order of writing. -/
theorem formatSource_fails_iff {program : Node} (h : program.IsProgramTree) :
    ((∃ fault, formatSource program = .error fault) ↔
      ∃ (n : Node) (className : String), n.PartOf program ∧ n.Unprintable className) ∧
    ∀ fault, formatSource program = .error fault →
      ∃ before n after, program.inOrder = before ++ n :: after ∧
        (∀ m ∈ before, ∀ className, ¬ m.Unprintable className) ∧
        n.Unprintable fault.className ∧ n.flaw? = some fault := by
  have hfault : ∀ fault, formatSource program = .error fault ↔
      program.inOrder.findSome? flaw? = some fault := fun fault => by
    rw [← fault?_eq_some, fault?_formatSource_inOrder h]
  constructor
  · simp only [hfault, ← Option.isSome_iff_exists, List.findSome?_isSome_iff, mem_inOrder]
    refine exists_congr fun n => ?_
    simp [unprintable_iff, Option.isSome_iff_exists]
  · intro fault hrun
    obtain ⟨before, n, after, horder, hn, hbefore⟩ :=
      List.findSome?_eq_some_iff.1 ((hfault fault).1 hrun)
    refine ⟨before, n, after, horder, fun m hm className hbad => ?_, unprintable_iff.2 ⟨fault, hn, rfl⟩,
      hn⟩
    obtain ⟨fault', hf, -⟩ := unprintable_iff.1 hbad
    rw [hbefore m hm] at hf
    cases hf

/-- The owner of a member comes before the member, and the condition before the branch. -/
theorem owner_fails_first :
    let program : Node := .program [.function "f" ["x"] [.conditional
      (.member (.number .nan) (.string "s") false) [.equality (.identifier "x") "~" (.string "")] none]]
    program.IsProgramTree ∧ formatSource program = .error (.notFinite .nan) ∧
      (∃ (n : Node) (className : String), n.PartOf program ∧ n.Unprintable className) ∧
      ∃ before n after, program.inOrder = before ++ n :: after ∧
        (∀ m ∈ before, ∀ className, ¬ m.Unprintable className) ∧
        n.Unprintable "ValueError" ∧ n.flaw? = some (.notFinite .nan) := by
  intro program
  have h : program.IsProgramTree :=
    List.forall_mem_singleton.2 <| .function _ _ <| List.forall_mem_singleton.2 <|
      .conditional (.member _ (.number _) (.string _))
        (List.forall_mem_singleton.2 (.expression (.equality _ (.identifier _) (.string _)))) nofun
  have hrun : formatSource program = .error (.notFinite .nan) :=
    fault?_eq_some.1 (fault?_formatSource _)
  exact ⟨h, hrun, (formatSource_fails_iff h).1.1 ⟨_, hrun⟩, (formatSource_fails_iff h).2 _ hrun⟩

end LocksetLang
