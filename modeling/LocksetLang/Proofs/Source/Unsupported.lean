import LocksetLang.Proofs.Source.Visits

/-! Nodes that stand as statements and are none. A bare node is refused. An entry is left out of the
text, and the statements of a program are written in the block around it. -/

namespace LocksetLang

namespace Node

/-- The nodes right below a node that stand as statements. -/
def statements : Node → List Node
  | .program body | .function _ _ body => body
  | .conditional _ consequent alternate => consequent ++ alternate.getD []
  | _ => []

/-- A node stands as a statement somewhere in the blocks of another one. -/
inductive StandsIn : Node → Node → Prop where
  | here {s n : Node} (hs : s ∈ n.statements) : StandsIn s n
  | within {s m n : Node} (hm : m ∈ n.statements) (h : StandsIn s m) : StandsIn s n

variable {s n m : Node} {body : List Node} {position : Position}

/-- What is visited in a statement of a block is visited in the block. -/
theorem visits_statement {v : Position × Node} (hm : m ∈ n.statements)
    (hv : v ∈ m.visits .statement) : v ∈ n.visits .statement := by
  have hall {ns : List Node} (h : m ∈ ns) : v ∈ visitsAll .statement ns :=
    mem_visitsAll.2 ⟨m, h, hv⟩
  cases n with
  | program body | function name parameters body =>
    rw [visits]
    exact List.mem_cons_of_mem _ (hall hm)
  | conditional condition consequent alternate =>
    rw [visits]
    refine List.mem_cons_of_mem _ (List.mem_append_right _ ?_)
    rcases List.mem_append.1 hm with hm | hm
    · exact List.mem_append_left _ (hall hm)
    · cases alternate with
      | none => cases hm
      | some body => exact List.mem_append_right _ (hall hm)
  | _ => cases hm

/-- Every node that stands as a statement is visited as one. -/
theorem StandsIn.visited (h : s.StandsIn n) : (.statement, s) ∈ n.visits .statement := by
  induction h with
  | here hs => exact visits_statement hs mem_visits_self
  | within hm _ ih => exact visits_statement hm ih

theorem StandsIn.visited_in (h : s.StandsIn (.program body)) :
    (.statement, s) ∈ visitsAll .statement body := by
  cases h with
  | here hs => exact mem_visitsAll.2 ⟨s, hs, mem_visits_self⟩
  | within hm h => exact mem_visitsAll.2 ⟨_, hm, h.visited⟩

end Node

open Node

namespace Writing

theorem statements_append (as bs : List Node) :
    statements (as ++ bs) = (do statements as; statements bs) := by
  induction as with
  | nil => rw [List.nil_append, statements, pure_bind]
  | cons a as ih => rw [List.cons_append, statements, statements, ih, bind_assoc]

/-- The statements of a program in a block are written as statements of the block. -/
theorem statements_program (body ns : List Node) :
    statements (.program body :: ns) = statements (body ++ ns) := by
  rw [statements, statement, statements_append]

/-- Nothing is written for an entry in a block. -/
theorem statements_property {key : String} {value : Option Node} {ns : List Node}
    (h : firstFault (visitsOption value) = none) :
    statements (.property key value :: ns) = statements ns := by
  cases value with
  | none => rw [statements, statement, pure_bind]
  | some value =>
    rw [visitsOption, ← Source.fault?_expression 0 value] at h
    cases he : Source.expression 0 value with
    | ok text => rw [statements, statement, expression_bind he, pure_bind]
    | error fault =>
      rw [he] at h
      cases h

end Writing

variable {as bs : List Node}

theorem formatSource_program (body : List Node) :
    formatSource (.program (as ++ .program body :: bs)) =
      formatSource (.program (as ++ (body ++ bs))) := by
  rw [formatSource_eq, formatSource_eq, Writing.statements_append, Writing.statements_program,
    ← Writing.statements_append]

theorem formatSource_property {key : String} {value : Option Node} {text : String}
    (h : formatSource (.program (as ++ .property key value :: bs)) = .ok text) :
    formatSource (.program (as ++ bs)) = .ok text := by
  have hno : firstFault (visitsOption value) = none := by
    have hnone := (fault?_formatSource (as ++ .property key value :: bs)).symm
    rw [h, visitsAll_append, visitsAll, visits, firstFault_append, firstFault_append,
      firstFault_cons] at hnone
    simp only [fault?, Option.or_eq_none_iff] at hnone
    exact hnone.2.1.2
  rw [formatSource_eq] at h ⊢
  rwa [Writing.statements_append, Writing.statements_property hno, ← Writing.statements_append] at h

/-- A program with a node that stands as a statement and is none is refused unless there is an entry or
a program among these nodes and all nodes do in their positions. An entry is then left out of the
text, and the statements of the program are written in the block around it. -/
theorem unsupported_refused_iff (body : List Node) :
    (((∃ s : Node, s.StandsIn (.program body) ∧ ¬ s.hasStatementKind) →
        ∃ fault, formatSource (.program body) = .error fault) ↔
      (∀ s : Node, s.StandsIn (.program body) → s.hasStatementKind ∨ s = .bare) ∨
        ∃ position n fault, (position, n) ∈ visitsAll .statement body ∧
          n.faultAs position = some fault) ∧
    (∀ as inner bs, body = as ++ .program inner :: bs →
      formatSource (.program body) = formatSource (.program (as ++ (inner ++ bs)))) ∧
    ∀ as key value bs text, body = as ++ .property key value :: bs →
      formatSource (.program body) = .ok text → formatSource (.program (as ++ bs)) = .ok text := by
  refine ⟨?_, fun as inner bs hbody => hbody ▸ formatSource_program inner,
    fun as key value bs text hbody h => formatSource_property (hbody ▸ h)⟩
  rw [formatSource_error_iff]
  constructor
  · intro h
    by_cases hall : ∀ s : Node, s.StandsIn (.program body) → s.hasStatementKind ∨ s = .bare
    · exact .inl hall
    · push Not at hall
      obtain ⟨s, hs, hkind, -⟩ := hall
      exact .inr (h ⟨s, hs, hkind⟩)
  · rintro (hall | hfault) ⟨s, hs, hkind⟩
    · obtain rfl := (hall s hs).resolve_left hkind
      exact ⟨_, _, _, hs.visited_in, rfl⟩
    · exact hfault

/-- An entry alone is written as nothing at all, and a program alone as its statements. -/
theorem entry_not_refused :
    let entry := Node.property "a" none
    let inner := Node.program [.identifier "x"]
    (entry.StandsIn (.program [entry]) ∧ ¬ entry.hasStatementKind ∧
      formatSource (.program [entry]) = .ok "") ∧
    inner.StandsIn (.program [inner]) ∧ ¬ inner.hasStatementKind ∧
      formatSource (.program [inner]) = .ok "x" := by
  refine ⟨⟨.here (.head _), nofun, ?_⟩, .here (.head _), nofun, ?_⟩
  · rw [formatSource_eq, Writing.statements_property rfl]
    rfl
  · rw [formatSource_eq, Writing.statements_program]
    rfl

end LocksetLang
