import LocksetLang.Proofs.Grammar.Calls
import LocksetLang.Proofs.Source.Derivation
import LocksetLang.Proofs.Source.Formatting

/-! The lists of statements in a program, and statements that run into the next one. Nothing ends an
expression that stands alone, so a parenthesis at the start of the next statement goes on with it. -/

namespace LocksetLang

namespace Node

mutual

/-- The lists of statements in a tree. -/
def blocks : Node → List (List Node)
  | .program body => body :: blocksOf body
  | .function _ _ body => body :: blocksOf body
  | .conditional _ consequent alternate =>
    consequent :: (blocksOf consequent ++ branchBlocks alternate)
  | _ => []

def blocksOf : List Node → List (List Node)
  | [] => []
  | node :: rest => blocks node ++ blocksOf rest

def branchBlocks : Option (List Node) → List (List Node)
  | none => []
  | some body => body :: blocksOf body

end

def isExpression : Node → Bool
  | .assignment .. | .object _ | .binary .. | .equality .. | .call .. | .member .. | .identifier _
  | .number _ | .string _ => true
  | _ => false

def statementText (s : Node) : String :=
  match formatSource (.program [s]) with
  | .ok text => text
  | .error _ => ""

/-- Whether nothing ends the text of `s`, and that of `t` starts with a parenthesis. -/
def runsInto (s t : Node) : Bool :=
  s.isExpression && s.statementText.toList.getLast? != some '}' &&
    t.statementText.toList.head? == some '('

/-- No statement of the tree runs into the next one. -/
def IsParted (tree : Node) : Prop :=
  ∀ block ∈ tree.blocks, block.IsChain fun s t => s.runsInto t = false

end Node

open Source

namespace Node

variable {s t e : Node}

theorem IsExpression.isExpression (h : e.IsExpression) : e.isExpression = true := by
  cases h <;> rfl

theorem statementText_spells (h : s.IsStatement) :
    Spells s.statementText.toList (statementLexemes s) := by
  obtain ⟨text, hf, hs⟩ := formatSource_spells (List.forall_mem_singleton.2 h)
  rw [statementsLexemes, statementsLexemes, List.append_nil] at hs
  rw [statementText, hf]
  exact hs

theorem statementLexemes_ne_nil (h : s.IsStatement) : statementLexemes s ≠ [] := by
  cases h with
  | @declaration n constant value => cases value <;> simp [statementLexemes]
  | function | conditional => simp [statementLexemes]
  | expression he =>
    rw [statementLexemes_of_isExpression he]
    exact lexemes_ne_nil he 0

/-- Expressions end with an operand or a brace, other statements with a semicolon or a brace. -/
theorem statement_last_mem (h : s.IsStatement) : ∀ t ∈ (statementLexemes s).getLast?,
    t.kind ∈ bif s.isExpression then .rightBrace :: operandEnds else [.semicolon, .rightBrace] := by
  induction h with
  | @declaration n constant value =>
    cases value <;> simp [statementLexemes, isExpression, sign_kind (s := ";") rfl, List.getLast?_cons]
  | function =>
    simp [statementLexemes, isExpression, sign_kind (s := r"}") rfl, List.getLast?_cons]
  | @conditional c consequent alternate _ _ ha _ ih =>
    have hclose : ∀ t ∈ [sign r"}"].getLast?, t.kind ∈ [Kind.semicolon, .rightBrace] := by decide
    rw [statementLexemes]
    refine forall_getLast?_cons (forall_getLast?_append ?_ (by simp)) (by simp)
    refine forall_getLast?_append ?_ fun _ => forall_getLast?_cons
      (forall_getLast?_append hclose (by simp)) (by simp)
    cases alternate with
    | none => simp [alternateLexemes]
    | some ss =>
      obtain ⟨s, rfl, hs, he⟩ | he := alternateLexemes_cases ss
      · have hnot : s.isExpression = false := by cases s <;> first | rfl | cases hs
        have ih := ih [s] rfl s (by simp)
        rw [hnot] at ih
        rw [he]
        exact forall_getLast?_cons ih fun hnil => absurd hnil (statementLexemes_ne_nil (ha [s] rfl s (by simp)))
      · rw [he]
        exact forall_getLast?_cons (forall_getLast?_cons (forall_getLast?_append hclose (by simp))
          (by simp)) (by simp)
  | expression he =>
    rw [statementLexemes_of_isExpression he, he.isExpression, cond_true]
    have hd : Derives Parted .expression _ _ := derives_of_isExpression he 0
    exact hd.last_mem

theorem head?_beq_iff (h : s.IsStatement) :
    (s.statementText.toList.head? == some '(') = startsParen (statementLexemes s) := by
  rw [Bool.eq_iff_iff, beq_iff_eq, (statementText_spells h).head?_eq_iff, startsParen]
  cases (statementLexemes s).head? <;> simp

theorem endsOperand_eq (h : s.IsStatement) :
    (s.isExpression && s.statementText.toList.getLast? != some '}') =
      endsOperand (statementLexemes s) := by
  obtain ⟨t, ht⟩ := Option.ne_none_iff_exists'.1
    (List.getLast?_eq_none_iff.not.2 (statementLexemes_ne_nil h))
  have hbrace := (statementText_spells h).getLast?_eq_iff
  have hlast := statement_last_mem h t ht
  rw [endsOperand, ht, Option.any_some]
  rw [ht, Option.map_some, Option.some.injEq] at hbrace
  cases he : s.isExpression with
  | true =>
    rw [he, cond_true, List.mem_cons] at hlast
    have hne : Kind.rightBrace ∉ operandEnds := by decide
    rw [Bool.true_and, Bool.eq_iff_iff, bne_iff_ne, ne_eq, hbrace, List.contains_iff_mem]
    exact ⟨hlast.resolve_left, fun hm hb => hne (hb ▸ hm)⟩
  | false =>
    rw [he, cond_false] at hlast
    have hall : ∀ k ∈ [Kind.semicolon, .rightBrace], operandEnds.contains k = false := by decide
    rw [Bool.false_and, hall _ hlast]

/-- Whether a statement runs into the next one, told from the lexemes. -/
theorem runsInto_eq (hs : s.IsStatement) (ht : t.IsStatement) :
    s.runsInto t = (endsOperand (statementLexemes s) && startsParen (statementLexemes t)) := by
  rw [runsInto, endsOperand_eq hs, head?_beq_iff ht]

theorem parted_of_runsInto {ls : List Lexeme} (hs : s.IsStatement) (ht : t.IsStatement)
    (h : s.runsInto t = false) : Parted (statementLexemes s) (statementLexemes t ++ ls) := by
  intro hhead
  rw [List.head?_append_of_ne_nil _ (statementLexemes_ne_nil ht)] at hhead
  have hstart : startsParen (statementLexemes t) = true := by
    rw [startsParen]
    cases hh : (statementLexemes t).head? <;> simp_all
  obtain ⟨u, hu⟩ := Option.ne_none_iff_exists'.1
    (List.getLast?_eq_none_iff.not.2 (statementLexemes_ne_nil hs))
  rw [runsInto_eq hs ht, hstart, Bool.and_true, endsOperand, hu] at h
  have hlast := statement_last_mem hs u hu
  rw [hu]
  cases he : s.isExpression <;> simp_all

theorem forall_mem_blocksOf {P : List Node → Prop} {ss : List Node} :
    (∀ b ∈ blocksOf ss, P b) ↔ ∀ s ∈ ss, ∀ b ∈ s.blocks, P b := by
  induction ss with
  | nil => simp [blocksOf]
  | cons s ss ih => rw [blocksOf, List.forall_mem_append, List.forall_mem_cons, ih]

end Node
end LocksetLang
