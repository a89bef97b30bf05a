import LocksetLang.Proofs.Source.Statements

/-! Every statement that runs into the next one makes a call. The text of a program has one more
opening parenthesis behind an operand than its tree has calls for each of them, so it does not give
the tree back if there is any. -/

namespace LocksetLang

open Source

namespace Node

variable {s e : Node} {n : String} {ss : List Node}

/-- How many statements of a list run into the next one. -/
def runs : List Node → Nat
  | s :: t :: rest => (s.runsInto t).toNat + runs (t :: rest)
  | _ => 0

theorem isChain_of_runs_eq_zero (h : runs ss = 0) : ss.IsChain fun s t => s.runsInto t = false := by
  induction ss with
  | nil => exact .nil
  | cons s ss ih =>
    cases ss with
    | nil => exact .singleton s
    | cons t ss =>
      rw [runs, Nat.add_eq_zero_iff] at h
      refine .cons_cons ?_ (ih h.2)
      simpa using h.1

def runsWithin (blocks : List (List Node)) : Nat := (blocks.map runs).sum

theorem runsWithin_cons (block : List Node) (blocks : List (List Node)) :
    runsWithin (block :: blocks) = runs block + runsWithin blocks := by
  rw [runsWithin, List.map_cons, List.sum_cons]
  rfl

theorem runsWithin_append (blocks blocks' : List (List Node)) :
    runsWithin (blocks ++ blocks') = runsWithin blocks + runsWithin blocks' := by
  rw [runsWithin, List.map_append, List.sum_append]
  rfl

theorem isParted_of_runsWithin_eq_zero (h : runsWithin s.blocks = 0) : s.IsParted := by
  intro b hb
  exact isChain_of_runs_eq_zero (List.sum_eq_zero_iff.1 h _ (List.mem_map_of_mem hb))

theorem callStarts_statements (h : ∀ s ∈ ss, s.IsStatement)
    (hc : ∀ s ∈ ss, callStarts (statementLexemes s) = calls s.plain + runsWithin s.blocks) :
    callStarts (statementsLexemes ss) =
      callsAll (plainAll ss) + (runs ss + runsWithin (blocksOf ss)) := by
  induction ss with
  | nil => rfl
  | cons s ss ih =>
    have ih := ih (fun t ht => h t (by simp [ht])) fun t ht => hc t (by simp [ht])
    have hs := hc s (by simp)
    have hmeet : runs (s :: ss) = meeting (statementLexemes s) (statementsLexemes ss) + runs ss := by
      cases ss with
      | nil => simp [runs, statementsLexemes, meeting, startsParen]
      | cons t ss =>
        have ht := h t (by simp)
        rw [runs, runsInto_eq (h s (by simp)) ht, meeting, statementsLexemes]
        simp [startsParen, List.head?_append_of_ne_nil _ (statementLexemes_ne_nil ht)]
    rw [statementsLexemes, callStarts_append, plainAll, callsAll, blocksOf, runsWithin_append]
    omega

theorem callStarts_block : callStarts (sign r"{" :: (statementsLexemes ss ++ [sign r"}"])) =
    callStarts (statementsLexemes ss) :=
  callStarts_enclosed (by decide) (by decide)

theorem callStarts_alternate : callStarts (alternateLexemes (some ss)) =
    callStarts (statementsLexemes ss) := by
  have helse : (word "else").kind ∉ operandEnds := by decide
  obtain ⟨s, rfl, -, h⟩ | h := alternateLexemes_cases ss
  · rw [h, callStarts_cons helse, statementsLexemes, statementsLexemes, List.append_nil]
  · rw [h, callStarts_cons helse, callStarts_block]

theorem alternate_first {alternate : Option (List Node)} :
    ∀ t ∈ (alternateLexemes alternate).head?, t.kind ∈ [Kind.elseWord] := by
  have helse : ∀ t ∈ some (word "else"), t.kind ∈ [Kind.elseWord] := by decide
  cases alternate with
  | none => simp [alternateLexemes]
  | some ss =>
    obtain ⟨s, -, -, h⟩ | h := alternateLexemes_cases ss
    · rw [h]
      exact helse
    · rw [h]
      exact helse

theorem callStarts_statement (h : s.IsStatement) :
    callStarts (statementLexemes s) = calls s.plain + runsWithin s.blocks := by
  induction h with
  | declaration hn hv hc =>
    rw [(derives_declaration hn hv hc).callStarts_eq]
    rfl
  | function hn hp hb ih =>
    have hparams := (derives_parameters hp).callStarts_eq
    have hbody := callStarts_statements hb ih
    rw [Phrase.calls, callsAll_identifiers] at hparams
    rw [statementLexemes, word_of_isName hn,
      callStarts_function rfl rfl (by decide) (by decide) (by simp [sign_kind (s := r"{") rfl]),
      hparams, callStarts_block, hbody, plain, calls, blocks, runsWithin_cons, Nat.add_zero,
      Nat.add_assoc]
  | @conditional c consequent alternate hc ht ha iht iha =>
    have hcond : Derives Parted .expression _ _ := derives_of_isExpression hc 0
    have hthen := callStarts_statements ht iht
    have helse : callStarts (alternateLexemes alternate) =
        callsBranch (plainBranch alternate) + runsWithin (branchBlocks alternate) := by
      cases alternate with
      | none => rfl
      | some ss =>
        rw [callStarts_alternate, callStarts_statements (ha ss rfl) (iha ss rfl), plainBranch,
          callsBranch, branchBlocks, runsWithin_cons]
    rw [statementLexemes, callStarts_conditional (w := word "if") rfl (List.cons_ne_nil _ _)
      (by simp [sign_kind (s := r"{") rfl]) alternate_first, hcond.callStarts_eq,
      callStarts_block, hthen, helse, plain, calls, blocks, runsWithin_cons, runsWithin_append,
      Phrase.calls]
    omega
  | expression he =>
    have hd : Derives Parted .expression _ _ := derives_of_isExpression he 0
    rw [statementLexemes_of_isExpression he, hd.callStarts_eq]
    cases he <;> rfl

end Node
end LocksetLang
