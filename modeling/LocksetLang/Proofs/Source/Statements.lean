import LocksetLang.Proofs.Source.Blocks

/-! Statements that do not run into each other are derived from their lexemes. -/

namespace LocksetLang

open Source

namespace Node

variable {s e : Node} {n : String} {ss : List Node}

theorem plainAll_identifiers (names : List String) :
    plainAll (names.map .identifier) = names.map .identifier := by
  induction names with
  | nil => rw [List.map_nil, plainAll]
  | cons name names ih => rw [List.map_cons, plainAll, ih, plain]

theorem derives_statements (h : ∀ s ∈ ss, s.IsStatement)
    (hd : ∀ s ∈ ss, Derives Parted .statement (statementLexemes s) s.plain)
    (hc : ss.IsChain fun s t => s.runsInto t = false) :
    Derives Parted .statements (statementsLexemes ss) (plainAll ss) := by
  induction ss with
  | nil => exact .noStatements
  | cons s ss ih =>
    have ih := ih (fun t ht => h t (by simp [ht])) (fun t ht => hd t (by simp [ht])) hc.tail
    rw [statementsLexemes, plainAll]
    refine .statements (hd s (by simp)) ih ?_
    cases ss with
    | nil => exact parted_nil _
    | cons t ss =>
      rw [statementsLexemes]
      exact parted_of_runsInto (h s (by simp)) (h t (by simp)) hc.rel

theorem derives_declaration {constant : Bool} {value : Option Node} (hn : isName n)
    (hv : ∀ e ∈ value, e.IsExpression) (hc : constant → value.isSome) :
    Derives Parted .statement (statementLexemes (.declaration n constant value))
      (plain (.declaration n constant value)) := by
  cases value with
  | none =>
    obtain rfl : constant = false := Bool.eq_false_iff.2 fun h => by cases hc h
    rw [statementLexemes, plain, plainOption, word_of_isName hn]
    exact .declared (n := ⟨.identifier, n⟩) rfl rfl rfl
  | some e =>
    have he : Derives Parted .expression _ _ := derives_of_isExpression (hv e rfl) 0
    rw [statementLexemes, plain, plainOption, word_of_isName hn]
    cases constant with
    | false => exact .assigned (w := word "set") (n := ⟨.identifier, n⟩) (.inl rfl) rfl rfl he rfl
    | true => exact .assigned (w := word "lock") (n := ⟨.identifier, n⟩) (.inr rfl) rfl rfl he rfl

theorem derives_block (h : Derives Parted .statements (statementsLexemes ss) (plainAll ss)) :
    Derives Parted .block (sign r"{" :: (statementsLexemes ss ++ [sign r"}"])) (plainAll ss) :=
  .block rfl h rfl

theorem derives_parameters {ps : List String} (hp : ∀ p ∈ ps, isName p) :
    Derives Parted .arguments (commaSeparated (ps.map fun p => [word p])) (ps.map .identifier) := by
  have hnames : ∀ a ∈ ps.map Node.identifier, DerivesItself Parted a := by
    intro a ha
    obtain ⟨p, hm, rfl⟩ := List.mem_map.1 ha
    exact derives_of_isExpression (.identifier (hp p hm))
  have hd := derives_arguments hnames
  rwa [expressionsLexemes_identifiers, plainAll_identifiers] at hd

theorem derives_function {ps : List String} (hn : isName n) (hp : ∀ p ∈ ps, isName p)
    (hb : Derives Parted .statements (statementsLexemes ss) (plainAll ss)) :
    Derives Parted .statement (statementLexemes (.function n ps ss)) (plain (.function n ps ss)) := by
  rw [statementLexemes, plain, word_of_isName hn]
  exact .function (n := ⟨.identifier, n⟩) rfl rfl rfl (derives_parameters hp) rfl (derives_block hb)

theorem derives_alternate {alternate : Option (List Node)}
    (hb : ∀ ss ∈ alternate, Derives Parted .statements (statementsLexemes ss) (plainAll ss))
    (hc : ∀ s, alternate = some [s] → s.isConditional →
      Derives Parted .conditional (statementLexemes s) s.plain) :
    Derives Parted .alternate (alternateLexemes alternate) (plainBranch alternate) := by
  cases alternate with
  | none => exact .noAlternate
  | some ss =>
    rw [plainBranch]
    obtain ⟨s, rfl, hs, he⟩ | he := alternateLexemes_cases ss
    · rw [he, plainAll, plainAll]
      exact .elseIf rfl (hc s rfl hs)
    · rw [he]
      exact .otherwise rfl (derives_block (hb ss rfl))

/-- A conditional is derived as one, so that it can go on behind the other branch. -/
theorem derives_of_isStatement (h : s.IsStatement) (hp : s.IsParted) :
    Derives Parted .statement (statementLexemes s) s.plain ∧
      (s.isConditional → Derives Parted .conditional (statementLexemes s) s.plain) := by
  induction h with
  | declaration hn hv hc => exact ⟨derives_declaration hn hv hc, by simp [isConditional]⟩
  | function hn hps hb ih =>
    rw [IsParted, blocks, List.forall_mem_cons, forall_mem_blocksOf] at hp
    have hd := derives_statements hb (fun s hs => (ih s hs (hp.2 s hs)).1) hp.1
    exact ⟨derives_function hn hps hd, by simp [isConditional]⟩
  | @conditional c consequent alternate hc ht ha iht iha =>
    rw [IsParted, blocks, List.forall_mem_cons, List.forall_mem_append, forall_mem_blocksOf] at hp
    obtain ⟨hchain, hin, hbranch⟩ := hp
    have hbranch : ∀ ss ∈ alternate, (ss.IsChain fun s t => s.runsInto t = false) ∧
        ∀ s ∈ ss, s.IsParted := by
      rintro ss rfl
      rw [branchBlocks, List.forall_mem_cons, forall_mem_blocksOf] at hbranch
      exact hbranch
    have hd := derives_statements ht (fun s hs => (iht s hs (hin s hs)).1) hchain
    have halt := derives_alternate
      (fun ss hss => derives_statements (ha ss hss)
        (fun s hs => (iha ss hss s hs ((hbranch ss hss).2 s hs)).1) (hbranch ss hss).1)
      (fun s hs hcond => (iha [s] hs s (by simp) ((hbranch [s] hs).2 s (by simp))).2 hcond)
    have hcond : Derives Parted .conditional (statementLexemes (.conditional c consequent alternate))
        (plain (.conditional c consequent alternate)) := by
      have he : Derives Parted .expression _ _ := derives_of_isExpression hc 0
      rw [statementLexemes, plain]
      exact .conditional rfl he (derives_block hd) halt
    exact ⟨.branching hcond, fun _ => hcond⟩
  | expression he =>
    have hd : Derives Parted .expression _ _ := derives_of_isExpression he 0
    rw [statementLexemes_of_isExpression he]
    refine ⟨.expression hd, fun hc => ?_⟩
    cases he <;> cases hc

end Node
end LocksetLang
