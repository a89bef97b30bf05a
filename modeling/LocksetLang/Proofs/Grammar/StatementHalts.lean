import LocksetLang.Proofs.Grammar.ExpressionHalts
import LocksetLang.Proofs.Grammar.StatementCompleteness
import LocksetLang.Proofs.Grammar.StatementSoundness

/-! Where the productions for statements, and for whole programs, halt. Parameters are read as
arguments, so a list of them that has begun need not go on to a list of names. Then it goes on to
one that the function refuses as soon as it is closed. -/

namespace LocksetLang.Grammar

open LocksetLang.Parser

structure StatementsHalt (last : Token) (d : Nat) : Prop where
  statements ahead : Halts (GoesOn .statements []) statements d last ahead
  block name ahead : Halts (GoesOn .block []) (block · name) d last ahead
  function {ahead} : (ahead.headD last).kind = .funWord →
    Halts (GoesOn .statement []) function d last ahead
  alternate ahead : Halts (GoesOn .alternate []) alternate d last ahead
  conditional ahead : Halts (GoesOn .conditional []) conditional d last ahead
  statement ahead : Halts (GoesOn .statement []) statement d last ahead

variable {last w n : Token} {d : Nat} {ahead : List Token} {viable : List Token → Prop}

theorem declaration_halts (hl : last.kind = .endOfInput)
    (hw : (ahead.headD last).kind = .setWord ∨ (ahead.headD last).kind = .lockWord) :
    Halts (GoesOn .statement []) declaration d last ahead := by
  obtain ⟨w, ws, rfl, hw⟩ := eq_cons_of_headD_or hl hw (by decide) (by decide)
  change Halts _ (fun e => declaration e) d last _
  simp only [declaration]
  refine .advance_bind (.expect_bind hl (by decide) (Begins.declaration (w := w.lexeme) hw)
    fun {n rest} _ hn => .peek_bind (.ite (fun hs => ?_) fun _ => ?_))
  · obtain ⟨s, ss, rfl, hs⟩ := eq_cons_of_headD hl hs (by decide)
    refine .advance_bind (.ite (fun _ => .fail trivial fun h => ?_) fun _ => .return)
    cases h
  · refine .expect_bind hl (by decide) (Begins.declaredName (w := w.lexeme) (n := n.lexeme) hw hn)
      fun {q rest} _ hq => ?_
    have hv {us} (h : Begins .expression us) :
        Begins .statement (w.lexeme :: n.lexeme :: q.lexeme :: us) := .value hw hn hq h
    refine .bind_of (sound hl d).expression
      (((expressionsHalt hl d).expression _).mono fun us _ _ h => hv h) fun {e xs rest} dx =>
        .expect_bind hl (by decide) ?_ fun _ _ => .return
    simpa [GoesOn] using hv dx.begins

theorem statements_halts (hl : last.kind = .endOfInput) (ih : StatementsHalt last d) :
    Halts (GoesOn .statements []) statements (d + 1) last ahead := by
  refine .succ ?_
  simp only [statements]
  refine .atListEnd_bind (.ite (fun _ => .return) fun _ => ?_)
  refine .bind_of (statementsSound hl d).statement
    ((ih.statement _).mono fun _ _ _ h => .oneStatement h) fun {s xs rest} hs => ?_
  refine .bind ((ih.statements _).mono fun us mid he h => ?_) fun _ _ => .return
  obtain ⟨dx, hx⟩ := hs
  subst he
  simpa [GoesOn] using Begins.moreStatements dx (Closed.parted hx) h

theorem block_halts (hl : last.kind = .endOfInput) (ih : StatementsHalt last d) (name : String) :
    Halts (GoesOn .block []) (block · name) (d + 1) last ahead := by
  refine .succ ?_
  simp only [block]
  refine .expect_bind hl (by simp [Demand.kind]) begins_block fun {o rest} _ ho => ?_
  refine .bind_of (statementsSound hl d).statements ((ih.statements _).mono ?_)
    fun {ss xs rest} dx => .expect_bind hl (by simp [Demand.kind]) ?_ fun _ _ => .return
  · exact fun us _ _ h => .block (o := o.lexeme) ho h
  · simpa [GoesOn] using Begins.block (o := o.lexeme) ho dx.begins

theorem parameterNames_halts (args : List (Token × Node)) :
    Halts viable (fun _ => parameterNames args) d last ahead := by
  rcases parameterNames_cases args with ⟨names, -, h⟩ | ⟨start, h⟩
  · rw [h]
    exact .return
  · rw [h]
    exact .fail trivial nofun

theorem function_refuses {o c : Token} {xs rest : List Token} {as : List Node}
    (hn : n.kind = .identifier) (ho : o.kind = .leftParen) (hc : c.kind = .rightParen)
    (h : Derives Parted .arguments (xs.map Token.lexeme) as)
    (hnames : ∀ names : List String, as ≠ names.map .identifier)
    (hd : 16 * xs.length + 11 ≤ d) :
    ∃ start left, function d last (w :: n :: o :: (xs ++ c :: rest)) =
      .fault (.parameterNotName start) left := by
  obtain ⟨d, rfl⟩ : ∃ d', d = d' + 1 := ⟨d - 1, by omega⟩
  have hacc : Accepts last .arguments xs as := accepts_of_derives h rfl
  obtain ⟨args, hargs, hmap⟩ := hacc o c rest d ho hc (by omega)
  rcases parameterNames_cases args with ⟨names, hn, -⟩ | ⟨start, hs⟩
  · exact absurd (hmap.symm.trans hn) (hnames names)
  · refine ⟨start, rest, ?_⟩
    rw [function, advance_bind, List.tail_cons, expect_bind_of_kind hn, bind_of_value hargs, hs]
    rfl

/-- Arguments that have begun behind the name of a function go on to parameters, or to something
that the function refuses. -/
theorem parameters_viable {us : List Token} (hw : w.kind = .funWord) (hn : n.kind = .identifier)
    (h : BeginsArguments (us.map Token.lexeme)) :
    GoesOn .statement [] (w :: n :: us) ∨ Objects function (w :: n :: us) := by
  obtain ⟨more, o, ys, c, as, hus, ho, hc, h⟩ := h
  by_cases hnames : ∃ names : List String, as = names.map .identifier
  · left
    obtain ⟨names, rfl⟩ := hnames
    obtain ⟨more', v, h'⟩ :=
      Begins.body (w := w.lexeme) (n := n.lexeme) hw hn ho h hc begins_block
    refine ⟨more ++ more', v, ?_⟩
    simpa [← hus] using h'
  · right
    have hmore : (us ++ more.map Lexeme.token).map Token.lexeme = o :: (ys ++ [c]) := by
      rw [List.map_append, map_lexeme_token, hus]
    obtain ⟨o, os, hos, rfl, hos'⟩ := List.map_eq_cons_iff.1 hmore
    obtain ⟨xs, cs, rfl, rfl, hcs⟩ := List.map_eq_append_iff.1 hos'
    obtain ⟨c, cs', rfl, rfl, hnil⟩ := List.map_eq_cons_iff.1 hcs
    obtain rfl := List.map_eq_nil_iff.1 hnil
    refine ⟨by simp, more.map Lexeme.token, 16 * xs.length + 11, fun hd hl => ?_⟩
    have hall {rest} : w :: n :: us ++ (more.map Lexeme.token ++ rest) =
        w :: n :: o :: (xs ++ c :: rest) := by
      simpa using congrArg (w :: n :: · ++ rest) hos
    rw [hall]
    exact function_refuses hn ho hc h (fun names he => hnames ⟨names, he⟩) hd

theorem function_halts (hl : last.kind = .endOfInput) (ih : StatementsHalt last d)
    (hw : (ahead.headD last).kind = .funWord) :
    Halts (GoesOn .statement []) function (d + 1) last ahead := by
  obtain ⟨w, ws, rfl, hw⟩ := eq_cons_of_headD hl hw (by decide)
  refine .of_objects (.succ ?_)
  simp only [function]
  refine .advance_bind (.expect_bind hl (by decide) (.inl (Begins.function (w := w.lexeme) hw))
    fun {n rest} _ hn => ?_)
  refine .bind_of (r := fun used args _ => ∃ o xs c, used = o :: (xs ++ [c]) ∧
    o.kind = .leftParen ∧ c.kind = .rightParen ∧
    Derives Parted .arguments (xs.map Token.lexeme) (args.map (·.2))) ?_
    (((expressionsHalt hl d).locatedArguments _).mono fun _ _ _ => parameters_viable hw hn)
    fun {args used rest} hargs => ?_
  · intro args rest h
    obtain ⟨o, xs, c, rfl, ho, hc, dx⟩ := (sound hl d).locatedArguments h
    exact ⟨o :: (xs ++ [c]), by simp, o, xs, c, rfl, ho, hc, dx⟩
  · obtain ⟨o, xs, c, rfl, ho, hc, dx⟩ := hargs
    refine .bind_of (r := fun used names _ => used = [] ∧
      args.map (·.2) = names.map .identifier) ?_ (parameterNames_halts args)
      fun {names used rest} hnames => ?_
    · intro names rest h
      obtain ⟨rfl, he⟩ := parameterNames_sound h
      exact ⟨[], rfl, rfl, he⟩
    · obtain ⟨rfl, he⟩ := hnames
      rw [he] at dx
      refine .bind ((ih.block _ _).mono fun us _ _ h => .inl ?_) fun _ _ => .return
      simpa [GoesOn] using Begins.body (w := w.lexeme) (n := n.lexeme) (o := o.lexeme)
        (c := c.lexeme) hw hn ho dx hc h

theorem alternate_halts (hl : last.kind = .endOfInput) (ih : StatementsHalt last d) :
    Halts (GoesOn .alternate []) alternate (d + 1) last ahead := by
  refine .succ ?_
  simp only [alternate]
  refine .peek_bind (.ite (fun hw => ?_) fun _ => .return)
  obtain ⟨w, ws, rfl, hw⟩ := eq_cons_of_headD hl hw (by decide)
  refine .advance_bind (.peek_bind (.ite (fun _ => ?_) fun _ => ?_))
  · exact .bind ((ih.conditional _).mono fun us _ _ h => .elseIf (w := w.lexeme) hw h)
      fun _ _ => .return
  · exact .bind ((ih.block _ _).mono fun us _ _ h => .otherwise (w := w.lexeme) hw h)
      fun _ _ => .return

theorem conditional_halts (hl : last.kind = .endOfInput) (ih : StatementsHalt last d) :
    Halts (GoesOn .conditional []) conditional (d + 1) last ahead := by
  refine .succ ?_
  simp only [conditional]
  refine .expect_bind hl (by decide) begins_conditional fun {w rest} _ hw => ?_
  refine .bind_of (sound hl d).expression (((expressionsHalt hl d).expression _).mono ?_)
    fun {e xs rest} dx => ?_
  · exact fun us _ _ h => .condition (w := w.lexeme) hw h
  refine .bind_of (statementsSound hl d).block ((ih.block _ _).mono fun us _ _ h => ?_)
    fun {ss ys rest} dy => ?_
  · simpa [GoesOn] using Begins.consequent (w := w.lexeme) hw dx h
  · refine .bind ((ih.alternate _).mono fun us _ _ h => ?_) fun _ _ => .return
    simpa [GoesOn] using Begins.alternate (w := w.lexeme) hw dx dy h

theorem statement_halts (hl : last.kind = .endOfInput) (ih : StatementsHalt last d) :
    Halts (GoesOn .statement []) statement (d + 1) last ahead := by
  refine .succ ?_
  simp only [statement]
  refine .peek_bind ?_
  generalize hk : (ahead.headD last).kind = k
  cases k with
  | setWord => exact declaration_halts hl (.inl hk)
  | lockWord => exact declaration_halts hl (.inr hk)
  | funWord => exact ih.function hk
  | ifWord => exact (ih.conditional _).mono fun _ _ _ h => .branching h
  | _ => exact ((expressionsHalt hl d).expression _).mono fun _ _ _ h => .statement h

theorem statementsHalt (hl : last.kind = .endOfInput) : ∀ d, StatementsHalt last d := by
  intro d
  induction d with
  | zero => constructor <;> intros <;> exact .of_unfinished rfl
  | succ d ih =>
    exact {
      statements := fun _ => statements_halts hl ih
      block := fun name _ => block_halts hl ih name
      function := function_halts hl ih
      alternate := fun _ => alternate_halts hl ih
      conditional := fun _ => conditional_halts hl ih
      statement := fun _ => statement_halts hl ih }

theorem program_halts (hl : last.kind = .endOfInput) : ∀ {d ahead},
    Halts (GoesOn .statements []) program d last ahead := by
  intro d
  induction d with
  | zero => exact .of_unfinished rfl
  | succ d ih =>
    intro ahead
    refine .succ ?_
    simp only [program]
    refine .peek_bind (.ite (fun _ => .return) fun _ => ?_)
    refine .bind_of (statementsSound hl d).statement
      (((statementsHalt hl d).statement _).mono fun _ _ _ h => .oneStatement h)
      fun {s xs rest} hs => ?_
    refine .bind (ih.mono fun us mid he h => ?_) fun _ _ => .return
    obtain ⟨dx, hx⟩ := hs
    subst he
    simpa [GoesOn] using Begins.moreStatements dx (Closed.parted hx) h

end LocksetLang.Grammar
