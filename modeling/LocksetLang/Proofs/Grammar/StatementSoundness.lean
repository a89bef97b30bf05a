import LocksetLang.Proofs.Grammar.Stops

/-! What is taken off the tokens for statements and for whole programs. The rule about neighbours
holds since the statement before has taken in every parenthesis that it could. -/

namespace LocksetLang.Grammar

open LocksetLang.Parser

/-- The tokens `used` end with a semicolon or a closing brace. -/
def Closed (used : List Token) : Prop :=
  ∃ init c, used = init ++ [c] ∧ (c.kind = .semicolon ∨ c.kind = .rightBrace)

/-- The tokens between `ahead` and `rest` are a statement with the tree `v`, and a parenthesis is
left ahead only if they have an end of their own. -/
def ReadsStatement (last : Token) (ahead rest : List Token) (v : Node) : Prop :=
  ∃ used, ahead = used ++ rest ∧ Derives Parted .statement (used.map Token.lexeme) v ∧
    ((rest.headD last).kind = .leftParen → Closed used)

structure StatementsSound (last : Token) (d : Nat) : Prop where
  statements {ahead rest ss} : statements d last ahead = .value ss rest →
    Reads .statements ahead rest ss
  block {name ahead rest ss} : block d name last ahead = .value ss rest →
    Reads .block ahead rest ss
  function {ahead rest v} : (ahead.headD last).kind = .funWord →
    function d last ahead = .value v rest → ReadsStatement last ahead rest v
  alternate {ahead rest a} : alternate d last ahead = .value a rest →
    Reads .alternate ahead rest a
  conditional {ahead rest v} : conditional d last ahead = .value v rest →
    Reads .conditional ahead rest v
  statement {ahead rest v} : statement d last ahead = .value v rest →
    ReadsStatement last ahead rest v

variable {last : Token} {d : Nat} {ahead rest : List Token} {v : Node}

theorem Closed.append {ys : List Token} (xs : List Token) (h : Closed ys) : Closed (xs ++ ys) := by
  obtain ⟨init, c, rfl, hc⟩ := h
  exact ⟨xs ++ init, c, by simp, hc⟩

theorem closed_of_derives {p : Phrase} {used : List Token} {v : p.Tree}
    (h : Derives Parted p (used.map Token.lexeme) v) (hp : p.isSolid) (hb : p.lasts = [.rightBrace]) :
    Closed used := by
  rcases List.eq_nil_or_concat used with rfl | ⟨init, c, rfl⟩
  · exact absurd rfl (h.ne_nil hp)
  · have := h.last_mem c.lexeme (by simp)
    rw [hb, List.mem_singleton] at this
    exact ⟨init, c, by simp, .inr this⟩

theorem Closed.parted {xs ys rest : List Token}
    (h : ((ys ++ rest).headD last).kind = .leftParen → Closed xs) :
    Parted (xs.map Token.lexeme) (ys.map Token.lexeme) := by
  intro hp
  cases ys with
  | nil => cases hp
  | cons y ys =>
    obtain ⟨init, c, rfl, hc⟩ := h (by simpa using hp)
    simpa using hc

theorem declaration_sound (hl : last.kind = .endOfInput)
    (hw : (ahead.headD last).kind = .setWord ∨ (ahead.headD last).kind = .lockWord)
    (h : declaration d last ahead = .value v rest) : ReadsStatement last ahead rest v := by
  obtain ⟨w, ws, rfl, hw⟩ := eq_cons_of_headD_or hl hw (by decide) (by decide)
  rw [declaration, advance_bind, List.headD_cons, List.tail_cons,
    expect_bind_eq_value .declaredName hl (by decide)] at h
  obtain ⟨n, ns, rfl, hn, h⟩ := h
  rw [peek_bind] at h
  split_ifs at h with hs hc
  · rw [advance_bind] at h
    exact absurd h fail_ne_value
  · obtain ⟨s, ss, rfl, hs⟩ := eq_cons_of_headD hl hs (by decide)
    rw [advance_bind, List.tail_cons, return_eq_value] at h
    obtain ⟨rfl, rfl⟩ := h
    have hset : w.kind = .setWord := hw.resolve_right (by simpa using hc)
    exact ⟨[w, n, s], rfl, .declared (w := w.lexeme) (n := n.lexeme) (s := s.lexeme) hset hn hs,
      fun _ => ⟨[w, n], s, rfl, .inl hs⟩⟩
  · rw [expect_bind_eq_value .declaredEquals hl (by decide)] at h
    obtain ⟨q, qs, rfl, hq, h⟩ := h
    rw [bind_eq_value] at h
    obtain ⟨e, mid, hx, h⟩ := h
    obtain ⟨xs, rfl, dx⟩ := (sound hl d).expression hx
    rw [expect_bind_eq_value .declarationEnd hl (by decide)] at h
    obtain ⟨s, ss, rfl, hs, h⟩ := h
    obtain ⟨rfl, rfl⟩ := return_eq_value.1 h
    have da : Derives Parted .statement _ (.declaration n.value (w.kind = .lockWord) (some e)) :=
      .assigned (w := w.lexeme) (n := n.lexeme) (q := q.lexeme) (s := s.lexeme) hw hn hq dx hs
    exact ⟨w :: n :: q :: (xs ++ [s]), by simp, by simpa using da,
      fun _ => ⟨w :: n :: q :: xs, s, by simp, .inl hs⟩⟩

theorem statements_sound (ih : StatementsSound last d)
    {ss : List Node} (h : statements (d + 1) last ahead = .value ss rest) :
    Reads .statements ahead rest ss := by
  rw [statements, atListEnd_bind] at h
  split_ifs at h with he
  · obtain ⟨rfl, rfl⟩ := return_eq_value.1 h
    exact ⟨[], rfl, .noStatements⟩
  · rw [bind_eq_value] at h
    obtain ⟨s, mid, hs, h⟩ := h
    rw [bind_eq_value] at h
    obtain ⟨more, mid', hm, h⟩ := h
    obtain ⟨rfl, rfl⟩ := return_eq_value.1 h
    obtain ⟨xs, rfl, dx, hx⟩ := ih.statement hs
    obtain ⟨ys, rfl, dy⟩ := ih.statements hm
    refine ⟨xs ++ ys, by simp, ?_⟩
    rw [List.map_append]
    exact .statements dx dy (Closed.parted hx)

theorem block_sound (hl : last.kind = .endOfInput) (ih : StatementsSound last d) {name : String}
    {ss : List Node} (h : block (d + 1) name last ahead = .value ss rest) :
    Reads .block ahead rest ss := by
  rw [block, expect_bind_eq_value (.blockStart name) hl (by simp [Demand.kind])] at h
  obtain ⟨o, os, rfl, ho, h⟩ := h
  rw [bind_eq_value] at h
  obtain ⟨body, mid, hb, h⟩ := h
  obtain ⟨xs, rfl, dx⟩ := ih.statements hb
  rw [expect_bind_eq_value (.blockEnd name) hl (by simp [Demand.kind])] at h
  obtain ⟨c, cs, rfl, hc, h⟩ := h
  obtain ⟨rfl, rfl⟩ := return_eq_value.1 h
  exact ⟨o :: (xs ++ [c]), by simp, by simpa using Derives.block ho dx hc⟩

theorem parameterNames_sound {args : List (Token × Node)} : ∀ {names : List String},
    parameterNames args last ahead = .value names rest →
    ahead = rest ∧ args.map (·.2) = names.map .identifier := by
  induction args with
  | nil =>
    intro names h
    obtain ⟨rfl, rfl⟩ := return_eq_value.1 h
    exact ⟨rfl, rfl⟩
  | cons arg args ih =>
    intro names h
    obtain ⟨start, e⟩ := arg
    cases e with
    | identifier name =>
      rw [parameterNames, bind_eq_value] at h
      obtain ⟨more, mid, hm, h⟩ := h
      obtain ⟨rfl, rfl⟩ := return_eq_value.1 h
      obtain ⟨rfl, he⟩ := ih hm
      exact ⟨rfl, by simp [he]⟩
    | _ => exact absurd h fail_ne_value

theorem parameterNames_cases (args : List (Token × Node)) :
    (∃ names, args.map (·.2) = names.map .identifier ∧ parameterNames args = pure names) ∨
      ∃ start, parameterNames args = fail (.parameterNotName start) := by
  induction args with
  | nil => exact .inl ⟨[], rfl, rfl⟩
  | cons arg args ih =>
    obtain ⟨start, e⟩ := arg
    cases e with
    | identifier name =>
      rw [parameterNames]
      rcases ih with ⟨names, hn, h⟩ | ⟨start', h⟩
      · rw [h]
        exact .inl ⟨name :: names, by simp [hn], rfl⟩
      · rw [h]
        exact .inr ⟨start', rfl⟩
    | _ => exact .inr ⟨start, rfl⟩

theorem function_sound (hl : last.kind = .endOfInput) (ih : StatementsSound last d)
    (hw : (ahead.headD last).kind = .funWord)
    (h : function (d + 1) last ahead = .value v rest) : ReadsStatement last ahead rest v := by
  obtain ⟨w, ws, rfl, hw⟩ := eq_cons_of_headD hl hw (by decide)
  rw [function, advance_bind, List.tail_cons, expect_bind_eq_value .functionName hl (by decide)] at h
  obtain ⟨n, ns, rfl, hn, h⟩ := h
  rw [bind_eq_value] at h
  obtain ⟨args, mid, ha, h⟩ := h
  obtain ⟨o, xs, c, rfl, ho, hc, dx⟩ := (sound hl d).locatedArguments ha
  rw [bind_eq_value] at h
  obtain ⟨names, mid', hp, h⟩ := h
  obtain ⟨rfl, he⟩ := parameterNames_sound hp
  rw [he] at dx
  rw [bind_eq_value] at h
  obtain ⟨body, mid', hb, h⟩ := h
  obtain ⟨ys, rfl, dy⟩ := ih.block hb
  obtain ⟨rfl, rfl⟩ := return_eq_value.1 h
  refine ⟨(w :: n :: o :: (xs ++ [c])) ++ ys, by simp, ?_, fun _ => ?_⟩
  · simpa using Derives.function (w := w.lexeme) (n := n.lexeme) (o := o.lexeme) (c := c.lexeme)
      hw hn ho dx hc dy
  · exact (closed_of_derives dy rfl rfl).append _

theorem alternate_sound (hl : last.kind = .endOfInput) (ih : StatementsSound last d)
    {a : Option (List Node)} (h : alternate (d + 1) last ahead = .value a rest) :
    Reads .alternate ahead rest a := by
  rw [alternate, peek_bind] at h
  split_ifs at h with hw
  · obtain ⟨w, ws, rfl, hw⟩ := eq_cons_of_headD hl hw (by decide)
    rw [advance_bind, List.tail_cons, peek_bind] at h
    split_ifs at h with hi
    · rw [bind_eq_value] at h
      obtain ⟨s, mid, hs, h⟩ := h
      obtain ⟨xs, rfl, dx⟩ := ih.conditional hs
      obtain ⟨rfl, rfl⟩ := return_eq_value.1 h
      exact ⟨w :: xs, rfl, .elseIf hw dx⟩
    · rw [bind_eq_value] at h
      obtain ⟨body, mid, hb, h⟩ := h
      obtain ⟨xs, rfl, dx⟩ := ih.block hb
      obtain ⟨rfl, rfl⟩ := return_eq_value.1 h
      exact ⟨w :: xs, rfl, .otherwise hw dx⟩
  · obtain ⟨rfl, rfl⟩ := return_eq_value.1 h
    exact ⟨[], rfl, .noAlternate⟩

theorem conditional_sound (hl : last.kind = .endOfInput) (ih : StatementsSound last d)
    (h : conditional (d + 1) last ahead = .value v rest) : Reads .conditional ahead rest v := by
  rw [conditional, expect_bind_eq_value .ifWord hl (by decide)] at h
  obtain ⟨w, ws, rfl, hw, h⟩ := h
  rw [bind_eq_value] at h
  obtain ⟨e, mid, he, h⟩ := h
  obtain ⟨xs, rfl, dx⟩ := (sound hl d).expression he
  rw [bind_eq_value] at h
  obtain ⟨body, mid, hb, h⟩ := h
  obtain ⟨ys, rfl, dy⟩ := ih.block hb
  rw [bind_eq_value] at h
  obtain ⟨a, mid, ha, h⟩ := h
  obtain ⟨zs, rfl, dz⟩ := ih.alternate ha
  obtain ⟨rfl, rfl⟩ := return_eq_value.1 h
  refine ⟨w :: (xs ++ (ys ++ zs)), by simp, ?_⟩
  simpa using Derives.conditional (w := w.lexeme) hw dx dy dz

theorem expressionStatement_sound (hl : last.kind = .endOfInput)
    (h : expression d last ahead = .value v rest) : ReadsStatement last ahead rest v := by
  obtain ⟨xs, rfl, dx⟩ := (sound hl d).expression h
  refine ⟨xs, rfl, .expression dx, fun hp => ?_⟩
  obtain ⟨init, c, he, hc⟩ := expression_settled hl h hp
  exact ⟨init, c, List.append_cancel_right (by simpa using he), .inr hc⟩

theorem statement_sound (hl : last.kind = .endOfInput) (ih : StatementsSound last d)
    (h : statement (d + 1) last ahead = .value v rest) : ReadsStatement last ahead rest v := by
  rw [statement, peek_bind] at h
  generalize hk : (ahead.headD last).kind = k at h
  cases k with
  | setWord => exact declaration_sound hl (.inl hk) h
  | lockWord => exact declaration_sound hl (.inr hk) h
  | funWord => exact ih.function hk h
  | ifWord =>
    obtain ⟨xs, rfl, dx⟩ := ih.conditional h
    exact ⟨xs, rfl, .branching dx, fun _ => closed_of_derives dx rfl rfl⟩
  | _ => exact expressionStatement_sound hl h

theorem statementsSound (hl : last.kind = .endOfInput) : ∀ d, StatementsSound last d := by
  intro d
  induction d with
  | zero =>
    constructor <;> intros <;> rename_i h <;>
      simp [statements, block, function, alternate, conditional, statement,
        LocksetLang.Parser.unfinished] at h
  | succ d ih =>
    exact {
      statements := statements_sound ih
      block := block_sound hl ih
      function := function_sound hl ih
      alternate := alternate_sound hl ih
      conditional := conditional_sound hl ih
      statement := statement_sound hl ih }

theorem program_sound (hl : last.kind = .endOfInput) : ∀ {d ahead ss},
    program d last ahead = .value ss rest →
    Reads .statements ahead rest ss ∧ (rest.headD last).kind = .endOfInput := by
  intro d
  induction d with
  | zero => intro ahead ss h; rw [program] at h; exact absurd h unfinished_ne_value
  | succ d ih =>
    intro ahead ss h
    rw [program, peek_bind] at h
    split_ifs at h with he
    · obtain ⟨rfl, rfl⟩ := return_eq_value.1 h
      exact ⟨⟨[], rfl, .noStatements⟩, he⟩
    · rw [bind_eq_value] at h
      obtain ⟨s, mid, hs, h⟩ := h
      rw [bind_eq_value] at h
      obtain ⟨more, mid', hm, h⟩ := h
      obtain ⟨rfl, rfl⟩ := return_eq_value.1 h
      obtain ⟨xs, rfl, dx, hx⟩ := (statementsSound hl d).statement hs
      obtain ⟨⟨ys, rfl, dy⟩, hend⟩ := ih hm
      refine ⟨⟨xs ++ ys, by simp, ?_⟩, hend⟩
      rw [List.map_append]
      exact .statements dx dy (Closed.parted hx)

end LocksetLang.Grammar
