import LocksetLang.Proofs.Grammar.Completeness

/-! Statements and whole phrases. In a list of statements the next one starts with a lexeme that no
expression goes on with, unless it is a parenthesis, and then the rule about neighbours says that
the statement before is closed. -/

namespace LocksetLang.Grammar

open LocksetLang.Parser

variable {last : Token} {used : List Token} {e v : Node}

section
variable {w n o c q s : Token} {xs ys zs : List Token} {ss : List Node}
  {joins : List Lexeme → List Lexeme → Prop}

theorem declared_accepts (hw : w.kind = .setWord) (hn : n.kind = .identifier)
    (hs : s.kind = .semicolon) :
    Accepts last .statement [w, n, s] (.declaration n.value false none) := by
  intro rest d _ hd
  obtain ⟨d, rfl, -⟩ := exists_succ_of_le hd
  rw [show [w, n, s] ++ rest = w :: n :: s :: rest from rfl, statement, peek_bind, List.headD_cons,
    hw]
  dsimp only
  rw [declaration, advance_bind, List.headD_cons, List.tail_cons, expect_bind_of_kind hn, peek_bind,
    List.headD_cons, if_pos hs, advance_bind, List.tail_cons, if_neg (by simp [hw])]
  rfl

theorem assigned_accepts (hw : w.kind = .setWord ∨ w.kind = .lockWord) (hn : n.kind = .identifier)
    (hq : q.kind = .equals) (he : Accepts last .expression xs e) (hs : s.kind = .semicolon) :
    Accepts last .statement (w :: n :: q :: (xs ++ [s]))
      (.declaration n.value (w.kind = .lockWord) (some e)) := by
  intro rest d _ hd
  obtain ⟨d, rfl, hd⟩ := exists_succ_of_le hd
  simp only [List.length_cons, List.length_append, List.length_nil] at hd
  have hx := he (s :: rest) d (EndsExpression.of_kind hs (by decide)) (by omega)
  have hdecl : declaration d last (w :: n :: q :: (xs ++ s :: rest)) =
      .value (.declaration n.value (w.kind = .lockWord) (some e)) rest := by
    rw [declaration, advance_bind, List.headD_cons, List.tail_cons, expect_bind_of_kind hn,
      peek_bind, List.headD_cons, if_neg (by simp [hq]), expect_bind_of_kind hq, bind_of_value hx,
      expect_bind_of_kind hs]
    rfl
  rw [show w :: n :: q :: (xs ++ [s]) ++ rest = w :: n :: q :: (xs ++ s :: rest) by simp,
    statement, peek_bind, List.headD_cons]
  rcases hw with hw | hw
  · rw [hw] at hdecl ⊢
    exact hdecl
  · rw [hw] at hdecl ⊢
    exact hdecl

theorem parameterNames_of_map {names : List String} {rest : List Token} :
    ∀ {as : List (Token × Node)}, as.map (·.2) = names.map .identifier →
    parameterNames as last rest = .value names rest := by
  induction names with
  | nil =>
    intro as h
    rw [List.map_eq_nil_iff.1 h]
    rfl
  | cons name names ih =>
    intro as h
    obtain ⟨⟨start, e⟩, more, rfl, rfl, hm⟩ := List.map_eq_cons_iff.1 h
    rw [parameterNames, bind_of_value (ih hm)]
    rfl

theorem function_accepts {names : List String} (hw : w.kind = .funWord)
    (hn : n.kind = .identifier) (ho : o.kind = .leftParen)
    (hp : Accepts last .arguments xs (names.map .identifier)) (hc : c.kind = .rightParen)
    (hb : Accepts last .block ys ss) :
    Accepts last .statement (w :: n :: o :: (xs ++ c :: ys)) (.function n.value names ss) := by
  intro rest d _ hd
  obtain ⟨d, rfl, hd⟩ := exists_succ_of_le hd
  obtain ⟨d, rfl, hd⟩ := exists_succ_of_le (n := 16 * xs.length + 16 * ys.length + 10)
    (d := d) (by simp at hd; omega)
  obtain ⟨as, hx, has⟩ := hp o c (ys ++ rest) d ho hc (by omega)
  rw [show w :: n :: o :: (xs ++ c :: ys) ++ rest = w :: n :: o :: (xs ++ c :: (ys ++ rest)) by simp,
    statement, peek_bind, List.headD_cons, hw]
  dsimp only
  rw [function, advance_bind, List.tail_cons, expect_bind_of_kind hn, bind_of_value hx,
    bind_of_value (parameterNames_of_map has), bind_of_value (hb _ rest d (by omega))]
  rfl

theorem branching_accepts (hd : Derives joins .conditional (used.map Token.lexeme) v)
    (hv : Accepts last .conditional used v) : Accepts last .statement used v := by
  intro rest d hends hdepth
  obtain ⟨d, rfl, hdepth⟩ := exists_succ_of_le hdepth
  have hw : ((used ++ rest).headD last).kind = .ifWord :=
    List.mem_singleton.1 (headD_of_first hd rfl)
  have hne : (rest.headD last).kind ≠ .elseWord := fun h => absurd (h ▸ hends.1) (by decide)
  rw [statement, peek_bind, hw]
  exact hv rest d hne (by omega)

theorem expressionStatement_accepts (hd : Derives joins .expression (used.map Token.lexeme) e)
    (he : Accepts last .expression used e) : Accepts last .statement used e := by
  intro rest d ⟨hk, hp⟩ hdepth
  obtain ⟨d, rfl, hdepth⟩ := exists_succ_of_le hdepth
  have hends : EndsExpression used (rest.headD last) := by
    refine ⟨⟨?_, ?_, ?_, fun h => ?_⟩, ?_⟩
    · exact fun h => absurd (h ▸ hk) (by decide)
    · exact fun h => absurd (h ▸ hk) (by decide)
    · exact fun h => absurd (h ▸ hk) (by decide)
    · exact (hp h).resolve_left fun hs => absurd (lasts_of_endsWith hd hs) (by decide)
    · exact fun h => absurd (h ▸ hk) (by decide)
  have hfirst : ((used ++ rest).headD last).kind ∈ Phrase.firsts .expression :=
    headD_of_first hd rfl
  rw [statement, peek_bind]
  generalize ((used ++ rest).headD last).kind = k at hfirst
  simp only [Phrase.firsts, operandStarts, List.mem_cons, List.not_mem_nil, or_false] at hfirst
  rcases hfirst with rfl | rfl | rfl | rfl | rfl <;> exact he rest d hends (by omega)

theorem noStatements_accepts : Accepts last .statements [] [] := by
  intro rest d hd
  obtain ⟨d, rfl, -⟩ := exists_succ_of_le hd
  constructor
  · intro hend
    rw [List.nil_append, statements, atListEnd_bind, if_pos]
    · rfl
    · simpa [or_comm] using hend
  · intro hend
    rw [List.nil_append, program, peek_bind, if_pos hend]
    rfl

/-- A rule about neighbours says what a parenthesis stands behind. -/
theorem EndsStatement.of_parted {rest : List Token}
    (hd : Derives joins .statements (ys.map Token.lexeme) ss)
    (hj : Parted (xs.map Token.lexeme) (ys.map Token.lexeme))
    (hend : (rest.headD last).kind ∈ [.rightBrace, .endOfInput]) :
    EndsStatement xs ((ys ++ rest).headD last) := by
  cases ys with
  | nil =>
    rw [List.nil_append]
    generalize (rest.headD last) = t at hend
    refine ⟨List.mem_append_left _ hend, fun hp => ?_⟩
    rw [hp] at hend
    exact absurd hend (by decide)
  | cons y ys =>
    have hfirst : y.kind ∈ Phrase.firsts .statement := hd.first_mem y.lexeme (by simp)
    refine ⟨.tail _ (.tail _ hfirst), fun hp => ?_⟩
    have hlast : ∀ k, (xs.map Token.lexeme).getLast?.map Lexeme.kind = some k → EndsWith k xs := by
      intro k hk
      rcases List.eq_nil_or_concat xs with rfl | ⟨init, c, rfl⟩
      · cases hk
      · exact ⟨c, by simp, by simpa using hk⟩
    exact (hj (by simpa using hp)).imp (hlast _) (hlast _)

theorem headD_of_statement (last : Token) (rest : List Token)
    (h : Derives joins .statement (xs.map Token.lexeme) v) :
    ((xs ++ rest).headD last).kind ≠ .endOfInput ∧ ((xs ++ rest).headD last).kind ≠ .rightBrace :=
  have hfirst : ((xs ++ rest).headD last).kind ∈ Phrase.firsts .statement := headD_of_first h rfl
  ⟨fun h => absurd (h ▸ hfirst) (by decide), fun h => absurd (h ▸ hfirst) (by decide)⟩

theorem statements_accepts (hd : Derives joins .statement (xs.map Token.lexeme) v)
    (hds : Derives joins .statements (ys.map Token.lexeme) ss)
    (hj : Parted (xs.map Token.lexeme) (ys.map Token.lexeme))
    (hv : Accepts last .statement xs v) (hss : Accepts last .statements ys ss) :
    Accepts last .statements (xs ++ ys) (v :: ss) := by
  intro rest d hdepth
  obtain ⟨d, rfl, hdepth⟩ := exists_succ_of_le hdepth
  have hx : 0 < xs.length := by simpa [List.length_pos_iff] using hd.ne_nil rfl
  obtain ⟨hin, hbrace⟩ := headD_of_statement last (ys ++ rest) hd
  rw [List.length_append] at hdepth
  rw [List.append_assoc]
  constructor
  · intro hend
    rw [statements, atListEnd_bind, decide_eq_false hin, decide_eq_false hbrace,
      if_neg (by decide), bind_of_value (hv _ d (.of_parted hds hj hend) (by omega)),
      bind_of_value ((hss rest d (by omega)).1 hend)]
    rfl
  · intro hend
    rw [program, peek_bind, if_neg hin,
      bind_of_value (hv _ d (.of_parted hds hj (by rw [hend]; decide)) (by omega)),
      bind_of_value ((hss rest d (by omega)).2 hend)]
    rfl

theorem block_accepts (ho : o.kind = .leftBrace) (hs : Accepts last .statements xs ss)
    (hc : c.kind = .rightBrace) : Accepts last .block (o :: (xs ++ [c])) ss := by
  intro name rest d hd
  obtain ⟨d, rfl, hd⟩ := exists_succ_of_le hd
  simp only [List.length_cons, List.length_append, List.length_nil] at hd
  have hx := (hs (c :: rest) d (by omega)).1 (by simp [hc])
  rw [List.cons_append, List.append_assoc, List.singleton_append, block,
    expect_bind_of_kind (d := .blockStart name) ho, bind_of_value hx,
    expect_bind_of_kind (d := .blockEnd name) hc]
  rfl

theorem noAlternate_accepts : Accepts last .alternate [] none := by
  intro rest d hne hd
  obtain ⟨d, rfl, -⟩ := exists_succ_of_le hd
  rw [List.nil_append, alternate, peek_bind, if_neg hne]
  rfl

theorem elseIf_accepts (hw : w.kind = .elseWord)
    (hd : Derives joins .conditional (xs.map Token.lexeme) v)
    (hv : Accepts last .conditional xs v) : Accepts last .alternate (w :: xs) (some [v]) := by
  intro rest d hne hdepth
  obtain ⟨d, rfl, hdepth⟩ := exists_succ_of_le hdepth
  have hif : ((xs ++ rest).headD last).kind = .ifWord :=
    List.mem_singleton.1 (headD_of_first hd rfl)
  rw [List.length_cons] at hdepth
  rw [List.cons_append, alternate, peek_bind, List.headD_cons, if_pos hw, advance_bind,
    List.tail_cons, peek_bind, if_pos hif, bind_of_value (hv rest d hne (by omega))]
  rfl

theorem otherwise_accepts (hw : w.kind = .elseWord)
    (hd : Derives joins .block (xs.map Token.lexeme) ss) (hs : Accepts last .block xs ss) :
    Accepts last .alternate (w :: xs) (some ss) := by
  intro rest d _ hdepth
  obtain ⟨d, rfl, hdepth⟩ := exists_succ_of_le hdepth
  have hbrace : ((xs ++ rest).headD last).kind = .leftBrace :=
    List.mem_singleton.1 (headD_of_first hd rfl)
  rw [List.length_cons] at hdepth
  rw [List.cons_append, alternate, peek_bind, List.headD_cons, if_pos hw, advance_bind,
    List.tail_cons, peek_bind, if_neg (by rw [hbrace]; decide), bind_of_value (hs _ rest d (by omega))]
  rfl

theorem conditional_accepts {a : Option (List Node)} (hw : w.kind = .ifWord)
    (he : Accepts last .expression xs e) (hd : Derives joins .block (ys.map Token.lexeme) ss)
    (hs : Accepts last .block ys ss) (ha : Accepts last .alternate zs a) :
    Accepts last .conditional (w :: (xs ++ (ys ++ zs))) (.conditional e ss a) := by
  intro rest d hne hdepth
  obtain ⟨d, rfl, hdepth⟩ := exists_succ_of_le hdepth
  simp only [List.length_cons, List.length_append] at hdepth
  have hbrace : ((ys ++ (zs ++ rest)).headD last).kind = .leftBrace :=
    List.mem_singleton.1 (headD_of_first hd rfl)
  have hx := he (ys ++ (zs ++ rest)) d (EndsExpression.of_kind hbrace (by decide)) (by omega)
  rw [show w :: (xs ++ (ys ++ zs)) ++ rest = w :: (xs ++ (ys ++ (zs ++ rest))) by simp, conditional,
    expect_bind_of_kind hw, bind_of_value hx, bind_of_value (hs _ _ d (by omega)),
    bind_of_value (ha rest d hne (by omega))]
  rfl

end

/-- The productions are complete: they take any phrase off the tokens that spell it. -/
theorem accepts_of_derives {p : Phrase} {ls : List Lexeme} {v : p.Tree} (h : Derives Parted p ls v) :
    ∀ {used : List Token}, used.map Token.lexeme = ls → Accepts last p used v := by
  -- the tokens fall into parts as their lexemes do
  induction h <;> intro used hu <;>
    try simp only [List.map_eq_append_iff, List.map_eq_cons_iff, List.map_eq_nil_iff] at hu
  case identifier ht =>
    obtain ⟨t, _, rfl, rfl, rfl⟩ := hu
    exact identifier_accepts ht
  case number ht hx hf =>
    obtain ⟨t, _, rfl, rfl, rfl⟩ := hu
    exact number_accepts ht hx hf
  case string ht =>
    obtain ⟨t, _, rfl, rfl, rfl⟩ := hu
    exact string_accepts ht
  case group ho _ hc ih =>
    obtain ⟨o, _, rfl, rfl, xs, _, rfl, rfl, c, _, rfl, rfl, rfl⟩ := hu
    exact group_accepts ho (ih rfl) hc
  case comparison ho _ hs _ hc ihl ihr =>
    obtain ⟨o, _, rfl, rfl, xs, _, rfl, rfl, s, _, rfl, rfl, ys, _, rfl, rfl, c, _, rfl, rfl, rfl⟩ := hu
    exact comparison_accepts ho (ihl rfl) hs (ihr rfl) hc
  case primary _ ih => exact operand_accepts (ih hu)
  case memberName _ hd hn ih =>
    obtain ⟨xs, _, rfl, rfl, d, _, rfl, rfl, n, _, rfl, rfl, rfl⟩ := hu
    exact memberName_accepts (ih rfl) hd hn
  case memberIndex _ ho _ hc ih ihi =>
    obtain ⟨xs, _, rfl, rfl, o, _, rfl, rfl, ys, _, rfl, rfl, c, _, rfl, rfl, rfl⟩ := hu
    exact memberIndex_accepts (ih rfl) ho (ihi rfl) hc
  case call _ ho _ hc ih iha =>
    obtain ⟨xs, _, rfl, rfl, o, _, rfl, rfl, ys, _, rfl, rfl, c, _, rfl, rfl, rfl⟩ := hu
    exact call_accepts (ih rfl) ho (iha rfl) hc
  case factor _ ih => exact factor_accepts (ih hu)
  case product _ ho hv _ ihl ihr =>
    obtain ⟨xs, _, rfl, rfl, o, _, rfl, rfl, rfl⟩ := hu
    exact product_accepts (ihl rfl) ho hv (ihr rfl)
  case term _ ih => exact term_accepts (ih hu)
  case sum _ ho hv _ ihl ihr =>
    obtain ⟨xs, _, rfl, rfl, o, _, rfl, rfl, rfl⟩ := hu
    exact sum_accepts (ihl rfl) ho hv (ihr rfl)
  case operand hd ih => subst hu; exact sum_object_accepts (hd) (ih rfl)
  case object ho _ hc ih =>
    obtain ⟨o, _, rfl, rfl, xs, _, rfl, rfl, c, _, rfl, rfl, rfl⟩ := hu
    exact object_accepts ho (ih rfl) hc
  case target _ ih => exact target_accepts (ih hu)
  case assignment _ hq hv iht ihv =>
    obtain ⟨xs, _, rfl, rfl, q, _, rfl, rfl, rfl⟩ := hu
    exact assignment_accepts (iht rfl) hq (by simpa using hv.ne_nil rfl) (ihv rfl)
  case oneArgument _ ih => exact oneArgument_accepts (ih hu)
  case moreArguments _ hc _ ih ihs =>
    obtain ⟨xs, _, rfl, rfl, c, _, rfl, rfl, rfl⟩ := hu
    exact moreArguments_accepts (ih rfl) hc (ihs rfl)
  case noArguments =>
    subst hu
    exact noArguments_accepts
  case arguments hd ih => subst hu; exact arguments_accepts (hd) (ih rfl)
  case noEntries =>
    subst hu
    exact noEntries_accepts
  case lastKey hk =>
    obtain ⟨k, _, rfl, rfl, rfl⟩ := hu
    exact lastKey_accepts hk
  case key hk hc _ ih =>
    obtain ⟨k, _, rfl, rfl, c, _, rfl, rfl, rfl⟩ := hu
    exact key_accepts hk hc (ih rfl)
  case lastEntry hk hs _ ih =>
    obtain ⟨k, _, rfl, rfl, s, _, rfl, rfl, rfl⟩ := hu
    exact lastEntry_accepts hk hs (ih rfl)
  case entry hk hs _ hc _ ih ihp =>
    obtain ⟨k, _, rfl, rfl, s, _, rfl, rfl, xs, _, rfl, rfl, c, _, rfl, rfl, rfl⟩ := hu
    exact entry_accepts hk hs (ih rfl) hc (ihp rfl)
  case declared hw hn hs =>
    obtain ⟨w, _, rfl, rfl, n, _, rfl, rfl, s, _, rfl, rfl, rfl⟩ := hu
    exact declared_accepts hw hn hs
  case assigned hw hn hq _ hs ih =>
    obtain ⟨w, _, rfl, rfl, n, _, rfl, rfl, q, _, rfl, rfl, xs, _, rfl, rfl, s, _, rfl, rfl, rfl⟩ := hu
    exact assigned_accepts hw hn hq (ih rfl) hs
  case function hw hn ho _ hc _ ihp ihb =>
    obtain ⟨w, _, rfl, rfl, n, _, rfl, rfl, o, _, rfl, rfl, xs, _, rfl, rfl, c, _, rfl, rfl, rfl⟩ := hu
    exact function_accepts hw hn ho (ihp rfl) hc (ihb rfl)
  case branching hd ih => subst hu; exact branching_accepts (hd) (ih rfl)
  case expression hd ih => subst hu; exact expressionStatement_accepts (hd) (ih rfl)
  case noStatements =>
    subst hu
    exact noStatements_accepts
  case statements hd hds hj ih ihs =>
    obtain ⟨xs, _, rfl, rfl, rfl⟩ := hu
    exact statements_accepts hd hds hj (ih rfl) (ihs rfl)
  case block ho _ hc ih =>
    obtain ⟨o, _, rfl, rfl, xs, _, rfl, rfl, c, _, rfl, rfl, rfl⟩ := hu
    exact block_accepts ho (ih rfl) hc
  case noAlternate =>
    subst hu
    exact noAlternate_accepts
  case elseIf hw hd ih =>
    obtain ⟨w, _, rfl, rfl, rfl⟩ := hu
    exact elseIf_accepts hw hd (ih rfl)
  case otherwise hw hd ih =>
    obtain ⟨w, _, rfl, rfl, rfl⟩ := hu
    exact otherwise_accepts hw hd (ih rfl)
  case conditional hw _ hd _ ihe ihs iha =>
    obtain ⟨w, _, rfl, rfl, xs, _, rfl, rfl, ys, _, rfl, rfl, rfl⟩ := hu
    exact conditional_accepts hw (ihe rfl) hd (ihs rfl) (iha rfl)

end LocksetLang.Grammar
