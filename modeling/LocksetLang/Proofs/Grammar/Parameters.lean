import LocksetLang.Proofs.Grammar.EarliestFault

/-! The parameters of a function are read as arguments and checked before anything behind them is
looked at. Of arguments that are not all names the leftmost that is none is reported, at its first
token, whatever follows the closing parenthesis. -/

namespace LocksetLang

open Grammar LocksetLang.Parser

/-- The tokens are arguments with commas between them: to each belong its first token and its
tree. -/
inductive ListsArguments : List Token → List (Token × Node) → Prop where
  | one {t : Token} {ts : List Token} {e : Node}
    (he : Derives Parted .expression ((t :: ts).map Token.lexeme) e) :
    ListsArguments (t :: ts) [(t, e)]
  | more {t c : Token} {ts us : List Token} {e : Node} {args : List (Token × Node)}
    (he : Derives Parted .expression ((t :: ts).map Token.lexeme) e) (hc : c.kind = .comma)
    (hs : ListsArguments us args) :
    ListsArguments (t :: ts ++ c :: us) ((t, e) :: args)

variable {used rest : List Token} {args : List (Token × Node)} {w n o c last start : Token}
  {e : Node} {d : Nat}

theorem ListsArguments.derives (h : ListsArguments used args) :
    Derives Parted .argumentList (used.map Token.lexeme) (args.map (·.2)) := by
  induction h with
  | one he => exact .oneArgument he
  | @more t c ts us e args he hc _ ih =>
    rw [List.map_append, List.map_cons]
    exact .moreArguments he hc ih

theorem Derives.exists_first {used : List Token}
    (h : Derives Parted .expression (used.map Token.lexeme) e) : ∃ t ts, used = t :: ts :=
  List.exists_cons_of_ne_nil (by simpa using h.ne_nil rfl)

theorem exists_listsArguments {es : List Node} :
    ∀ {ls : List Lexeme} {used : List Token}, Derives Parted .argumentList ls es →
      used.map Token.lexeme = ls → ∃ args, ListsArguments used args ∧ args.map (·.2) = es := by
  induction es with
  | nil =>
    intro ls used h
    cases h
  | cons e es ih =>
    intro ls used h hu
    cases h with
    | oneArgument he =>
      subst hu
      obtain ⟨t, ts, rfl⟩ := he.exists_first
      exact ⟨_, .one he, rfl⟩
    | moreArguments he hc hs =>
      obtain ⟨xs, us, rfl, rfl, hcons⟩ := List.map_eq_append_iff.1 hu
      obtain ⟨c, us, rfl, rfl, rfl⟩ := List.map_eq_cons_iff.1 hcons
      obtain ⟨t, ts, rfl⟩ := he.exists_first
      obtain ⟨args, hl, rfl⟩ := ih hs rfl
      exact ⟨_, .more he hc hl, rfl⟩

namespace Grammar

theorem argumentList_located (h : ListsArguments used args) :
    ∀ d, 16 * used.length + 9 ≤ d → c.kind = .rightParen →
      argumentList d last (used ++ c :: rest) = .value args (c :: rest) := by
  induction h with
  | @one t ts e he =>
    intro d hd hc
    obtain ⟨d, rfl, hd⟩ := exists_succ_of_le hd
    have ha : Accepts last .expression (t :: ts) e := accepts_of_derives he rfl
    have hx := ha (c :: rest) d (.of_kind hc (by decide)) (by omega)
    rw [argumentList, peek_bind, bind_of_value hx, peek_bind, List.headD_cons,
      if_neg (by simp [hc])]
    rfl
  | @more t s ts us e args he hs _ ih =>
    intro d hd hc
    obtain ⟨d, rfl, hd⟩ := exists_succ_of_le hd
    simp only [List.length_cons, List.length_append] at hd
    have ha : Accepts last .expression (t :: ts) e := accepts_of_derives he rfl
    have hx := ha (s :: (us ++ c :: rest)) d (.of_kind hs (by decide)) (by simp; omega)
    have hall : t :: ts ++ s :: us ++ c :: rest = t :: ts ++ s :: (us ++ c :: rest) := by simp
    rw [hall, argumentList, peek_bind, bind_of_value hx, peek_bind, List.headD_cons, if_pos hs,
      advance_bind, List.tail_cons, bind_of_value (ih d (by omega) hc)]
    rfl

theorem locatedArguments_located (h : ListsArguments used args) (ho : o.kind = .leftParen)
    (hc : c.kind = .rightParen) (hdepth : 16 * used.length + 10 ≤ d) :
    locatedArguments d last (o :: (used ++ c :: rest)) = .value args rest := by
  obtain ⟨d, rfl, hd⟩ := exists_succ_of_le hdepth
  have hne : ((used ++ c :: rest).headD last).kind ≠ .rightParen := fun hk =>
    absurd (hk ▸ headD_of_first h.derives rfl) (by decide)
  rw [locatedArguments, expect_bind_of_kind ho, peek_bind, if_neg hne,
    bind_of_value (argumentList_located h d hd hc)]
  dsimp only
  rw [expect_bind_of_kind hc]
  rfl

/-- Names before the leftmost argument that is none do not hide it. -/
theorem parameterNames_refuse
    (h : args.find? (fun a => !a.2.isIdentifier) = some (start, e)) :
    parameterNames args = fail (.parameterNotName start) := by
  induction args with
  | nil => cases h
  | cons arg args ih =>
    obtain ⟨t, a⟩ := arg
    cases a with
    | identifier name =>
      rw [parameterNames, ih h]
      rfl
    | _ =>
      obtain ⟨rfl, -⟩ := Prod.mk.inj (Option.some.inj h)
      rfl

theorem function_refuses_at (h : ListsArguments used args) (hn : n.kind = .identifier)
    (ho : o.kind = .leftParen) (hc : c.kind = .rightParen)
    (hf : args.find? (fun a => !a.2.isIdentifier) = some (start, e))
    (hdepth : 16 * used.length + 11 ≤ d) :
    function d last (w :: n :: o :: (used ++ c :: rest)) = .fault (.parameterNotName start) rest := by
  obtain ⟨d, rfl, hd⟩ := exists_succ_of_le hdepth
  rw [function, advance_bind, List.tail_cons, expect_bind_of_kind hn,
    bind_of_value (locatedArguments_located h ho hc hd), parameterNames_refuse hf]
  rfl

end Grammar

/-- Tokens are arguments in one way only, the one that the parser finds. -/
theorem ListsArguments.unique {args' : List (Token × Node)} (h : ListsArguments used args)
    (h' : ListsArguments used args') : args' = args := by
  let close : Token := ⟨.rightParen, ")", .start⟩
  have hfound : ∀ {as}, ListsArguments used as →
      argumentList (16 * used.length + 9) (Cursor.endToken .start) (used ++ [close]) =
        .value as [close] := fun h => argumentList_located h _ le_rfl rfl
  exact (Reply.value.inj ((hfound h').symm.trans (hfound h))).1

theorem parseTokens_refuses_at (hw : w.kind = .funWord) (hn : n.kind = .identifier)
    (ho : o.kind = .leftParen) (h : ListsArguments used args) (hc : c.kind = .rightParen)
    (hf : args.find? (fun a => !a.2.isIdentifier) = some (start, e))
    (hl : last.kind = .endOfInput) :
    parseTokens (w :: n :: o :: (used ++ c :: rest) ++ [last]) =
      .error (.parameterNotName start) := by
  refine parseTokens_of_program_fault hl le_rfl ⟨rest, ?_⟩
  obtain ⟨d, hd, hlen⟩ :
      ∃ d, depthFor (w :: n :: o :: (used ++ c :: rest)) = d + 2 ∧ 16 * used.length + 11 ≤ d :=
    ⟨16 * used.length + 16 * rest.length + 94, by simp [depthFor]; omega, by omega⟩
  have hs : statement (d + 1) last (w :: n :: o :: (used ++ c :: rest)) =
      .fault (.parameterNotName start) rest := by
    rw [statement, peek_bind, List.headD_cons, hw]
    exact function_refuses_at h hn ho hc hf hlen
  rw [hd, program, peek_bind, List.headD_cons, if_neg (by simp [hw]), bind_of_fault hs]

/-- Arguments that are not all names are refused for the leftmost that is none, and nothing behind
them matters. -/
theorem parameters_refused {es : List Node} (hw : w.kind = .funWord) (hn : n.kind = .identifier)
    (ho : o.kind = .leftParen) (h : Derives Parted .argumentList (used.map Token.lexeme) es)
    (hc : c.kind = .rightParen) (he : ∃ e ∈ es, ¬ e.isIdentifier) (hl : last.kind = .endOfInput)
    (rest : List Token) :
    ∃ f, parseTokens (w :: n :: o :: (used ++ c :: rest) ++ [last]) = .error f ∧
      f.faultClass = .declaration ∧ f.text = "function parameters must be names" ∧
      (∃ args, ListsArguments used args ∧ args.map (·.2) = es) ∧
      ∀ args, ListsArguments used args → ∃ start e,
        args.find? (fun a => !a.2.isIdentifier) = some (start, e) ∧ f.token? = some start := by
  obtain ⟨args, hargs, rfl⟩ := exists_listsArguments h rfl
  obtain ⟨e, hmem, hne⟩ := he
  obtain ⟨arg, harg, rfl⟩ := List.mem_map.1 hmem
  obtain ⟨⟨start, e⟩, hf⟩ : ∃ a, args.find? (fun a => !a.2.isIdentifier) = some a :=
    Option.isSome_iff_exists.1 (List.find?_isSome.2 ⟨arg, harg, by simpa using hne⟩)
  refine ⟨_, parseTokens_refuses_at hw hn ho hargs hc hf hl, rfl, rfl, ⟨args, hargs, rfl⟩, ?_⟩
  intro args' hargs'
  rw [hargs.unique hargs']
  exact ⟨start, e, hf, rfl⟩

/-- A name in parentheses is a name, a call is none, and no body follows. -/
theorem call_parameter_refused :
    ∃ f, parseTokens (⟨.funWord, "fun", ⟨1, 1⟩⟩ :: ⟨.identifier, "f", ⟨1, 5⟩⟩ ::
        ⟨.leftParen, "(", ⟨1, 6⟩⟩ ::
        ([⟨.leftParen, "(", ⟨1, 7⟩⟩, ⟨.identifier, "a", ⟨1, 8⟩⟩, ⟨.rightParen, ")", ⟨1, 9⟩⟩,
          ⟨.comma, ",", ⟨1, 10⟩⟩, ⟨.identifier, "g", ⟨1, 11⟩⟩, ⟨.leftParen, "(", ⟨1, 12⟩⟩,
          ⟨.rightParen, ")", ⟨1, 13⟩⟩] ++ ⟨.rightParen, ")", ⟨1, 14⟩⟩ ::
        [⟨.semicolon, ";", ⟨1, 15⟩⟩]) ++ [Cursor.endToken ⟨1, 16⟩]) = .error f ∧
      f.faultClass = .declaration ∧ f.text = "function parameters must be names" ∧
      f.token? = some ⟨.identifier, "g", ⟨1, 11⟩⟩ := by
  have hname : ∀ name : String, Derives Parted .primary [⟨.identifier, name⟩] (.identifier name) :=
    fun _ => .identifier rfl
  have ha : Derives Parted .expression (List.map Token.lexeme [⟨.leftParen, "(", ⟨1, 7⟩⟩,
      ⟨.identifier, "a", ⟨1, 8⟩⟩, ⟨.rightParen, ")", ⟨1, 9⟩⟩]) (.identifier "a") := by
    have h : Derives Parted .expression [⟨.identifier, "a"⟩] (.identifier "a") :=
      .target (.operand (.term (.factor (.primary (hname "a")))))
    exact .target (.operand (.term (.factor (.primary
      (.group (o := ⟨.leftParen, "("⟩) (c := ⟨.rightParen, ")"⟩) rfl h rfl)))))
  have hg : Derives Parted .expression (List.map Token.lexeme [⟨.identifier, "g", ⟨1, 11⟩⟩,
      ⟨.leftParen, "(", ⟨1, 12⟩⟩, ⟨.rightParen, ")", ⟨1, 13⟩⟩]) (.call (.identifier "g") []) :=
    .target (.operand (.term (.factor (.call (o := ⟨.leftParen, "("⟩) (c := ⟨.rightParen, ")"⟩)
      (.primary (hname "g")) rfl .noArguments rfl))))
  have hargs := ListsArguments.more (c := ⟨.comma, ",", ⟨1, 10⟩⟩) ha rfl (.one hg)
  have hw : Token.kind ⟨.funWord, "fun", ⟨1, 1⟩⟩ = .funWord := rfl
  have hn : Token.kind ⟨.identifier, "f", ⟨1, 5⟩⟩ = .identifier := rfl
  have ho : Token.kind ⟨.leftParen, "(", ⟨1, 6⟩⟩ = .leftParen := rfl
  have hc : Token.kind ⟨.rightParen, ")", ⟨1, 14⟩⟩ = .rightParen := rfl
  have hl : (Cursor.endToken ⟨1, 16⟩).kind = .endOfInput := rfl
  obtain ⟨f, hf, hclass, htext, -, hat⟩ := parameters_refused hw hn ho hargs.derives hc
    ⟨.call (.identifier "g") [], by simp, by decide⟩ hl [⟨.semicolon, ";", ⟨1, 15⟩⟩]
  obtain ⟨start, e, hfind, htoken⟩ := hat _ hargs
  obtain rfl := congrArg Prod.fst (Option.some.inj hfind)
  exact ⟨f, hf, hclass, htext, htoken⟩

end LocksetLang
