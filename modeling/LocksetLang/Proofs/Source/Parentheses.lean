import LocksetLang.Proofs.Source.Grouping
import LocksetLang.Proofs.Source.Outcomes
import LocksetLang.Proofs.Source.Statements

/-! No pair of parentheses can be left out of the text of an expression. What is left without one has
the same characters outside strings but for the two, so its lexemes open one parenthesis less than
those of the expression, and no number of them comes to stand before a dot. -/

namespace LocksetLang

open Lexeme Source Context

/-! ### The text of an expression, character by character -/

/-- Whatever stands before the text of an expression, none of it leads astray, and it does not end
with a space. -/
def Steady (e : Node) : Prop :=
  ∀ asked, ∃ text, expression asked e = .ok text ∧
    ∀ b, (outside b).after text.toList = outside false

namespace Source

attribute [local simp] expression expressions entryText entryTexts

variable {b : Bool} {e t v l r f i : Node} {o n s : String}

theorem after_parenthesized {own asked : Nat} {text : String}
    (h : (outside b).after text.toList = outside false) :
    (outside b).after (parenthesized own asked text).toList = outside false := by
  unfold parenthesized
  split_ifs
  · simp [h]
  · exact h

theorem after_name (h : isName n) : (outside b).after n.toList = outside false := by
  rw [isName, Bool.and_eq_true] at h
  cases hn : n.toList with
  | nil =>
    rw [hn] at h
    cases h.1
  | cons c cs =>
    rw [hn, isWord, Bool.and_eq_true, List.all_eq_true] at h
    exact (after_word (by simp [isWordPart, h.1.1]) h.1.2).1

theorem after_infix {as bs : List Char} (hs : s ∈ ["=", "==", "!=", "+", "-", "*", "/", "%"])
    (ha : (outside b).after as = outside false)
    (hb : ∀ b, (outside b).after bs = outside false) :
    (outside b).after (as ++ ' ' :: (s.toList ++ ' ' :: bs)) = outside false := by
  have hsign : (outside true).after s.toList = outside false := by
    have hall : ∀ s ∈ ["=", "==", "!=", "+", "-", "*", "/", "%"],
        (outside true).after s.toList = outside false := by decide
    exact hall s hs
  have hspace (b : Bool) : (outside b).next ' ' = outside true := by cases b <;> rfl
  rw [after_append, ha, after_cons, hspace, after_append, hsign, after_cons, hspace, hb]

theorem after_commaSeparated {texts : List String}
    (h : ∀ text ∈ texts, ∀ b, (outside b).after text.toList = outside false) (hne : texts ≠ []) :
    ∀ b, (outside b).after (", ".intercalate texts).toList = outside false := by
  induction texts with
  | nil => exact absurd rfl hne
  | cons text texts ih =>
    intro b
    rw [List.forall_mem_cons] at h
    cases texts with
    | nil => simpa using h.1 b
    | cons next texts =>
      rw [String.intercalate_cons_cons, String.toList_append, String.toList_append, after_append,
        after_append, h.1 b]
      exact ih h.2 (by simp) true

theorem steady_assignment (st : Steady t) (sv : Steady v) : Steady (.assignment t v) := by
  intro asked
  obtain ⟨tt, ht, hst⟩ := st 1
  obtain ⟨tv, hv, hsv⟩ := sv 0
  refine ⟨parenthesized 0 asked (tt ++ " = " ++ tv), by simp [ht, hv], fun b => ?_⟩
  refine after_parenthesized ?_
  simpa using after_infix (s := "=") (by decide) (hst b) hsv

theorem steady_binary (ho : o ∈ binaryOperators) (sl : Steady l) (sr : Steady r) :
    Steady (.binary l r o) := by
  intro asked
  obtain ⟨tl, hl, hsl⟩ := sl (Node.binary l r o).level
  obtain ⟨tr, hr, hsr⟩ := sr ((Node.binary l r o).level + 1)
  refine ⟨parenthesized (Node.binary l r o).level asked (tl ++ " " ++ o ++ " " ++ tr),
    by simp [hl, hr], fun b => after_parenthesized ?_⟩
  have hall : ∀ o ∈ binaryOperators, o ∈ ["=", "==", "!=", "+", "-", "*", "/", "%"] := by decide
  simpa using after_infix (hall o ho) (hsl b) hsr

theorem steady_equality (ho : o ∈ equalityOperators.map (·.1)) (sl : Steady l) (sr : Steady r) :
    Steady (.equality l o r) := by
  intro asked
  obtain ⟨tl, hl, hsl⟩ := sl 0
  obtain ⟨tr, hr, hsr⟩ := sr 0
  obtain ⟨sg, hsign, hsg⟩ : ∃ sg, equalityOperators.lookup o = some sg ∧
      sg ∈ ["=", "==", "!=", "+", "-", "*", "/", "%"] := by
    have hall : ∀ o ∈ equalityOperators.map (·.1), o = Kind.doubleEquals.name ∨
        o = Kind.notEquals.name := by decide
    rcases hall o ho with rfl | rfl
    · exact ⟨"==", rfl, by decide⟩
    · exact ⟨"!=", rfl, by decide⟩
  refine ⟨parenthesized 5 asked ("(" ++ tl ++ " " ++ sg ++ " " ++ tr ++ ")"),
    by simp [hsign, hl, hr], fun b => after_parenthesized ?_⟩
  have hin := after_infix hsg (hsl b) hsr
  rw [after_append, after_cons, after_append, after_cons] at hin
  simp [hin]

theorem steady_expressions {args : List Node} (h : ∀ a ∈ args, Steady a) :
    ∃ texts, expressions args = .ok texts ∧
      ∀ text ∈ texts, ∀ b, (outside b).after text.toList = outside false := by
  induction args with
  | nil => exact ⟨[], by simp, List.forall_mem_nil _⟩
  | cons a args ih =>
    obtain ⟨text, ht, hs⟩ := h a (by simp) 0
    obtain ⟨texts, hts, hss⟩ := ih fun b hb => h b (by simp [hb])
    exact ⟨text :: texts, by simp [ht, hts], List.forall_mem_cons.2 ⟨hs, hss⟩⟩

theorem steady_call {as : List Node} (sf : Steady f) (sa : ∀ a ∈ as, Steady a) :
    Steady (.call f as) := by
  intro asked
  obtain ⟨tf, hf, hsf⟩ := sf 4
  obtain ⟨texts, hts, hss⟩ := steady_expressions sa
  refine ⟨parenthesized 4 asked (tf ++ "(" ++ ", ".intercalate texts ++ ")"),
    by simp [hf, hts], fun b => after_parenthesized ?_⟩
  have hin : (outside false).after (", ".intercalate texts).toList = outside false := by
    cases texts with
    | nil => rfl
    | cons text texts => exact after_commaSeparated hss (by simp) false
  rw [String.toList_append, String.toList_append, String.toList_append, after_append, after_append,
    after_append, hsf b]
  exact (congrArg (after · [')']) hin).trans rfl

theorem steady_index (se : Steady e) (si : Steady i) : Steady (.member e i true) := by
  intro asked
  obtain ⟨te, he, hse⟩ := se 4
  obtain ⟨ti, hi, hsi⟩ := si 0
  refine ⟨parenthesized 4 asked (te ++ "[" ++ ti ++ "]"), by simp [he, hi],
    fun b => after_parenthesized ?_⟩
  have hopen : (outside false).next '[' = outside false := rfl
  have hclose : (outside false).next ']' = outside false := rfl
  simp [hse b, hsi, hopen, hclose]

theorem steady_member (hn : isName n) (se : Steady e) :
    Steady (.member e (.identifier n) false) := by
  intro asked
  obtain ⟨te, he, hse⟩ := se 4
  refine ⟨parenthesized 4 asked ((if e.isNumber then "(" ++ te ++ ")" else te) ++ "." ++ n),
    by simp [he], fun b => after_parenthesized ?_⟩
  have howner : (outside b).after (if e.isNumber then "(" ++ te ++ ")" else te).toList =
      outside false := by
    split_ifs
    · simp [hse b]
    · exact hse b
  have hdot : (outside false).next '.' = outside false := rfl
  simp [howner, hdot, after_name hn]

theorem steady_identifier (hn : isName n) : Steady (.identifier n) :=
  fun asked => ⟨parenthesized 5 asked n, by simp, fun _ => after_parenthesized (after_name hn)⟩

theorem steady_number {x : Binary64} (hx : x.isNonnegative) : Steady (.number x) := by
  intro asked
  obtain ⟨m, -, -, hlit, -⟩ := literal?_of_isNonnegative hx
  refine ⟨parenthesized 5 asked (String.ofList m.chars), by simp [hlit],
    fun b => after_parenthesized ?_⟩
  rw [String.toList_ofList]
  exact (after_numeral m).1

theorem steady_string (hs : isStringValue s) : Steady (.string s) := by
  intro asked
  obtain ⟨q, hq, hquote, hb⟩ := exists_quoteOf hs
  refine ⟨parenthesized 5 asked (stringText s), by simp, fun b => after_parenthesized ?_⟩
  simpa [stringText, hquote] using (@after_string b q s.toList hq hb).1

theorem steady_entries {ps : List Node} (hk : ∀ p ∈ ps, ∃ k v, p = .property k v ∧ isName k)
    (sv : ∀ k e, .property k (some e) ∈ ps → Steady e) :
    ∃ texts, entryTexts ps = .ok texts ∧
      ∀ text ∈ texts, ∀ b, (outside b).after text.toList = outside false := by
  induction ps with
  | nil => exact ⟨[], by simp, List.forall_mem_nil _⟩
  | cons p ps ih =>
    obtain ⟨texts, hts, hss⟩ := ih (fun q hq => hk q (by simp [hq])) fun k e h => sv k e (by simp [h])
    obtain ⟨k, value, rfl, hn⟩ := hk p (by simp)
    cases value with
    | none => exact ⟨k :: texts, by simp [hts], List.forall_mem_cons.2 ⟨fun b => after_name hn, hss⟩⟩
    | some e =>
      obtain ⟨te, he, hse⟩ := sv k e (by simp) 0
      refine ⟨(k ++ ": " ++ te) :: texts, by simp [he, hts],
        List.forall_mem_cons.2 ⟨fun b => ?_, hss⟩⟩
      have hcolon : (outside false).after ": ".toList = outside true := rfl
      rw [String.toList_append, String.toList_append, after_append, after_append, after_name hn,
        hcolon, hse]

theorem steady_object {ps : List Node} (hk : ∀ p ∈ ps, ∃ k v, p = .property k v ∧ isName k)
    (sv : ∀ k e, .property k (some e) ∈ ps → Steady e) : Steady (.object ps) := by
  intro asked
  obtain ⟨texts, hts, hss⟩ := steady_entries hk sv
  refine ⟨parenthesized 1 asked (if texts.isEmpty then "{}" else
    r"{ " ++ ", ".intercalate texts ++ r" }"), by simp [hts], fun b => after_parenthesized ?_⟩
  cases texts with
  | nil => cases b <;> rfl
  | cons text texts =>
    have hopen : (outside b).after r"{ ".toList = outside true := by cases b <;> rfl
    have hclose : (outside false).after r" }".toList = outside false := rfl
    rw [List.isEmpty_cons, if_neg (by simp), String.toList_append, String.toList_append,
      after_append, after_append, hopen, after_commaSeparated hss (by simp), hclose]

theorem steady_of_isExpression {e : Node} (h : e.IsExpression) : Steady e := by
  induction h with
  | assignment _ _ iht ihv => exact steady_assignment iht ihv
  | object hk _ ihv => exact steady_object hk ihv
  | binary _ _ ho ihl ihr => exact steady_binary ho ihl ihr
  | equality _ _ ho ihl ihr => exact steady_equality ho ihl ihr
  | call _ _ ihf iha => exact steady_call ihf iha
  | index _ _ ihe ihi => exact steady_index ihe ihi
  | member _ hn ihe => exact steady_member hn ihe
  | identifier hn => exact steady_identifier hn
  | number hx => exact steady_number hx
  | string hs => exact steady_string hs

end Source

/-! ### Leaving out a pair -/

section
variable {joins : List Lexeme → List Lexeme → Prop} {w n q s : Lexeme} {ls ms : List Lexeme}
  {ss : List Node} {b : Bool} {as bs cs ds text : List Char}

theorem Derives.eq_nil (h : Derives joins .statements [] ss) : ss = [] := by
  generalize hls : ([] : List Lexeme) = ls at h
  cases h with
  | noStatements => rfl
  | statements hs => exact absurd (List.append_eq_nil_iff.1 hls.symm).1 (hs.ne_nil rfl)

/-- Without a semicolon on the way, what starts as a setting is one up to its end. -/
theorem Derives.eq_setting (h : Derives joins .statements (w :: n :: q :: (ms ++ [s])) ss)
    (hw : w.kind = .setWord) (hq : q.kind = .equals) (hms : ∀ t ∈ ms, t.kind ≠ .semicolon) :
    ∃ e, Derives joins .expression ms e ∧ ss = [.declaration n.value false (some e)] := by
  generalize hls : w :: n :: q :: (ms ++ [s]) = ls at h
  cases h with
  | noStatements => cases hls
  | @statements xs ys st ss hst hrest _ =>
    have hhead : xs.head? = some w := by
      obtain ⟨x, xs, rfl⟩ := List.exists_cons_of_ne_nil (hst.ne_nil rfl)
      exact congrArg some (List.cons.inj hls).1.symm
    cases hst with
    | declared _ _ hsemi =>
      obtain ⟨-, -, rfl, -⟩ := by simpa using hls
      cases hq.symm.trans hsemi
    | @assigned _ _ _ s' xs e _ _ _ he hsemi =>
      obtain ⟨rfl, rfl, -, hend⟩ : _ ∧ _ ∧ _ ∧ ms ++ [s] = xs ++ s' :: ys := by simpa using hls
      -- the setting ends with the only semicolon, so nothing is behind it
      rcases List.eq_nil_or_concat' ys with rfl | ⟨init, c, rfl⟩
      · obtain ⟨rfl, -⟩ := List.append_inj' hend rfl
        obtain rfl := hrest.eq_nil
        exact ⟨e, he, by simp [hw]⟩
      · rw [← List.cons_append, ← List.append_assoc] at hend
        obtain ⟨rfl, -⟩ := List.append_inj' hend rfl
        exact absurd hsemi (hms s' (by simp))
    | function hfun =>
      obtain rfl := Option.some.inj hhead
      cases hw.symm.trans hfun
    | branching hst => exact absurd (hw ▸ hst.first_mem w hhead) (by decide)
    | expression hst => exact absurd (hw ▸ hst.first_mem w hhead) (by decide)

/-- The text of a setting, up to the semicolon that ends it. -/
theorem Scans.setting (h : Scans ("set v = " ++ String.ofList ds ++ ";").toList ls)
    (hd : (outside true).after ds = outside b) :
    ∃ ms, ls = word "set" :: word "v" :: sign "=" :: (ms ++ [sign ";"]) ∧ Scans (' ' :: ds) ms := by
  have htext : ("set v = " ++ String.ofList ds ++ ";").toList =
      [] ++ ("set".toList ++ ([' '] ++ ("v".toList ++ ([' '] ++ ("=".toList ++
        (' ' :: ds ++ [';'])))))) := by
    simp
  have hspace : IsTrivia false [' '] := .space rfl .nil
  have hset : (word "set").SpeltBy "set".toList :=
    .word rfl (List.forall_iff_forall_mem.1 (by decide))
  have hv : (word "v").SpeltBy "v".toList := .word rfl (List.forall_mem_nil _)
  have heq : (sign "=").SpeltBy "=".toList := sign_spelt rfl
  have hstop {t : Lexeme} {cs : List Char} : t.StopsAt (' ' :: cs) := .separator (by decide)
  rw [htext] at h
  obtain ⟨ls, rfl, hname⟩ := h.exists_first .nil (.spelt hset hstop)
  obtain ⟨ls, rfl, hequals⟩ := hname.exists_first hspace (.spelt hv hstop)
  obtain ⟨ls, rfl, hvalue⟩ := hequals.exists_first hspace (.spelt heq hstop)
  obtain ⟨ms, rfl, hms⟩ := hvalue.before_semicolon (b := true) rfl hd
  exact ⟨ms, rfl, hms⟩

/-- Two parentheses that are left out of a text outside its strings. -/
theorem leave_out {b₁ b₂ : Bool} (ht : text = as ++ '(' :: (bs ++ ')' :: cs))
    (ha : (outside b).after as = outside b₁)
    (hb : (outside b).after (as ++ '(' :: bs) = outside b₂) :
    (outside b).after text = (outside b).after (as ++ bs ++ cs) ∧
      (outside b).opened text = (outside b).opened (as ++ bs ++ cs) + 1 := by
  rw [after_append, ha, after_cons, next_parenthesis.1] at hb
  have hopens : (outside b₁).opened ('(' :: (bs ++ ')' :: cs)) =
      (outside b₁).opened bs + (outside b₂).opened cs + 1 := by
    rw [opened_cons, next_parenthesis.1, opened_append, hb, opened_cons, next_parenthesis.2,
      if_pos ⟨rfl, rfl⟩, if_neg (by simp)]
    omega
  constructor
  · simp [ht, ha, hb]
  · rw [ht, opened_append, ha, hopens, List.append_assoc, opened_append, ha, opened_append, hb]
    omega

/-- The text of an expression without two parentheses of it, in a setting. -/
theorem not_same_of_parse {e tree : Node} {source : String} {ts : List Token}
    (he : e.IsExpression) (hs : Source.expression 0 e = .ok source)
    (hsplit : source.toList = as ++ '(' :: (bs ++ ')' :: cs)) (hts : tokenize source = .ok ts)
    (ho : ⟨.leftParen, "(", Place.behind as⟩ ∈ ts)
    (hc : ⟨.rightParen, ")", Place.behind (as ++ '(' :: bs)⟩ ∈ ts)
    (hp : parse ("set v = " ++ String.ofList (as ++ bs ++ cs) ++ ";") = .ok tree) :
    ∃ w, tree = .program [.declaration "v" false (some w)] ∧ ¬ w.same e := by
  obtain ⟨_, hs', hsteady⟩ := steady_of_isExpression he 0
  obtain rfl := Except.ok.inj (hs.symm.trans hs')
  obtain ⟨_, hs', hspells⟩ := prints_of_isExpression he 0
  obtain rfl := Except.ok.inj (hs.symm.trans hs')
  have hne (b : Bool) : (outside b).after source.toList ≠ astray := by
    rw [hsteady b]
    exact Context.noConfusion
  -- both parentheses stand outside strings
  obtain ⟨_, hcover⟩ := tokenize_cover hts
  obtain ⟨b₁, ha⟩ := hcover.outside_of_place (hne true) hsplit ho rfl
  have hclose : source.toList = (as ++ '(' :: bs) ++ ')' :: cs := by simp [hsplit]
  obtain ⟨b₂, hb⟩ := hcover.outside_of_place (hne true) hclose hc rfl
  obtain ⟨hafter, hopened⟩ := leave_out hsplit ha hb
  rw [hsteady true] at hafter
  have htext : (outside true).opened source.toList = openings (lexemes 0 e) :=
    ((hspells.scans (List.forall_mem_nil _)).tame (hne true)).opened_eq
  -- between the start of the setting and its end
  obtain ⟨body, -, ss, -, hscans, hwritten, rfl, hd⟩ := scans_of_parse hp
  obtain ⟨ms, hls, hms⟩ := hscans.setting hafter.symm
  have htame := hms.tame (b := true) (by
    rw [after_cons]
    exact fun h => Context.noConfusion (hafter.trans h))
  have hrest : (outside true).opened (as ++ bs ++ cs) = openings ms := by
    rw [← htame.opened_eq, opened_cons]
    exact (Nat.zero_add _).symm
  rw [hls] at hd
  obtain ⟨w, hw, rfl⟩ := hd.eq_setting rfl rfl htame.ne_semicolon
  refine ⟨w, rfl, fun hsame => ?_⟩
  have hplain : IsPlainlyWritten ms := by
    refine ⟨fun t ht => ?_, htame.unpointed⟩
    have hmem : t ∈ body.map Token.lexeme := by simp [hls, ht]
    obtain ⟨u, hu, rfl⟩ := List.mem_map.1 hmem
    exact hwritten u hu
  have hle := openings_le_of_same hw hplain he hsame
  omega

/-- With all its parentheses the text of an expression is a value, and the right one. -/
theorem parse_setting {e : Node} {source : String} (he : e.IsExpression)
    (hs : Spells source.toList (lexemes 0 e)) :
    ∃ w, parse ("set v = " ++ source ++ ";") = .ok (.program [.declaration "v" false (some w)]) ∧
      w.same e := by
  have hend : Spells [';'] [sign ";"] := spells_sign (s := ";") rfl
  have hvalue := hs.separated hend (by decide) (lexemes_ne_nil he 0) (by simp)
  have hequals := (spells_sign (s := "=") rfl).spaced hvalue (by simp) (by simp)
  have hname := (spells_name (s := "v") (by decide)).spaced hequals (by simp) (by simp)
  have hset := (spells_word (s := "set") (by decide)).spaced hname (by simp) (by simp)
  have htext : Spells ("set v = " ++ source ++ ";").toList
      (statementLexemes (.declaration "v" false (some e)) ++ []) := by
    simpa [statementLexemes] using hset
  have hd : Derives Parted .statement (statementLexemes (.declaration "v" false (some e)))
      (.declaration "v" false (some e.plain)) := by
    have hmem : ∀ f ∈ some e, f.IsExpression := by
      rintro f ⟨⟩
      exact he
    have hdeclared := Node.derives_declaration (n := "v") (by decide) hmem fun _ : false = true => rfl
    rwa [Node.plain, Node.plainOption] at hdeclared
  exact ⟨e.plain, (parse_eq_ok_iff htext).2 ⟨_, rfl, .statements hd .noStatements (parted_nil _)⟩,
    he.same_plain⟩

/-- Every pair of parentheses in the text of an expression is needed. The text is read as a value that
is the expression. Without two of its tokens, an opening parenthesis and a closing one behind it, it
is refused as a value, or else it is another value. Neither do the two have to be partners, nor are
those around arguments an exception. -/
theorem parentheses_needed {e : Node} (he : e.IsExpression) :
    ∃ source ts, Source.expression 0 e = .ok source ∧ tokenize source = .ok ts ∧
      (∃ w, parse ("set v = " ++ source ++ ";") =
        .ok (.program [.declaration "v" false (some w)]) ∧ w.same e) ∧
      ∀ as bs cs, source.toList = as ++ '(' :: (bs ++ ')' :: cs) →
        ⟨.leftParen, "(", Place.behind as⟩ ∈ ts →
        ⟨.rightParen, ")", Place.behind (as ++ '(' :: bs)⟩ ∈ ts →
        (∃ fault, parse ("set v = " ++ String.ofList (as ++ bs ++ cs) ++ ";") = .error fault ∧
          fault.faultClass.isMalformed) ∨
        ∃ w, parse ("set v = " ++ String.ofList (as ++ bs ++ cs) ++ ";") =
          .ok (.program [.declaration "v" false (some w)]) ∧ ¬ w.same e := by
  obtain ⟨source, hs, hspells⟩ := prints_of_isExpression he 0
  obtain ⟨ts, place, hts, -⟩ := tokenize_of_scans (hspells.scans (List.forall_mem_nil _))
  refine ⟨source, _, hs, hts, parse_setting he hspells, fun as bs cs hsplit ho hc => ?_⟩
  cases hp : parse ("set v = " ++ String.ofList (as ++ bs ++ cs) ++ ";") with
  | error fault => exact .inl ⟨fault, rfl, parse_fault hp⟩
  | ok tree =>
    obtain ⟨w, rfl, hw⟩ := not_same_of_parse he hs hsplit hts ho hc hp
    exact .inr ⟨w, rfl, hw⟩

theorem sum_parentheses_needed :
    let e := Node.binary (.binary (.identifier "a") (.identifier "b") "+") (.identifier "c") "*"
    e.IsExpression ∧ Source.expression 0 e = .ok "(a + b) * c" ∧
      (∃ w, parse "set v = (a + b) * c;" =
        .ok (.program [.declaration "v" false (some w)]) ∧ w.same e) ∧
      ((∃ fault, parse "set v = a + b * c;" = .error fault ∧ fault.faultClass.isMalformed) ∨
        ∃ w, parse "set v = a + b * c;" = .ok (.program [.declaration "v" false (some w)]) ∧
          ¬ w.same e) := by
  have ha : Node.IsExpression (.identifier "a") := .identifier (by decide)
  have hb : Node.IsExpression (.identifier "b") := .identifier (by decide)
  have hc : Node.IsExpression (.identifier "c") := .identifier (by decide)
  have he : Node.IsExpression
      (.binary (.binary (.identifier "a") (.identifier "b") "+") (.identifier "c") "*") :=
    .binary (.binary ha hb (by decide)) hc (by decide)
  have hs : Source.expression 0
      (.binary (.binary (.identifier "a") (.identifier "b") "+") (.identifier "c") "*") =
        .ok "(a + b) * c" := by
    simp [Source.expression, Node.level, additiveOperators, parenthesized]
  obtain ⟨source, ts, hs', hts, hread, hneeded⟩ := parentheses_needed he
  obtain rfl : source = "(a + b) * c" := Except.ok.inj (hs'.symm.trans hs)
  have ht : tokenize "(a + b) * c" = .ok [⟨.leftParen, "(", ⟨1, 1⟩⟩, ⟨.identifier, "a", ⟨1, 2⟩⟩,
      ⟨.operator, "+", ⟨1, 4⟩⟩, ⟨.identifier, "b", ⟨1, 6⟩⟩, ⟨.rightParen, ")", ⟨1, 7⟩⟩,
      ⟨.operator, "*", ⟨1, 9⟩⟩, ⟨.identifier, "c", ⟨1, 11⟩⟩, Cursor.endToken ⟨1, 12⟩] := by
    decide +kernel
  obtain rfl := Except.ok.inj (hts.symm.trans ht)
  exact ⟨he, hs, hread, hneeded [] "a + b".toList " * c".toList rfl (by decide) (by decide)⟩

end

end LocksetLang
