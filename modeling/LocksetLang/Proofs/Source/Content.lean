import LocksetLang.Proofs.Source.Derivation
import LocksetLang.Proofs.Source.Formatting
import LocksetLang.Proofs.Source.Parsed

/-! What the lexemes of a phrase say besides where it is parted and enclosed. It can be told from the
tree: the lexemes that the tree is written with say the same. -/

namespace LocksetLang

/-- What a lexeme says. Of a number this is the value, whatever way it is written. -/
inductive Content where
  | number (value : Option Binary64)
  | text (kind : Kind) (value : String)
  deriving DecidableEq

def Kind.isEnclosure : Kind → Bool
  | leftParen | rightParen | leftBrace | rightBrace | comma => true
  | _ => false

def Lexeme.content? (t : Lexeme) : Option Content :=
  if t.kind.isEnclosure then none
  else if t.kind = .number then some (.number (Binary64.ofText? t.value))
  else some (.text t.kind t.value)

def contents (ls : List Lexeme) : List Content := ls.filterMap Lexeme.content?

open Source

section
variable {t : Lexeme} {k : Kind} {ls ms : List Lexeme}

@[simp] theorem contents_nil : contents [] = [] := rfl

@[simp] theorem contents_append : contents (ls ++ ms) = contents ls ++ contents ms :=
  List.filterMap_append

@[simp] theorem contents_cons : contents (t :: ls) = t.content?.toList ++ contents ls := by
  rw [contents, List.filterMap_cons]
  cases t.content? <;> rfl

theorem content?_eq_none (hk : t.kind = k) (h : k.isEnclosure) : t.content? = none := by
  rw [Lexeme.content?, hk, if_pos h]

theorem content?_sign : (sign "(").content? = none ∧ (sign ")").content? = none ∧
    (sign r"{").content? = none ∧ (sign r"}").content? = none ∧ (sign ",").content? = none :=
  ⟨rfl, rfl, rfl, rfl, rfl⟩

@[simp] theorem contents_wrapped (own asked : Nat) : contents (wrapped own asked ls) = contents ls := by
  unfold wrapped
  split
  · simp [content?_sign]
  · rfl

@[simp] theorem contents_commaSeparated (lss : List (List Lexeme)) :
    contents (commaSeparated lss) = lss.flatMap contents := by
  induction lss with
  | nil => rfl
  | cons ls lss ih =>
    cases lss with
    | nil => rw [commaSeparated_singleton, List.flatMap_singleton]
    | cons ms lss =>
      rw [commaSeparated_cons_cons, contents_append, contents_cons, ih, content?_sign.2.2.2.2]
      rfl

end

/-- What an expression says, in whatever position. -/
def Node.contents (e : Node) : List Content := LocksetLang.contents (lexemes 0 e)

@[simp] theorem contents_lexemes (asked : Nat) (e : Node) :
    contents (lexemes asked e) = e.contents := by
  rw [Node.contents]
  cases e with
  | member owner name computed =>
    cases computed with
    | true => rw [lexemes, lexemes, contents_wrapped, contents_wrapped]
    | false =>
      cases name with
      | identifier => rw [lexemes, lexemes, contents_wrapped, contents_wrapped]
      | _ => simp only [lexemes]
  | assignment | object | binary | equality | call | identifier | number | string =>
    rw [lexemes, lexemes, contents_wrapped, contents_wrapped]
  | _ => simp only [lexemes]

section
variable (e f : Node)

@[simp] theorem contents_assignment :
    (Node.assignment e f).contents = e.contents ++ ((sign "=").content?.toList ++ f.contents) := by
  rw [Node.contents, lexemes]
  simp

@[simp] theorem contents_binary (o : String) :
    (Node.binary e f o).contents = e.contents ++ ((sign o).content?.toList ++ f.contents) := by
  rw [Node.contents, lexemes]
  simp

@[simp] theorem contents_equality (o : String) :
    (Node.equality e o f).contents = e.contents ++
      ((sign ((equalityOperators.lookup o).getD "")).content?.toList ++ f.contents) := by
  rw [Node.contents, lexemes]
  simp [content?_sign]

@[simp] theorem contents_index :
    (Node.member e f true).contents = e.contents ++
      ((sign "[").content?.toList ++ (f.contents ++ (sign "]").content?.toList)) := by
  rw [Node.contents, lexemes]
  simp

@[simp] theorem contents_member (n : String) :
    (Node.member e (.identifier n) false).contents = e.contents ++
      ((sign ".").content?.toList ++ (word n).content?.toList) := by
  rw [Node.contents, lexemes]
  simp

@[simp] theorem contents_call (es : List Node) :
    (Node.call e es).contents = e.contents ++ (expressionsLexemes es).flatMap contents := by
  rw [Node.contents, lexemes]
  simp [content?_sign]

@[simp] theorem contents_object (ps : List Node) :
    (Node.object ps).contents = (entriesLexemes ps).flatMap contents := by
  rw [Node.contents, lexemes]
  simp [content?_sign]

end

theorem contents_alternateLexemes (ss : List Node) :
    contents (alternateLexemes (some ss)) =
      (word "else").content?.toList ++ contents (statementsLexemes ss) := by
  obtain ⟨s, rfl, -, h⟩ | h := alternateLexemes_cases ss
  · rw [h, contents_cons, statementsLexemes, statementsLexemes, List.append_nil]
  · rw [h]
    simp [content?_sign]

def Phrase.contents : (p : Phrase) → p.Tree → List Content
  | .primary, e | .call, e | .product, e | .sum, e | .object, e | .expression, e => Node.contents e
  | .argumentList, es | .arguments, es => (expressionsLexemes es).flatMap LocksetLang.contents
  | .entries, ps => (entriesLexemes ps).flatMap LocksetLang.contents
  | .statement, s | .conditional, s => LocksetLang.contents (statementLexemes s)
  | .statements, ss | .block, ss => LocksetLang.contents (statementsLexemes ss)
  | .alternate, a => LocksetLang.contents (alternateLexemes a)

section
variable {t : Lexeme} {s : String} {k : Kind}

theorem Lexeme.IsWritten.eq_word (h : t.IsWritten) (hk : t.kind = .identifier) :
    t = Source.word t.value := by
  rw [word_of_isName (h.classed.name hk), ← hk]

theorem Lexeme.IsWritten.eq_keyword (h : t.IsWritten) (hk : t.kind = k)
    (hs : keywords.lookup s = some k) : t = Source.word s := by
  have hmem := mem_of_lookup hs
  have hne : ∀ p ∈ keywords, p.2 ≠ .operator := by decide
  have hv := h.value_eq hk (List.mem_append_left _ hmem) (hne _ hmem)
  rw [Source.word, hs, ← hv, ← hk]
  rfl

theorem Lexeme.IsWritten.eq_sign (h : t.IsWritten) (hk : t.kind = k)
    (hs : symbols.lookup s = some k) (ho : k ≠ .operator) : t = sign s := by
  have hv := h.value_eq hk (List.mem_append_right _ (mem_of_lookup hs)) ho
  rw [sign_eq hs, ← hv, ← hk]

theorem eq_operator (hk : t.kind = .operator) (hv : t.value ∈ binaryOperators) : t = sign t.value := by
  rw [sign_eq (operator_lookup hv), ← hk]

end

/-- The sign of a comparison is the one that its tree is written with. -/
theorem Lexeme.IsWritten.eq_comparison {t : Lexeme} (h : t.IsWritten)
    (hk : t.kind = .doubleEquals ∨ t.kind = .notEquals) :
    t = sign ((equalityOperators.lookup t.kind.name).getD "") := by
  rcases hk with hk | hk
  · rw [hk]
    exact h.eq_sign (s := "==") hk rfl (by decide)
  · rw [hk]
    exact h.eq_sign (s := "!=") hk rfl (by decide)

theorem content?_number {t : Lexeme} (hk : t.kind = .number) :
    t.content? = some (.number (Binary64.ofText? t.value)) := by
  rw [Lexeme.content?, hk]
  rfl

theorem contents_number {x : Binary64} (h : (Node.number x).IsPlainExpression) :
    (Node.number x).contents = [.number (some x)] := by
  obtain ⟨he, hp⟩ := h
  have hx : x.isNonnegative := by
    cases he
    assumption
  obtain ⟨m, rank, hr, hlit, hread, hsame⟩ := literal?_of_isNonnegative hx
  have hplain := Binary64.plain_eq_of_same hsame
  rw [Node.plain, Node.number.injEq] at hp
  rw [hp] at hplain
  rw [Node.contents, lexemes, contents_wrapped, hlit, contents_cons, content?_number rfl]
  dsimp only [Option.getD]
  rw [hread, ← hplain]
  rfl

section
variable {joins : List Lexeme → List Lexeme → Prop} {p : Phrase} {ls : List Lexeme} {v : p.Tree}

theorem Derives.contents_eq (h : Derives joins p ls v) (hw : ∀ t ∈ ls, t.IsWritten) :
    contents ls = p.contents v := by
  induction h with
    -- the parts of a phrase are written
    try simp only [List.forall_mem_append, List.forall_mem_cons, List.not_mem_nil, false_implies,
      implies_true, and_true] at hw
  | identifier ht => rw [Phrase.contents, Node.contents, lexemes, contents_wrapped, ← hw.eq_word ht]
  | number ht hx hf =>
    have hd : Derives joins .primary [_] _ := .number ht hx hf
    rw [Phrase.contents, contents_number (hd.isPlain (List.forall_mem_singleton.2 hw)), contents_cons,
      content?_number ht, hx]
    rfl
  | string ht => rw [Phrase.contents, Node.contents, lexemes, contents_wrapped, ← ht]
  | primary _ ih | factor _ ih | term _ ih | operand _ ih | target _ ih | arguments _ ih
  | branching _ ih => exact ih hw
  | group ho he hc ih | block ho he hc ih =>
    simp [Phrase.contents, ih hw.2.1, content?_eq_none ho rfl, content?_eq_none hc rfl]
  | object ho hp hc ih =>
    simp [Phrase.contents, ih hw.2.1, content?_eq_none ho rfl, content?_eq_none hc rfl]
  | assignment ht hq hv iht ihv =>
    obtain ⟨hwt, hwq, hwv⟩ := hw
    have hq := hwq.eq_sign (s := "=") hq rfl (by decide)
    simp [Phrase.contents, iht hwt, ihv hwv, hq]
  | comparison ho hl hs hr hc ihl ihr =>
    obtain ⟨-, hwl, hws, hwr, -⟩ := hw
    simp [Phrase.contents, ihl hwl, ihr hwr, ← hws.eq_comparison hs, content?_eq_none ho rfl,
      content?_eq_none hc rfl]
  | product hl ho hv hr ihl ihr =>
    obtain ⟨hwl, -, hwr⟩ := hw
    have ho := eq_operator ho (List.mem_append_right _ hv)
    simp [Phrase.contents, ihl hwl, ihr hwr, ← ho]
  | sum hl ho hv hr ihl ihr =>
    obtain ⟨hwl, -, hwr⟩ := hw
    have ho := eq_operator ho (List.mem_append_left _ hv)
    simp [Phrase.contents, ihl hwl, ihr hwr, ← ho]
  | memberName he hd hn ih =>
    obtain ⟨hwe, hwd, hwn⟩ := hw
    have hd := hwd.eq_sign (s := ".") hd rfl (by decide)
    simp [Phrase.contents, ih hwe, hd, ← hwn.eq_word hn]
  | memberIndex he ho hi hc ihe ihi =>
    obtain ⟨hwe, hwo, hwi, hwc⟩ := hw
    have ho := hwo.eq_sign (s := "[") ho rfl (by decide)
    have hc := hwc.eq_sign (s := "]") hc rfl (by decide)
    simp [Phrase.contents, ihe hwe, ihi hwi, ho, hc]
  | call he ho ha hc ihe iha =>
    obtain ⟨hwe, -, hwa, -⟩ := hw
    simp [Phrase.contents, ihe hwe, iha hwa, content?_eq_none ho rfl, content?_eq_none hc rfl]
  | oneArgument he ih => simp [Phrase.contents, expressionsLexemes, ih hw]
  | moreArguments he hc hs ihe ihs =>
    obtain ⟨hwe, -, hws⟩ := hw
    simp [Phrase.contents, expressionsLexemes, ihe hwe, ihs hws, content?_eq_none hc rfl]
  | noArguments | noEntries | noStatements | noAlternate => rfl
  | lastKey hk =>
    simp [Phrase.contents, entriesLexemes, entryLexemes, ← hw.eq_word hk]
  | key hk hc hp ih =>
    obtain ⟨hwk, -, hwp⟩ := hw
    simp [Phrase.contents, entriesLexemes, entryLexemes, ih hwp, ← hwk.eq_word hk,
      content?_eq_none hc rfl]
  | lastEntry hk hs he ih =>
    obtain ⟨hwk, hws, hwe⟩ := hw
    have hs := hws.eq_sign (s := ":") hs rfl (by decide)
    simp [Phrase.contents, entriesLexemes, entryLexemes, ih hwe, hs, ← hwk.eq_word hk]
  | entry hk hs he hc hp ihe ihp =>
    obtain ⟨hwk, hws, hwe, -, hwp⟩ := hw
    have hs := hws.eq_sign (s := ":") hs rfl (by decide)
    simp [Phrase.contents, entriesLexemes, entryLexemes, ihe hwe, ihp hwp, hs, ← hwk.eq_word hk,
      content?_eq_none hc rfl]
  | declared hk hn hs =>
    obtain ⟨hwk, hwn, hws⟩ := hw
    have hk := hwk.eq_keyword (s := "set") hk rfl
    have hs := hws.eq_sign (s := ";") hs rfl (by decide)
    simp [Phrase.contents, statementLexemes, hk, hs, ← hwn.eq_word hn]
  | assigned hk hn hq he hs ih =>
    obtain ⟨hwk, hwn, hwq, hwe, hws⟩ := hw
    have hn := hwn.eq_word hn
    have hq := hwq.eq_sign (s := "=") hq rfl (by decide)
    have hs := hws.eq_sign (s := ";") hs rfl (by decide)
    rcases hk with hk | hk
    · have hset := hwk.eq_keyword (s := "set") hk rfl
      simp [Phrase.contents, statementLexemes, ih hwe, hk, ← hset, hs, hq, ← hn]
    · have hlock := hwk.eq_keyword (s := "lock") hk rfl
      simp [Phrase.contents, statementLexemes, ih hwe, hk, ← hlock, hs, hq, ← hn]
  | function hk hn ho hp hc hb ihp ihb =>
    obtain ⟨hwk, hwn, -, hwp, -, hwb⟩ := hw
    have hk := hwk.eq_keyword (s := "fun") hk rfl
    simp [Phrase.contents, statementLexemes, expressionsLexemes_identifiers, ihp hwp, ihb hwb, ← hk,
      ← hwn.eq_word hn, content?_eq_none ho rfl, content?_eq_none hc rfl, content?_sign]
  | expression he ih =>
    rw [ih hw]
    simp [Phrase.contents, statementLexemes_of_isExpression (he.isPlain hw).1]
  | statements hs hr hj ihs ihr => simp [Phrase.contents, statementsLexemes, ihs hw.1, ihr hw.2]
  | elseIf hk hs ih =>
    have hk := hw.1.eq_keyword (s := "else") hk rfl
    simp [Phrase.contents, contents_alternateLexemes, statementsLexemes, ih hw.2, hk]
  | otherwise hk hs ih =>
    have hk := hw.1.eq_keyword (s := "else") hk rfl
    simp [Phrase.contents, contents_alternateLexemes, ih hw.2, hk]
  | conditional hk he hs ha ihe ihs iha =>
    obtain ⟨hwk, hwe, hws, hwa⟩ := hw
    have hk := hwk.eq_keyword (s := "if") hk rfl
    simp [Phrase.contents, statementLexemes, ihe hwe, ihs hws, iha hwa, ← hk, content?_sign]

end

/-- The layout of a program has the tokens of its text, but for some that enclose and separate. -/
theorem formatSource_keeps_contents {source : String} {tree : Node} (h : parse source = .ok tree) :
    ∃ tokens text printed, tokenize source = .ok tokens ∧ formatSource tree = .ok text ∧
      tokenize text = .ok printed ∧
      contents (printed.map Token.lexeme) = contents (tokens.map Token.lexeme) := by
  obtain ⟨body, last, ss, htok, hlast, hbody, rfl, hd⟩ := derives_of_parse h
  have hplain := isPlainStatement_of_parse h
  obtain ⟨text, hf, hs⟩ := formatSource_spells fun s hs => (hplain s hs).1
  obtain ⟨ts, place, hts, hls⟩ := tokenize_of_spells hs
  refine ⟨_, text, _, htok, hf, hts, ?_⟩
  have hsame : contents (body.map Token.lexeme) = contents (statementsLexemes ss) :=
    hd.contents_eq (List.forall_mem_map.2 hbody)
  rw [List.map_append, List.map_append, contents_append, contents_append, hls, hsame, List.map_singleton,
    List.map_singleton, hlast]
  rfl

theorem group_keeps_contents : parse "(a)" = .ok (.program [.identifier "a"]) ∧
    ∃ tokens text printed, tokenize "(a)" = .ok tokens ∧
      formatSource (.program [.identifier "a"]) = .ok text ∧ tokenize text = .ok printed ∧
      contents (printed.map Token.lexeme) = contents (tokens.map Token.lexeme) := by
  have hs : Spells "(a)".toList [sign "(", word "a", sign ")"] :=
    (spells_name (s := "a") (by decide)).enclosed (.inl rfl) (c := ')') (by decide) rfl
  have ha : Derives Parted .expression [word "a"] (.identifier "a") :=
    .target (.operand (.term (.factor (.primary (.identifier rfl)))))
  have hd : Derives Parted .expression [sign "(", word "a", sign ")"] (.identifier "a") :=
    .target (.operand (.term (.factor (.primary (.group rfl ha rfl)))))
  have hp : parse "(a)" = .ok (.program [.identifier "a"]) :=
    (parse_eq_ok_iff hs).2 ⟨_, rfl, .statements (.expression hd) .noStatements (parted_nil _)⟩
  exact ⟨hp, formatSource_keeps_contents hp⟩

end LocksetLang
