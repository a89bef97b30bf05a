import LocksetLang.Proofs.Binary64.Decimal
import LocksetLang.Proofs.Grammar.Recognition
import LocksetLang.Proofs.Source.Classes
import LocksetLang.Proofs.Source.Plain
import LocksetLang.Proofs.Token.Coverage

/-! Trees that come from text. They are well-formed, as the lexemes of a text are names, numbers and
strings that can be written, and no number of them has a sign. -/

namespace LocksetLang

open Lexeme

theorem Binary64.ofDecimal_plain {d : Decimal} (hf : (ofDecimal false d).isFinite) :
    (ofDecimal false d).isNonnegative ∧ (ofDecimal false d).plain = ofDecimal false d := by
  rw [ofDecimal_eq_ofUnits, ofUnits] at hf ⊢
  split_ifs with h
  · exact ⟨rfl, rfl⟩
  · rw [dif_neg h] at hf
    cases hf

namespace Node

variable {e f : Node} {es ss : List Node} {n o : String}

def IsPlainExpression (e : Node) : Prop := e.IsExpression ∧ e.plain = e

def IsPlainStatement (s : Node) : Prop := s.IsStatement ∧ s.plain = s

theorem plainAll_eq_self (h : ∀ e ∈ es, e.plain = e) : plainAll es = es := by
  induction es with
  | nil => rw [plainAll]
  | cons e es ih => rw [plainAll, h e (by simp), ih fun f hf => h f (by simp [hf])]

theorem IsPlainExpression.isPlainStatement (h : e.IsPlainExpression) : e.IsPlainStatement :=
  ⟨.expression h.1, h.2⟩

theorem IsPlainExpression.assignment (he : e.IsPlainExpression) (hf : f.IsPlainExpression) :
    (assignment e f).IsPlainExpression :=
  ⟨.assignment he.1 hf.1, by rw [plain, he.2, hf.2]⟩

theorem IsPlainExpression.binary (he : e.IsPlainExpression) (hf : f.IsPlainExpression)
    (ho : o ∈ binaryOperators) : (binary e f o).IsPlainExpression :=
  ⟨.binary he.1 hf.1 ho, by rw [plain, he.2, hf.2]⟩

theorem IsPlainExpression.equality (he : e.IsPlainExpression) (hf : f.IsPlainExpression)
    (ho : o ∈ equalityOperators.map (·.1)) : (equality e o f).IsPlainExpression :=
  ⟨.equality he.1 hf.1 ho, by rw [plain, he.2, hf.2]⟩

theorem IsPlainExpression.index (he : e.IsPlainExpression) (hf : f.IsPlainExpression) :
    (member e f true).IsPlainExpression :=
  ⟨.index he.1 hf.1, by rw [plain, he.2, hf.2]⟩

theorem IsPlainExpression.member (he : e.IsPlainExpression) (hn : isName n) :
    (member e (identifier n) false).IsPlainExpression :=
  ⟨.member he.1 hn, by rw [plain, plain, he.2]⟩

theorem IsPlainExpression.call (he : e.IsPlainExpression)
    (hes : ∀ a ∈ es, a.IsPlainExpression) : (call e es).IsPlainExpression :=
  ⟨.call he.1 fun a ha => (hes a ha).1,
    by rw [plain, he.2, plainAll_eq_self fun a ha => (hes a ha).2]⟩

theorem IsPlainExpression.declaration {constant : Bool} (he : e.IsPlainExpression)
    (hn : isName n) : (declaration n constant (some e)).IsPlainStatement := by
  refine ⟨.declaration hn ?_ fun _ => rfl, by rw [plain, plainOption, he.2]⟩
  rintro _ ⟨⟩
  exact he.1

theorem isPlainStatement_function {names : List String} (hn : isName n)
    (hns : ∀ p ∈ names, isName p) (hss : ∀ s ∈ ss, s.IsPlainStatement) :
    (function n names ss).IsPlainStatement :=
  ⟨.function hn hns fun s hs => (hss s hs).1,
    by rw [plain, plainAll_eq_self fun s hs => (hss s hs).2]⟩

theorem plainBranch_eq_self {a : Option (List Node)} (h : ∀ ss ∈ a, ∀ s ∈ ss, s.plain = s) :
    plainBranch a = a := by
  cases a with
  | none => rw [plainBranch]
  | some ss => rw [plainBranch, plainAll_eq_self (h ss rfl)]

theorem IsPlainExpression.conditional {a : Option (List Node)} (he : e.IsPlainExpression)
    (hss : ∀ s ∈ ss, s.IsPlainStatement) (ha : ∀ ts ∈ a, ∀ s ∈ ts, s.IsPlainStatement) :
    (conditional e ss a).IsPlainStatement :=
  ⟨.conditional he.1 (fun s hs => (hss s hs).1) fun ts ht s hs => (ha ts ht s hs).1,
    by rw [plain, he.2, plainAll_eq_self fun s hs => (hss s hs).2,
      plainBranch_eq_self fun ts ht s hs => (ha ts ht s hs).2]⟩

theorem isPlainExpression_object_nil : (object []).IsPlainExpression := by
  refine ⟨.object (by simp) (by simp), ?_⟩
  rw [plain, plainAll]

theorem isPlainExpression_object_cons {k : String} {v : Option Node} (hk : isName k)
    (hv : ∀ e ∈ v, e.IsPlainExpression) (h : (object es).IsPlainExpression) :
    (object (.property k v :: es)).IsPlainExpression := by
  obtain ⟨h, hp⟩ := h
  rw [plain, Node.object.injEq] at hp
  have hplain : plainOption v = v := by
    cases v with
    | none => rw [plainOption]
    | some e => rw [plainOption, (hv e rfl).2]
  refine ⟨?_, by rw [plain, plainAll, plain, hplain, hp]⟩
  cases h with
  | object hks hvs =>
    refine .object (List.forall_mem_cons.2 ⟨⟨k, v, rfl, hk⟩, hks⟩) fun l f hf => ?_
    rcases List.mem_cons.1 hf with he | hf
    · obtain ⟨rfl, rfl⟩ := Node.property.inj he
      exact (hv f rfl).1
    · exact hvs l f hf

end Node

def Phrase.IsPlain : (p : Phrase) → p.Tree → Prop
  | .primary, e | .call, e | .product, e | .sum, e | .object, e | .expression, e =>
    Node.IsPlainExpression e
  | .argumentList, es | .arguments, es => ∀ e ∈ es, Node.IsPlainExpression e
  | .entries, ps => (Node.object ps).IsPlainExpression
  | .statement, s | .conditional, s => Node.IsPlainStatement s
  | .statements, ss | .block, ss => ∀ s ∈ ss, Node.IsPlainStatement s
  | .alternate, a => ∀ ss ∈ a, ∀ s ∈ ss, Node.IsPlainStatement s

open Node

variable {joins : List Lexeme → List Lexeme → Prop} {p : Phrase} {ls : List Lexeme} {v : p.Tree}

theorem Derives.isPlain (h : Derives joins p ls v) (hw : ∀ t ∈ ls, t.IsWritten) : p.IsPlain v := by
  induction h with
    -- the parts of a phrase are written
    try simp only [List.forall_mem_append, List.forall_mem_cons, List.not_mem_nil, false_implies,
      implies_true, and_true] at hw
  | identifier ht => exact ⟨.identifier (hw.classed.name ht), by rw [plain]⟩
  | number ht hx hf =>
    obtain ⟨n, hn⟩ := hw.classed.numeral ht
    rw [hn, Binary64.ofText?_chars] at hx
    obtain rfl := Option.some.inj hx
    obtain ⟨hnn, hp⟩ := Binary64.ofDecimal_plain hf
    exact ⟨.number hnn, by rw [plain, hp]⟩
  | string ht => exact ⟨.string (hw.classed.string ht), by rw [plain]⟩
  | primary _ ih | factor _ ih | term _ ih | operand _ ih | target _ ih | arguments _ ih
  | branching _ ih => exact ih hw
  | expression _ ih => exact (ih hw).isPlainStatement
  | noArguments | noStatements => exact List.forall_mem_nil _
  | noAlternate => simp [Phrase.IsPlain]
  | noEntries => exact isPlainExpression_object_nil
  | group ho he hc ih | object ho hp hc ih | block ho hs hc ih => exact ih hw.2.1
  | comparison ho hl hs hr hc ihl ihr =>
    obtain ⟨-, hwl, -, hwr, -⟩ := hw
    refine (ihl hwl).equality (ihr hwr) ?_
    rcases hs with hs | hs <;> rw [hs] <;> decide
  | memberName he hd hn ih =>
    obtain ⟨hwe, -, hwn⟩ := hw
    exact (ih hwe).member (hwn.classed.name hn)
  | memberIndex he ho hi hc ihe ihi =>
    obtain ⟨hwe, -, hwi, -⟩ := hw
    exact (ihe hwe).index (ihi hwi)
  | call he ho ha hc ihe iha =>
    obtain ⟨hwe, -, hwa, -⟩ := hw
    exact (ihe hwe).call (iha hwa)
  | product hl ho hv hr ihl ihr =>
    obtain ⟨hwl, -, hwr⟩ := hw
    exact (ihl hwl).binary (ihr hwr) (List.mem_append_right _ hv)
  | sum hl ho hv hr ihl ihr =>
    obtain ⟨hwl, -, hwr⟩ := hw
    exact (ihl hwl).binary (ihr hwr) (List.mem_append_left _ hv)
  | assignment ht hq hv iht ihv =>
    obtain ⟨hwt, -, hwv⟩ := hw
    exact (iht hwt).assignment (ihv hwv)
  | oneArgument he ih => exact List.forall_mem_singleton.2 (ih hw)
  | moreArguments he hc hs ihe ihs =>
    obtain ⟨hwe, -, hws⟩ := hw
    exact List.forall_mem_cons.2 ⟨ihe hwe, ihs hws⟩
  | lastKey hk =>
    exact isPlainExpression_object_cons (hw.classed.name hk) (by simp) isPlainExpression_object_nil
  | key hk hc hp ih =>
    obtain ⟨hwk, -, hwp⟩ := hw
    exact isPlainExpression_object_cons (hwk.classed.name hk) (by simp) (ih hwp)
  | lastEntry hk hs he ih =>
    obtain ⟨hwk, -, hwe⟩ := hw
    refine isPlainExpression_object_cons (hwk.classed.name hk) ?_ isPlainExpression_object_nil
    rintro f ⟨⟩
    exact ih hwe
  | entry hk hs he hc hp ihe ihp =>
    obtain ⟨hwk, -, hwe, -, hwp⟩ := hw
    refine isPlainExpression_object_cons (hwk.classed.name hk) ?_ (ihp hwp)
    rintro f ⟨⟩
    exact ihe hwe
  | declared hk hn hs =>
    obtain ⟨-, hwn, -⟩ := hw
    exact ⟨.declaration (hwn.classed.name hn) (by simp) (by simp), by rw [plain, plainOption]⟩
  | assigned hk hn hq he hs ih =>
    obtain ⟨-, hwn, -, hwe, -⟩ := hw
    exact (ih hwe).declaration (hwn.classed.name hn)
  | function hk hn ho hp hc hb ihp ihb =>
    obtain ⟨-, hwn, -, hwp, -, hwb⟩ := hw
    refine isPlainStatement_function (hwn.classed.name hn) (fun n h => ?_) (ihb hwb)
    cases (ihp hwp _ (List.mem_map_of_mem h)).1 with
    | identifier hn => exact hn
  | statements hs hr hj ihs ihr => exact List.forall_mem_cons.2 ⟨ihs hw.1, ihr hw.2⟩
  | elseIf hk hs ih =>
    rintro ss ⟨⟩
    exact List.forall_mem_singleton.2 (ih hw.2)
  | otherwise hk hs ih =>
    rintro ss ⟨⟩
    exact ih hw.2
  | conditional hk he hs ha ihe ihs iha =>
    obtain ⟨-, hwe, hws, hwa⟩ := hw
    exact (ihe hwe).conditional (ihs hws) (iha hwa)

section
variable {source text : String} {tree : Node} {ss : List Node}

/-- A text that is a program derives the statements of it. -/
theorem derives_of_parse (h : parse source = .ok tree) :
    ∃ body last ss, tokenize source = .ok (body ++ [last]) ∧
      last.lexeme = ⟨.endOfInput, Kind.endOfInput.name⟩ ∧ (∀ t ∈ body, t.lexeme.IsWritten) ∧
      tree = .program ss ∧ Derives Parted .statements (body.map Token.lexeme) ss := by
  rw [parse] at h
  cases ht : tokenize source with
  | error f => rw [ht] at h; cases h
  | ok ts =>
    rw [ht] at h
    obtain ⟨body, last, rfl, hlast, hbody⟩ := tokens_written ht
    cases hp : parseTokens (body ++ [last]) with
    | error f => simp only [hp] at h; cases h
    | ok v =>
      simp only [hp] at h
      obtain rfl := Except.ok.inj h
      obtain ⟨ss, rfl, hd⟩ := derives_of_parseTokens (congrArg Lexeme.kind hlast)
        (fun t ht => (hbody t ht).kind_ne_end) hp
      exact ⟨body, last, ss, rfl, hlast, hbody, rfl, hd⟩

theorem scans_of_parse (h : parse source = .ok tree) :
    ∃ body place ss, tokenize source = .ok (body ++ [Cursor.endToken place]) ∧
      Scans source.toList (body.map Token.lexeme) ∧ (∀ t ∈ body, t.lexeme.IsWritten) ∧
      tree = .program ss ∧ Derives Parted .statements (body.map Token.lexeme) ss := by
  obtain ⟨body, last, ss, ht, -, hw, he, hd⟩ := derives_of_parse h
  obtain ⟨ts, place, hts, hscans⟩ := scans_of_tokenize ht
  obtain ⟨rfl, hlast⟩ := List.append_inj' hts rfl
  rw [hlast] at ht
  exact ⟨body, place, ss, ht, hscans, hw, he, hd⟩

/-- What a text holds is decided by its lexemes. -/
theorem parse_iff_of_scans (h : Scans text.toList ls) :
    parse text = .ok tree ↔ ∃ ss, tree = .program ss ∧ Derives Parted .statements ls ss := by
  obtain ⟨ts, place, ht, rfl⟩ := tokenize_of_scans h
  constructor
  · intro hp
    obtain ⟨body, last, ss, htok, -, -, rfl, hd⟩ := derives_of_parse hp
    rw [ht, Except.ok.injEq] at htok
    obtain ⟨rfl, -⟩ := List.append_inj' htok rfl
    exact ⟨ss, rfl, hd⟩
  · rintro ⟨ss, rfl, hd⟩
    have hend : (Cursor.endToken place).kind = .endOfInput := rfl
    have hp := parseTokens_of_derives hend hd
    rw [parse, ht]
    simp only [hp]
    rfl

theorem parse_eq_ok_iff (h : Spells text.toList ls) :
    parse text = .ok tree ↔ ∃ ss, tree = .program ss ∧ Derives Parted .statements ls ss :=
  parse_iff_of_scans (h.scans (List.forall_mem_nil _))

theorem isPlainStatement_of_parse (h : parse source = .ok (.program ss)) :
    ∀ s ∈ ss, s.IsPlainStatement := by
  obtain ⟨body, last, ts, -, -, hbody, he, hd⟩ := derives_of_parse h
  obtain rfl := Node.program.inj he
  exact hd.isPlain (List.forall_mem_map.2 hbody)

end
end LocksetLang
