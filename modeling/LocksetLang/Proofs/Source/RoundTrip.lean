import LocksetLang.Proofs.Source.Parsed
import LocksetLang.Proofs.Source.Runs

/-! Programs and their texts. The text of a program gives the program back unless a statement runs
into the next one, and then it never does: a call more is read than the program has. -/

namespace LocksetLang

open Node Source

variable {tree : Node} {text : String} {ss : List Node}

theorem derives_iff_isParted (h : ∀ s ∈ ss, s.IsStatement) :
    Derives Parted .statements (statementsLexemes ss) (plainAll ss) ↔ (program ss).IsParted := by
  constructor
  · intro hd
    have hcount := callStarts_statements h fun s hs => callStarts_statement (h s hs)
    rw [hd.callStarts_eq, Phrase.calls] at hcount
    refine isParted_of_runsWithin_eq_zero ?_
    rw [blocks, runsWithin_cons]
    omega
  · intro hp
    rw [IsParted, blocks, List.forall_mem_cons, forall_mem_blocksOf] at hp
    exact derives_statements h (fun s hs => (derives_of_isStatement (h s hs) (hp.2 s hs)).1) hp.1

/-- A text of the lexemes of a program holds an equal program only without its signs of zeros. -/
theorem parse_same_iff (h : ∀ s ∈ ss, s.IsStatement)
    (hs : Spells text.toList (statementsLexemes ss)) :
    parse text = .ok tree ∧ same tree (program ss) ↔
      tree = program (plainAll ss) ∧ (program ss).IsParted := by
  rw [← derives_iff_isParted h]
  constructor
  · rintro ⟨hp, hsame⟩
    obtain ⟨ts, rfl, hd⟩ := (parse_eq_ok_iff hs).1 hp
    have hplain : plainAll ts = ts :=
      plainAll_eq_self fun t ht => (isPlainStatement_of_parse hp t ht).2
    have heq := plain_eq_of_same _ _ hsame
    rw [plain, plain, hplain, program.injEq] at heq
    subst heq
    exact ⟨rfl, hd⟩
  · rintro ⟨rfl, hd⟩
    refine ⟨(parse_eq_ok_iff hs).2 ⟨_, rfl, hd⟩, ?_⟩
    rw [same, sameAll_plainAll fun s hs => (h s hs).same_plain]

theorem not_isParted_of_runsInto {s t : Node} (h : s.runsInto t = true) :
    ¬ (program (s :: t :: ss)).IsParted := by
  intro hp
  rw [IsParted, blocks, List.forall_mem_cons] at hp
  have hst : s.runsInto t = false := hp.1.rel
  rw [h] at hst
  cases hst

/-- Any program that can be written down is read back if and only if no statement runs into the
next one. -/
theorem formatSource_roundtrip_iff (h : tree.WellFormed) :
    ∃ text, formatSource tree = .ok text ∧
      ((∃ q, parse text = .ok q ∧ q.same tree) ↔ tree.IsParted) := by
  cases tree with
  | program ss =>
    obtain ⟨text, hf, hs⟩ := formatSource_spells h
    refine ⟨text, hf, ⟨?_, fun hp => ⟨_, (parse_same_iff h hs).2 ⟨rfl, hp⟩⟩⟩⟩
    rintro ⟨q, hq⟩
    exact ((parse_same_iff h hs).1 hq).2
  | _ => exact absurd h id

/-- An object literal ends with a brace, so what follows may start with a parenthesis. -/
theorem object_roundtrip :
    let tree := program [.object [], .equality (.identifier "a") "DOUBLE_EQUALS" (.identifier "b")]
    tree.WellFormed ∧ tree.IsParted ∧
      ∃ text, formatSource tree = .ok text ∧ ∃ q, parse text = .ok q ∧ q.same tree := by
  have ha : IsExpression (.identifier "a") := .identifier (by decide)
  have hb : IsExpression (.identifier "b") := .identifier (by decide)
  have h : (program [.object [], .equality (.identifier "a") "DOUBLE_EQUALS"
      (.identifier "b")]).WellFormed :=
    List.forall_mem_cons.2 ⟨.expression isPlainExpression_object_nil.1,
      List.forall_mem_singleton.2 (.expression (.equality ha hb (by decide)))⟩
  have hparted : (program [.object [], .equality (.identifier "a") "DOUBLE_EQUALS"
      (.identifier "b")]).IsParted := by
    simp only [IsParted, blocks, blocksOf]
    decide +kernel
  obtain ⟨text, hf, hread⟩ := formatSource_roundtrip_iff h
  exact ⟨h, hparted, text, hf, hread.2 hparted⟩

/-- The layout of a text is laid out the same again if and only if no statement of it runs into the
next one. -/
theorem formatSource_stable_iff {source : String} (h : parse source = .ok tree) :
    ∃ text, formatSource tree = .ok text ∧
      ((∃ q, parse text = .ok q ∧ q.same tree ∧ formatSource q = .ok text) ↔ tree.IsParted) := by
  obtain ⟨-, -, ss, -, -, -, rfl, -⟩ := derives_of_parse h
  have hplain := isPlainStatement_of_parse h
  have hst : ∀ s ∈ ss, s.IsStatement := fun s hs => (hplain s hs).1
  obtain ⟨text, hf, hs⟩ := formatSource_spells hst
  refine ⟨text, hf, ?_, fun hp => ?_⟩
  · rintro ⟨q, hq, hsame, -⟩
    exact ((parse_same_iff hst hs).1 ⟨hq, hsame⟩).2
  · obtain ⟨hq, hsame⟩ := (parse_same_iff hst hs).2 ⟨rfl, hp⟩
    refine ⟨_, hq, hsame, ?_⟩
    rw [plainAll_eq_self fun s hs => (hplain s hs).2, hf]

theorem names_stable :
    let tree := program [.identifier "a", .identifier "b"]
    parse "a b" = .ok tree ∧ tree.IsParted ∧ ∃ text, formatSource tree = .ok text ∧
      ∃ q, parse text = .ok q ∧ q.same tree ∧ formatSource q = .ok text := by
  have hs : Spells "a b".toList [word "a", word "b"] :=
    (spells_name (s := "a") (by decide)).spaced (spells_name (s := "b") (by decide)) (by simp)
      (by simp)
  have ha : Derives Parted .expression [word "a"] (.identifier "a") :=
    .target (.operand (.term (.factor (.primary (.identifier rfl)))))
  have hb : Derives Parted .expression [word "b"] (.identifier "b") :=
    .target (.operand (.term (.factor (.primary (.identifier rfl)))))
  have hj : Parted [word "a"] [word "b"] := by
    intro h
    exact absurd h (by decide)
  have h : parse "a b" = .ok (program [.identifier "a", .identifier "b"]) :=
    (parse_eq_ok_iff hs).2 ⟨_, rfl,
      .statements (.expression ha) (.statements (.expression hb) .noStatements (parted_nil _)) hj⟩
  have hparted : (program [.identifier "a", .identifier "b"]).IsParted := by
    simp only [IsParted, blocks, blocksOf]
    decide +kernel
  obtain ⟨text, hf, hread⟩ := formatSource_stable_iff h
  exact ⟨h, hparted, text, hf, hread.2 hparted⟩

def zeroNumeral : Numeral := ⟨['0'], none, by decide, List.forall_mem_singleton.2 rfl⟩

theorem ofText?_zero : Binary64.ofText? "0" = some (.zero false) :=
  Binary64.ofText?_chars zeroNumeral

/-- A number that owns a member is put in parentheses, and so the name before it is called. -/
theorem number_member_not_stable : ∃ tree text, parse "a 0 .x" = .ok tree ∧
    formatSource tree = .ok text ∧
    ¬ ∃ q, parse text = .ok q ∧ q.same tree ∧ formatSource q = .ok text := by
  have hdot : Spells ('.' :: "x".toList) [sign ".", word "x"] := spells_dot (by decide)
  have hzero : Spells ['0'] [⟨.number, "0"⟩] := .single (.number zeroNumeral)
  have hs : Spells "a 0 .x".toList [word "a", ⟨.number, "0"⟩, sign ".", word "x"] :=
    (spells_name (s := "a") (by decide)).spaced (hzero.spaced hdot (by simp) (by simp)) (by simp)
      (by simp)
  have ha : Derives Parted .call [word "a"] (.identifier "a") := .primary (.identifier rfl)
  have hm : Derives Parted .call ([⟨.number, "0"⟩] ++ [sign ".", word "x"])
      (.member (.number (.zero false)) (.identifier "x") false) :=
    .memberName (n := word "x") (.primary (.number rfl ofText?_zero rfl)) rfl rfl
  have hj : Parted [word "a"] [⟨.number, "0"⟩, sign ".", word "x"] := by
    intro h
    exact absurd h (by decide)
  have hp := (parse_eq_ok_iff hs).2 ⟨_, rfl, .statements
    (.expression (.target (.operand (.term (.factor ha)))))
    (.statements (.expression (.target (.operand (.term (.factor hm))))) .noStatements (parted_nil _)) hj⟩
  have hst := fun s hs => (isPlainStatement_of_parse hp s hs).1
  obtain ⟨text, hf, hspells⟩ := formatSource_spells hst
  refine ⟨_, text, hp, hf, ?_⟩
  rintro ⟨q, hq, hsame, -⟩
  refine not_isParted_of_runsInto ?_ ((parse_same_iff hst hspells).1 ⟨hq, hsame⟩).2
  rw [runsInto_eq (hst _ (by simp)) (hst _ (by simp))]
  simp only [statementLexemes, lexemes, isNumber, wrapped]
  decide

end LocksetLang
