import LocksetLang.Node.Equality
import LocksetLang.Proofs.Source.WellFormed
import Mathlib.Tactic

/-! Trees whose zeros have no sign. Source text has none for a number, so these are the trees that
come back from it, and they tell equal trees from others. -/

namespace LocksetLang

def Binary64.plain : Binary64 → Binary64
  | .finite negative rank h => .finite (negative && rank != 0) rank h
  | x => x

namespace Node

mutual

def plain : Node → Node
  | .program body => .program (plainAll body)
  | .declaration name constant value => .declaration name constant (plainOption value)
  | .function name parameters body => .function name parameters (plainAll body)
  | .conditional condition consequent alternate =>
    .conditional (plain condition) (plainAll consequent) (plainBranch alternate)
  | .assignment target value => .assignment (plain target) (plain value)
  | .property key value => .property key (plainOption value)
  | .object properties => .object (plainAll properties)
  | .binary left right operator => .binary (plain left) (plain right) operator
  | .equality left operator right => .equality (plain left) operator (plain right)
  | .call caller args => .call (plain caller) (plainAll args)
  | .member owner name computed => .member (plain owner) (plain name) computed
  | .identifier symbol => .identifier symbol
  | .number value => .number value.plain
  | .string value => .string value
  | .bare => .bare

def plainAll : List Node → List Node
  | [] => []
  | node :: rest => plain node :: plainAll rest

def plainOption : Option Node → Option Node
  | none => none
  | some node => some (plain node)

def plainBranch : Option (List Node) → Option (List Node)
  | none => none
  | some body => some (plainAll body)

end

end Node

theorem Binary64.plain_eq_of_same {x y : Binary64} (h : x.same y) : x.plain = y.plain := by
  cases x <;> cases y <;> simp only [Binary64.same, Bool.false_eq_true] at h
  · rw [beq_iff_eq.1 h]
  · next n r _ m s _ =>
    rw [Bool.and_eq_true, Bool.or_eq_true, beq_iff_eq, beq_iff_eq, beq_iff_eq] at h
    obtain ⟨rfl, rfl | rfl⟩ := h
    · rfl
    · simp [Binary64.plain]

theorem Binary64.same_plain {x : Binary64} (h : x.isNonnegative) : x.plain.same x := by
  cases x with
  | nan => cases h
  | infinite => cases h
  | finite negative rank =>
    cases negative <;> simp_all [Binary64.plain, Binary64.same, Binary64.isNonnegative]

namespace Node

/-- Equal trees differ in the signs of zeros at most. -/
theorem plain_eq_of_same : ∀ a b : Node, same a b → plain a = plain b := by
  refine (same.mutual_induct (fun a b => same a b → plain a = plain b)
    (fun as bs => sameBranch as bs → plainBranch as = plainBranch bs)
    (fun as bs => sameAll as bs → plainAll as = plainAll bs)
    (fun a b => sameOption a b → plainOption a = plainOption b)
    ?program ?declaration ?function ?conditional ?assignment ?property ?object ?binary ?equality
    ?call ?member ?identifier ?number ?string ?bare ?differ ?noBranch ?branch ?branchDiffer
    ?nil ?cons ?listDiffer ?none ?some ?optionDiffer).1
  case number =>
    intro x y h
    rw [same] at h
    rw [plain, plain, Binary64.plain_eq_of_same h]
  case differ =>
    intro a b
    intros
    rename_i h
    rw [same] at h
    · cases h
    all_goals assumption
  -- the parts of equal trees are equal, and no other lists and options are
  all_goals
    intros
    simp_all [same, sameAll, sameOption, sameBranch, plain, plainAll, plainOption, plainBranch]

theorem sameAll_plainAll {as : List Node} (h : ∀ a ∈ as, same (plain a) a) :
    sameAll (plainAll as) as := by
  induction as with
  | nil => rw [plainAll, sameAll]
  | cons a as ih =>
    rw [plainAll, sameAll, h a (by simp), ih fun b hb => h b (by simp [hb])]
    rfl

theorem sameOption_plainOption {a : Option Node} (h : ∀ e ∈ a, same (plain e) e) :
    sameOption (plainOption a) a := by
  cases a with
  | none => rw [plainOption, sameOption]
  | some e => rw [plainOption, sameOption, h e rfl]

theorem IsExpression.same_plain {e : Node} (h : e.IsExpression) : same (plain e) e := by
  induction h with
  | object hk _ ih =>
    rw [plain, same]
    refine sameAll_plainAll fun p hp => ?_
    obtain ⟨k, v, rfl, -⟩ := hk p hp
    have hv : sameOption (plainOption v) v := sameOption_plainOption fun e he =>
      ih k e (Option.mem_def.1 he ▸ hp)
    simp [plain, same, hv]
  | call _ _ ihf iha => simp [plain, same, ihf, sameAll_plainAll iha]
  | number hx => rw [plain, same, Binary64.same_plain hx]
  | identifier | string => simp [plain, same]
  | assignment _ _ iht ihv => simp [plain, same, iht, ihv]
  | binary _ _ _ ihl ihr | equality _ _ _ ihl ihr => simp [plain, same, ihl, ihr]
  | index _ _ ihe ihi => simp [plain, same, ihe, ihi]
  | member _ _ ihe => simp [plain, same, ihe]

theorem IsStatement.same_plain {s : Node} (h : s.IsStatement) : same (plain s) s := by
  induction h with
  | declaration _ hv _ =>
    simp [plain, same, sameOption_plainOption fun e he => (hv e he).same_plain]
  | function _ _ _ ih => simp [plain, same, sameAll_plainAll ih]
  | @conditional c consequent alternate hc _ _ iht iha =>
    have ha : sameBranch (plainBranch alternate) alternate := by
      cases alternate with
      | none => rw [plainBranch, sameBranch]
      | some body => rw [plainBranch, sameBranch, sameAll_plainAll (iha body rfl)]
    simp [plain, same, hc.same_plain, sameAll_plainAll iht, ha]
  | expression he => exact he.same_plain

end Node
end LocksetLang
