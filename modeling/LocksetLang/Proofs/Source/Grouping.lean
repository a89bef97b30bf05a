import LocksetLang.Proofs.Source.Content
import LocksetLang.Proofs.Token.Outside

/-! An expression is written with as few parentheses as it can be. No lexemes that derive it have
fewer, unless a number among them stands right before a dot, which nothing but a space makes
possible. The bound is for every rung of the grammar: looser expressions have one pair more on a
tighter rung, and groups are all that leads there. -/

namespace LocksetLang

open Source

section
variable {t : Lexeme} {k : Kind} {ls ms : List Lexeme} {lss : List (List Lexeme)}

@[simp] theorem openings_nil : openings [] = 0 := rfl

@[simp] theorem openings_append : openings (ls ++ ms) = openings ls + openings ms :=
  List.countP_append

@[simp] theorem openings_cons :
    openings (t :: ls) = openings ls + if t.kind = .leftParen then 1 else 0 := by
  simp [openings, List.countP_cons]

@[simp] theorem word_kind_ne (s : String) : (word s).kind ≠ .leftParen := fun he =>
  absurd (he ▸ wordKind_mem s : Kind.leftParen ∈ wordKinds) (by decide)

@[simp] theorem openings_wrapped (own asked : Nat) :
    openings (wrapped own asked ls) = openings ls + if own < asked then 1 else 0 := by
  unfold wrapped
  split_ifs
  · simp [sign_kind (s := "(") rfl, sign_kind (s := ")") rfl]
  · rfl

@[simp] theorem openings_commaSeparated :
    openings (commaSeparated lss) = (lss.map openings).sum := by
  induction lss with
  | nil => rfl
  | cons ls lss ih =>
    cases lss with
    | nil => simp [commaSeparated_singleton]
    | cons ms lss =>
      rw [commaSeparated_cons_cons, openings_append, openings_cons, ih]
      simp [sign_kind (s := ",") rfl]

end

variable {e : Node}

/-- A position that asks for more than the level of an expression costs one pair. -/
theorem openings_lexemes (h : e.IsExpression) (asked : Nat) :
    openings (lexemes asked e) = openings (lexemes 0 e) + if e.level < asked then 1 else 0 := by
  cases h <;> rw [lexemes, lexemes, openings_wrapped, openings_wrapped] <;> rfl

theorem openings_mono (h : e.IsExpression) {m n : Nat} (hmn : m ≤ n) :
    openings (lexemes m e) ≤ openings (lexemes n e) := by
  rw [openings_lexemes h m, openings_lexemes h n]
  split_ifs <;> omega

theorem openings_le_succ (h : e.IsExpression) (asked : Nat) :
    openings (lexemes asked e) ≤ openings (lexemes 0 e) + 1 := by
  rw [openings_lexemes h asked]
  split_ifs <;> omega

def Phrase.openings : (p : Phrase) → p.Tree → Nat
  | .primary, e => LocksetLang.openings (lexemes 5 e)
  | .call, e => LocksetLang.openings (lexemes 4 e)
  | .product, e => LocksetLang.openings (lexemes 3 e)
  | .sum, e => LocksetLang.openings (lexemes 2 e)
  | .object, e => LocksetLang.openings (lexemes 1 e)
  | .expression, e => LocksetLang.openings (lexemes 0 e)
  | .argumentList, es | .arguments, es => ((expressionsLexemes es).map LocksetLang.openings).sum
  | .entries, ps => ((entriesLexemes ps).map LocksetLang.openings).sum
  | _, _ => 0

variable {joins : List Lexeme → List Lexeme → Prop} {p : Phrase} {ls : List Lexeme} {v : p.Tree}

/-- Lexemes of a text of which no number stands right before a dot. -/
structure IsPlainlyWritten (ls : List Lexeme) : Prop where
  written : ∀ t ∈ ls, t.IsWritten
  unpointed : ls.IsChain Unpointed

theorem IsPlainlyWritten.part {ms : List Lexeme} (h : IsPlainlyWritten ls) (hm : ms <:+: ls) :
    IsPlainlyWritten ms :=
  ⟨fun t ht => h.written t (hm.subset ht), List.IsChain.infix h.unpointed hm⟩

theorem IsPlainlyWritten.left {ms : List Lexeme} (h : IsPlainlyWritten (ls ++ ms)) :
    IsPlainlyWritten ls :=
  h.part (List.prefix_append ls ms).isInfix

theorem IsPlainlyWritten.right {ms : List Lexeme} (h : IsPlainlyWritten (ls ++ ms)) :
    IsPlainlyWritten ms :=
  h.part (List.suffix_append ls ms).isInfix

theorem IsPlainlyWritten.tail {t : Lexeme} (h : IsPlainlyWritten (t :: ls)) : IsPlainlyWritten ls :=
  h.part (List.suffix_cons t ls).isInfix

/-- Before a dot a number stands in parentheses. -/
theorem Derives.openings_owner {d : Lexeme} {ms : List Lexeme} (h : Derives joins .call ls e)
    (hc : (ls ++ d :: ms).IsChain Unpointed) (hd : d.kind = .dot)
    (hle : LocksetLang.openings (lexemes 4 e) ≤ LocksetLang.openings ls) :
    LocksetLang.openings (wrapped 0 (if e.isNumber then 1 else 0) (lexemes 4 e)) ≤
      LocksetLang.openings ls := by
  cases e with
  | number x =>
    cases h with
    | primary h =>
      cases h with
      | @number t _ ht =>
        have hpoint : Unpointed t d := (List.isChain_cons_cons.1 hc).1
        exact absurd hd (hpoint ht)
      | group ho => simp [lexemes, Node.isNumber, ho]
  | _ => simpa [Node.isNumber] using hle

theorem level_of_additive {l r : Node} {o : String} (ho : o ∈ additiveOperators) :
    (Node.binary l r o).level = 2 := by
  rw [Node.level, if_pos (List.contains_iff_mem.2 ho)]

theorem level_of_multiplicative {l r : Node} {o : String} (ho : o ∈ multiplicativeOperators) :
    (Node.binary l r o).level = 3 := by
  rw [Node.level, if_neg]
  exact fun h => Grammar.not_multiplicative_of_additive (List.contains_iff_mem.1 h) ho

/-- The operands of an operation stand where its level is asked for, the right one where more is. -/
theorem openings_binary_le {o : Lexeme} {xs ys : List Lexeme} {l r : Node} {own : Nat}
    (ho : o.kind = .operator) (hv : o.value ∈ binaryOperators)
    (hown : (Node.binary l r o.value).level = own)
    (hl : openings (lexemes own l) ≤ openings xs)
    (hr : openings (lexemes (own + 1) r) ≤ openings ys) :
    openings (lexemes own (.binary l r o.value)) ≤ openings (xs ++ o :: ys) := by
  rw [lexemes, hown, ← eq_operator ho hv]
  simp [ho]
  omega

theorem Derives.openings_le (h : Derives joins p ls v) (hw : IsPlainlyWritten ls) :
    p.openings v ≤ LocksetLang.openings ls := by
  induction h with
  | identifier ht | number ht | string ht => simp [Phrase.openings, lexemes]
  | primary he ih | factor he ih | term he ih | operand he ih | target he ih =>
    exact (openings_mono (he.isPlain hw.written).1 (by omega)).trans (ih hw)
  | group ho he hc ih =>
    have hx := hw.tail.left
    have hbound := openings_le_succ (he.isPlain hx.written).1 5
    have ih := ih hx
    simp only [Phrase.openings] at ih ⊢
    simp only [openings_cons, openings_append, ho, openings_nil, if_true]
    omega
  | @comparison o s c xs ys l r ho hl hs hr hc ihl ihr =>
    have ihl := ihl hw.tail.left
    have ihr := ihr hw.tail.right.tail.left
    have hsign : (sign ((equalityOperators.lookup s.kind.name).getD "")).kind ≠ .leftParen := by
      rcases hs with hs | hs <;> rw [hs] <;> decide
    simp only [Phrase.openings, lexemes] at ihl ihr ⊢
    simp [ho, hsign, sign_kind (s := "(") rfl, sign_kind (s := ")") rfl]
    omega
  | @memberName d n xs e he hd hn ih =>
    have ih := ih hw.left
    have howner := he.openings_owner hw.unpointed hd ih
    simp only [Phrase.openings]
    have hname : LocksetLang.openings [sign ".", word n.value] = 0 := by
      simp [sign_kind (s := ".") rfl]
    rw [lexemes, openings_wrapped, openings_append, openings_append, hname, if_neg (Nat.lt_irrefl 4)]
    omega
  | memberIndex he ho hi hc ihe ihi =>
    have ihe := ihe hw.left
    have ihi := ihi hw.right.tail.left
    simp only [Phrase.openings] at ihe ihi ⊢
    rw [lexemes]
    simp [sign_kind (s := "[") rfl, sign_kind (s := "]") rfl]
    omega
  | call he ho ha hc ihe iha =>
    have ihe := ihe hw.left
    have iha := iha hw.right.tail.left
    simp only [Phrase.openings] at ihe iha ⊢
    rw [lexemes]
    simp [ho, sign_kind (s := "(") rfl, sign_kind (s := ")") rfl]
    omega
  | product hl ho hv hr ihl ihr =>
    exact openings_binary_le ho (List.mem_append_right _ hv) (level_of_multiplicative hv) (ihl hw.left)
      (ihr hw.right.tail)
  | sum hl ho hv hr ihl ihr =>
    exact openings_binary_le ho (List.mem_append_left _ hv) (level_of_additive hv) (ihl hw.left)
      (ihr hw.right.tail)
  | object ho hp hc ih =>
    have ih := ih hw.tail.left
    simp only [Phrase.openings] at ih ⊢
    rw [lexemes]
    simp [sign_kind (s := r"{") rfl, sign_kind (s := r"}") rfl]
    omega
  | assignment ht hq hv iht ihv =>
    have iht := iht hw.left
    have ihv := ihv hw.right.tail
    simp only [Phrase.openings] at iht ihv ⊢
    rw [lexemes]
    simp [sign_kind (s := "=") rfl]
    omega
  | oneArgument he ih =>
    have ih := ih hw
    simpa [Phrase.openings, expressionsLexemes] using ih
  | moreArguments he hc hs ihe ihs =>
    have ihe := ihe hw.left
    have ihs := ihs hw.right.tail
    simp only [Phrase.openings, expressionsLexemes] at ihe ihs ⊢
    simp
    omega
  | arguments _ ih => exact ih hw
  | lastEntry hk hs he ih =>
    have ih := ih hw.tail.tail
    simp only [Phrase.openings, entriesLexemes, entryLexemes] at ih ⊢
    simp [sign_kind (s := ":") rfl]
    omega
  | key hk hc hp ih =>
    have ih := ih hw.tail.tail
    simp only [Phrase.openings, entriesLexemes, entryLexemes] at ih ⊢
    simp
    omega
  | entry hk hs he hc hp ihe ihp =>
    have ihe := ihe hw.tail.tail.left
    have ihp := ihp hw.tail.tail.right.tail
    simp only [Phrase.openings, entriesLexemes, entryLexemes] at ihe ihp ⊢
    simp [sign_kind (s := ":") rfl]
    omega
  | lastKey => simp [Phrase.openings, entriesLexemes, entryLexemes]
  | _ => exact Nat.zero_le _

/-! ### The signs of zeros -/

/-- A literal does not show the sign of a zero. -/
theorem Binary64.literal?_plain (x : Binary64) : x.plain.literal? = x.literal? := by
  cases x with
  | nan | infinite => rfl
  | finite negative rank h => simp [Binary64.plain, Binary64.literal?]

theorem isNumber_plain (h : e.IsExpression) : e.plain.isNumber = e.isNumber := by
  cases h <;> rw [Node.plain] <;> rfl

theorem expressionsLexemes_plainAll {as : List Node}
    (h : ∀ a ∈ as, ∀ asked, lexemes asked a.plain = lexemes asked a) :
    expressionsLexemes (Node.plainAll as) = expressionsLexemes as := by
  induction as with
  | nil => rfl
  | cons a as ih =>
    rw [Node.plainAll, expressionsLexemes, expressionsLexemes, h a (by simp),
      ih fun b hb => h b (by simp [hb])]

theorem entriesLexemes_plainAll {ps : List Node} (hk : ∀ p ∈ ps, ∃ k v, p = .property k v ∧ isName k)
    (h : ∀ k e, .property k (some e) ∈ ps → ∀ asked, lexemes asked e.plain = lexemes asked e) :
    entriesLexemes (Node.plainAll ps) = entriesLexemes ps := by
  induction ps with
  | nil => rfl
  | cons p ps ih =>
    have ih := ih (fun q hq => hk q (by simp [hq])) fun k e he => h k e (by simp [he])
    obtain ⟨k, value, rfl, -⟩ := hk p (by simp)
    rw [Node.plainAll, entriesLexemes, entriesLexemes, ih, Node.plain]
    cases value with
    | none => rw [Node.plainOption]
    | some e => rw [Node.plainOption, entryLexemes, entryLexemes, h k e (by simp)]

theorem lexemes_plain (h : e.IsExpression) : ∀ asked, lexemes asked e.plain = lexemes asked e := by
  induction h with
  | assignment _ _ iht ihv =>
    intro asked
    rw [Node.plain, lexemes, lexemes, iht, ihv]
  | object hk _ ih =>
    intro asked
    rw [Node.plain, lexemes, lexemes, entriesLexemes_plainAll hk ih]
  | binary _ _ _ ihl ihr =>
    intro asked
    rw [Node.plain, lexemes, lexemes, ihl, ihr]
    rfl
  | equality _ _ _ ihl ihr =>
    intro asked
    rw [Node.plain, lexemes, lexemes, ihl, ihr]
  | call _ _ ihf iha =>
    intro asked
    rw [Node.plain, lexemes, lexemes, ihf, expressionsLexemes_plainAll iha]
  | index _ _ ihe ihi =>
    intro asked
    rw [Node.plain, lexemes, lexemes, ihe, ihi]
  | member he _ ihe =>
    intro asked
    rw [Node.plain, Node.plain, lexemes, lexemes, ihe, isNumber_plain he]
  | identifier | string =>
    intro asked
    rw [Node.plain]
  | number =>
    intro asked
    rw [Node.plain, lexemes, lexemes, Binary64.literal?_plain]

/-- No lexemes that are read as an expression have fewer parentheses than its own. -/
theorem openings_le_of_same {w : Node} (h : Derives joins .expression ls w)
    (hw : IsPlainlyWritten ls) (he : e.IsExpression) (hs : w.same e) :
    openings (lexemes 0 e) ≤ openings ls := by
  have hplain : w = e.plain := by
    rw [← (h.isPlain hw.written).2]
    exact Node.plain_eq_of_same w e hs
  rw [← lexemes_plain he 0, ← hplain]
  exact h.openings_le hw

end LocksetLang
