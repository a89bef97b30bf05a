import LocksetLang.Proofs.Source.Plain
import LocksetLang.Proofs.Source.Printing

/-! The lexemes of an expression derive it, whatever position it is written for. The levels of
positions are the rungs of the grammar, and parentheses lead from the loosest to the tightest. -/

namespace LocksetLang.Source

variable {joins : List Lexeme → List Lexeme → Prop} {ls : List Lexeme} {e : Node}

def DerivesAt (joins : List Lexeme → List Lexeme → Prop) : Nat → List Lexeme → Node → Prop
  | 0 => Derives joins .expression
  | 1 => Derives joins .object
  | 2 => Derives joins .sum
  | 3 => Derives joins .product
  | 4 => Derives joins .call
  | _ => Derives joins .primary

theorem DerivesAt.of_primary (h : Derives joins .primary ls e) : ∀ n, DerivesAt joins n ls e
  | 0 => .target (.operand (.term (.factor (.primary h))))
  | 1 => .operand (.term (.factor (.primary h)))
  | 2 => .term (.factor (.primary h))
  | 3 => .factor (.primary h)
  | 4 => .primary h
  | _ + 5 => h

theorem DerivesAt.pred {n : Nat} (h : DerivesAt joins (n + 1) ls e) : DerivesAt joins n ls e :=
  match n, h with
  | 0, h => .target h
  | 1, h => .operand h
  | 2, h => .term h
  | 3, h => .factor h
  | 4, h => .primary h
  | _ + 5, h => h

theorem DerivesAt.mono {m n : Nat} (hmn : m ≤ n) (h : DerivesAt joins n ls e) :
    DerivesAt joins m ls e := by
  induction hmn with
  | refl => exact h
  | step _ ih => exact ih h.pred

theorem sign_kind {s : String} {k : Kind} (h : symbols.lookup s = some k) : (sign s).kind = k := by
  rw [sign_eq h]

theorem DerivesAt.wrapped (own : Nat) {asked : Nat} (h : DerivesAt joins own ls e) :
    DerivesAt joins asked (wrapped own asked ls) e := by
  unfold Source.wrapped
  split_ifs with hlt
  · exact .of_primary (.group rfl (h.mono (Nat.zero_le own)) rfl) asked
  · exact h.mono (Nat.le_of_not_lt hlt)

theorem commaSeparated_cons_cons (ls ms : List Lexeme) (lss : List (List Lexeme)) :
    commaSeparated (ls :: ms :: lss) = ls ++ sign "," :: commaSeparated (ms :: lss) := by
  simp [commaSeparated]

theorem commaSeparated_singleton (ls : List Lexeme) : commaSeparated [ls] = ls := by
  simp [commaSeparated]

/-- What the lexemes of an expression derive, in every position. -/
def DerivesItself (joins : List Lexeme → List Lexeme → Prop) (e : Node) : Prop :=
  ∀ asked, DerivesAt joins asked (lexemes asked e) e.plain

theorem derives_argumentList {a : Node} {as : List Node}
    (h : ∀ b ∈ a :: as, DerivesItself joins b) :
    Derives joins .argumentList (commaSeparated (expressionsLexemes (a :: as)))
      (Node.plainAll (a :: as)) := by
  induction as generalizing a with
  | nil =>
    simp only [expressionsLexemes, commaSeparated_singleton, Node.plainAll]
    exact .oneArgument (h a (by simp) 0)
  | cons b as ih =>
    rw [expressionsLexemes, expressionsLexemes, commaSeparated_cons_cons, Node.plainAll]
    exact .moreArguments (h a (by simp) 0) rfl (ih fun c hc => h c (by simp [hc]))

theorem derives_arguments {as : List Node} (h : ∀ a ∈ as, DerivesItself joins a) :
    Derives joins .arguments (commaSeparated (expressionsLexemes as)) (Node.plainAll as) := by
  cases as with
  | nil => exact .noArguments
  | cons a as => exact .arguments (derives_argumentList h)

theorem derives_entries {ps : List Node} (hk : ∀ p ∈ ps, ∃ k v, p = .property k v ∧ isName k)
    (hv : ∀ k e, .property k (some e) ∈ ps → DerivesItself joins e) :
    Derives joins .entries (commaSeparated (entriesLexemes ps)) (Node.plainAll ps) := by
  induction ps with
  | nil => exact .noEntries
  | cons p ps ih =>
    have ih := ih (fun q hq => hk q (by simp [hq])) fun k e h => hv k e (by simp [h])
    obtain ⟨k, value, rfl, hn⟩ := hk p (by simp)
    have hword : word k = ⟨.identifier, k⟩ := word_of_isName hn
    cases ps with
    | nil =>
      simp only [entriesLexemes, commaSeparated_singleton, Node.plainAll]
      cases value with
      | none =>
        rw [entryLexemes, hword, Node.plain, Node.plainOption]
        exact .lastKey (k := ⟨.identifier, k⟩) rfl
      | some e =>
        rw [entryLexemes, hword, Node.plain, Node.plainOption]
        exact .lastEntry (k := ⟨.identifier, k⟩) rfl rfl (hv k e (by simp) 0)
    | cons q ps =>
      rw [entriesLexemes, entriesLexemes, commaSeparated_cons_cons, Node.plainAll]
      rw [entriesLexemes] at ih
      cases value with
      | none =>
        rw [entryLexemes, hword, Node.plain, Node.plainOption]
        exact .key (k := ⟨.identifier, k⟩) rfl rfl ih
      | some e =>
        rw [entryLexemes, hword, Node.plain, Node.plainOption]
        exact .entry (k := ⟨.identifier, k⟩) rfl rfl (hv k e (by simp) 0) rfl ih

section
variable {l r f i : Node} {n o : String}

theorem derives_binary (ho : o ∈ binaryOperators) (dl : DerivesItself joins l)
    (dr : DerivesItself joins r) : DerivesItself joins (.binary l r o) := by
  intro asked
  rw [lexemes, Node.plain]
  refine DerivesAt.wrapped _ ?_
  have hsign : sign o = ⟨.operator, o⟩ := sign_eq (operator_lookup ho)
  rw [Node.level, hsign]
  split_ifs with ha
  · exact .sum (o := ⟨.operator, o⟩) (dl 2) rfl (List.contains_iff_mem.1 ha) (dr 3)
  · have hm : o ∈ multiplicativeOperators :=
      (List.mem_append.1 ho).resolve_left fun h => ha (List.contains_iff_mem.2 h)
    exact .product (o := ⟨.operator, o⟩) (dl 3) rfl hm (dr 4)

theorem derives_equality (ho : o ∈ equalityOperators.map (·.1)) (dl : DerivesItself joins l)
    (dr : DerivesItself joins r) : DerivesItself joins (.equality l o r) := by
  intro asked
  rw [lexemes, Node.plain]
  refine DerivesAt.wrapped _ (DerivesAt.of_primary ?_ 5)
  have hall : ∀ o ∈ equalityOperators.map (·.1),
      o = Kind.doubleEquals.name ∨ o = Kind.notEquals.name := by decide
  rcases hall o ho with rfl | rfl
  · exact .comparison (s := sign "==") rfl (dl 0) (.inl rfl) (dr 0) rfl
  · exact .comparison (s := sign "!=") rfl (dl 0) (.inr rfl) (dr 0) rfl

theorem derives_member (hn : isName n) (de : DerivesItself joins e) :
    DerivesItself joins (.member e (.identifier n) false) := by
  intro asked
  rw [lexemes, Node.plain, Node.plain, word_of_isName hn]
  have downer : Derives joins .call (wrapped 0 (if e.isNumber then 1 else 0) (lexemes 4 e)) e.plain := by
    cases e.isNumber with
    | true => exact .primary (.group rfl ((de 4).mono (Nat.zero_le 4)) rfl)
    | false => exact de 4
  exact DerivesAt.wrapped 4 (.memberName (n := ⟨.identifier, n⟩) downer rfl rfl)

theorem derives_number {x : Binary64} (hx : x.isNonnegative) : DerivesItself joins (.number x) := by
  intro asked
  obtain ⟨m, rank, h, hlit, hread, hsame⟩ := literal?_of_isNonnegative hx
  have hplain : x.plain = .finite false rank h := (Binary64.plain_eq_of_same hsame).symm
  rw [lexemes, Node.plain, hlit, hplain]
  exact DerivesAt.wrapped _ (.of_primary (.number (t := ⟨.number, _⟩) rfl hread rfl) 5)

end

/-- An expression is derived from its lexemes, but for the sign of zeros. -/
theorem derives_of_isExpression (h : e.IsExpression) : DerivesItself joins e := by
  induction h with
  | assignment _ _ iht ihv =>
    intro asked
    rw [lexemes, Node.plain]
    exact DerivesAt.wrapped 0 (.assignment (iht 1) rfl (ihv 0))
  | object hk _ ihv =>
    intro asked
    rw [lexemes, Node.plain]
    exact DerivesAt.wrapped 1 (.object rfl (derives_entries hk ihv) rfl)
  | binary _ _ ho ihl ihr => exact derives_binary ho ihl ihr
  | equality _ _ ho ihl ihr => exact derives_equality ho ihl ihr
  | call _ _ ihf iha =>
    intro asked
    rw [lexemes, Node.plain]
    exact DerivesAt.wrapped 4 (.call (ihf 4) rfl (derives_arguments iha) rfl)
  | index _ _ ihe ihi =>
    intro asked
    rw [lexemes, Node.plain]
    exact DerivesAt.wrapped 4 (.memberIndex (ihe 4) rfl (ihi 0) rfl)
  | member _ hn ihe => exact derives_member hn ihe
  | @identifier n hn =>
    intro asked
    rw [lexemes, Node.plain, word_of_isName hn]
    exact DerivesAt.wrapped _ (.of_primary (.identifier (t := ⟨.identifier, n⟩) rfl) 5)
  | number hx => exact derives_number hx
  | @string s hs =>
    intro asked
    rw [lexemes, Node.plain]
    exact DerivesAt.wrapped _ (.of_primary (.string (t := ⟨.string, s⟩) rfl) 5)

end LocksetLang.Source
