import LocksetLang.Proofs.Source.Lexemes
import LocksetLang.Proofs.Token.Layout

/-! Expressions are written as their lexemes. The induction is on the expression, at all levels that a
position may ask for. -/

namespace LocksetLang

open Lexeme

variable {s : String} {ls ms : List Lexeme} {as bs cs : List Char}

namespace Source

section
variable {ε α β : Type}

@[simp] theorem pure_eq_ok (a : α) : (pure a : Except ε α) = .ok a := rfl

@[simp] theorem ok_bind (a : α) (f : α → Except ε β) : (Except.ok a >>= f) = f a := rfl

end

/-- The text of an expression has its lexemes. -/
def Prints (e : Node) : Prop :=
  ∀ asked, ∃ text, expression asked e = .ok text ∧ Spells text.toList (lexemes asked e)

theorem sign_eq {k : Kind} (h : symbols.lookup s = some k) : sign s = ⟨k, s⟩ := by
  rw [sign, h]
  rfl

theorem sign_spelt {k : Kind} (h : symbols.lookup s = some k) : (sign s).SpeltBy s.toList := by
  rw [sign_eq h]
  have hk : symbols.lookup (String.ofList s.toList) = some k := by rwa [String.ofList_toList]
  simpa using SpeltBy.symbol hk

theorem spells_sign {k : Kind} (h : symbols.lookup s = some k) : Spells s.toList [sign s] :=
  .single (sign_spelt h)

theorem spells_word (h : isWord s.toList) : Spells s.toList [word s] := by
  cases hs : s.toList with
  | nil =>
    rw [hs] at h
    cases h
  | cons c cs =>
    rw [hs, isWord, Bool.and_eq_true, List.all_eq_true] at h
    rw [word, ← String.ofList_toList (s := s), hs]
    exact .single (.word h.1 h.2)

theorem spells_name (h : isName s) : Spells s.toList [word s] := by
  rw [isName, Bool.and_eq_true] at h
  exact spells_word h.1

theorem word_of_isName (h : isName s) : word s = ⟨.identifier, s⟩ := by
  rw [isName, Bool.and_eq_true, Bool.not_eq_true'] at h
  rw [word]
  cases hl : keywords.lookup s with
  | none => rfl
  | some k =>
    have hmem : s ∈ keywords.map (·.1) := List.mem_map.2 ⟨(s, k), mem_of_lookup hl, rfl⟩
    rw [List.contains_iff_mem.2 hmem] at h
    exact absurd h.2 (by decide)

theorem wrapped_ne_nil {own asked : Nat} (h : ls ≠ []) : wrapped own asked ls ≠ [] := by
  unfold wrapped
  split
  · simp
  · exact h

theorem lexemes_ne_nil {e : Node} (h : e.IsExpression) (asked : Nat) : lexemes asked e ≠ [] := by
  cases h <;> exact wrapped_ne_nil (by simp)

end Source

open Source

theorem Spells.enclosed {o c : Char} (ho : o = '(' ∨ o = '[') (hc : c ∈ separators) {k : Kind}
    (hk : symbols.lookup (String.ofList [c]) = some k) (h : Spells cs ls) :
    Spells (o :: (cs ++ [c])) (sign (String.ofList [o]) :: (ls ++ [sign (String.ofList [c])])) := by
  have hclose : Spells [c] [sign (String.ofList [c])] := by simpa using spells_sign hk
  have hin : Spells (cs ++ [c]) (ls ++ [sign (String.ofList [c])]) := by
    cases hls : ls with
    | nil =>
      subst hls
      cases h
      exact hclose
    | cons l ls => exact hls ▸ h.separated hclose hc (by simp [hls]) (by simp)
  rcases ho with rfl | rfl
  · have hopen : (sign "(").SpeltBy ['('] := sign_spelt (s := "(") rfl
    exact hin.opened hopen fun _ => rfl
  · have hopen : (sign "[").SpeltBy ['['] := sign_spelt (s := "[") rfl
    exact hin.opened hopen fun _ => rfl

theorem Spells.parenthesized {own asked : Nat} {text : String} (h : Spells text.toList ls) :
    Spells (parenthesized own asked text).toList (wrapped own asked ls) := by
  unfold Source.parenthesized wrapped
  split
  · simpa using Spells.enclosed (.inl rfl) (by decide) (c := ')') rfl h
  · exact h

theorem Spells.infixed {k : Kind} (hk : symbols.lookup s = some k) (ha : Spells as ls)
    (hb : Spells bs ms) (hl : ls ≠ []) (hm : ms ≠ []) :
    Spells (as ++ ' ' :: (s.toList ++ ' ' :: bs)) (ls ++ sign s :: ms) :=
  ha.spaced ((spells_sign hk).spaced hb (by simp) hm) hl (by simp)

namespace Source

attribute [local simp] expression expressions entryText entryTexts

theorem spells_commaSeparated {texts : List String} {lss : List (List Lexeme)}
    (h : List.Forall₂ (fun text ls => Spells text.toList ls ∧ ls ≠ []) texts lss) :
    Spells (", ".intercalate texts).toList (commaSeparated lss) ∧
      (texts ≠ [] → commaSeparated lss ≠ []) := by
  unfold commaSeparated
  induction h with
  | nil => exact ⟨by simpa using Spells.nil, fun h => absurd rfl h⟩
  | @cons text ls texts lss ht hrest ih =>
    cases hrest with
    | nil => simpa using ht
    | cons =>
      obtain ⟨ih, hne⟩ := ih
      refine ⟨?_, fun _ => by simp [ht.2]⟩
      have hcomma : Spells (", ".toList ++ _) _ :=
        (spells_sign (s := ",") rfl).spaced ih (by simp) (hne (by simp))
      rw [List.intercalate_cons_cons, String.intercalate_cons_cons, String.toList_append,
        String.toList_append, List.append_assoc, List.append_assoc]
      exact ht.1.separated hcomma (by decide) ht.2 (by simp)

theorem prints_expressions {args : List Node} (h : ∀ a ∈ args, Prints a)
    (hne : ∀ a ∈ args, lexemes 0 a ≠ []) :
    ∃ texts, expressions args = .ok texts ∧
      List.Forall₂ (fun text ls => Spells text.toList ls ∧ ls ≠ []) texts (expressionsLexemes args) := by
  induction args with
  | nil => exact ⟨[], by simp, .nil⟩
  | cons a args ih =>
    obtain ⟨text, ht, hs⟩ := h a (by simp) 0
    obtain ⟨texts, hts, hss⟩ := ih (fun b hb => h b (by simp [hb])) fun b hb => hne b (by simp [hb])
    refine ⟨text :: texts, by simp [ht, hts], ?_⟩
    rw [expressionsLexemes]
    exact .cons ⟨hs, hne a (by simp)⟩ hss

section
variable {t v l r f e i : Node} {o n : String}

theorem prints_assignment (ht : t.IsExpression) (hv : v.IsExpression) (pt : Prints t)
    (pv : Prints v) : Prints (.assignment t v) := by
  intro asked
  obtain ⟨tt, ht', hst⟩ := pt 1
  obtain ⟨tv, hv', hsv⟩ := pv 0
  refine ⟨parenthesized 0 asked (tt ++ " = " ++ tv), by simp [ht', hv'], ?_⟩
  rw [lexemes]
  refine Spells.parenthesized ?_
  simpa using hst.infixed (s := "=") rfl hsv (lexemes_ne_nil ht 1) (lexemes_ne_nil hv 0)

theorem operator_lookup (h : o ∈ binaryOperators) : symbols.lookup o = some .operator := by
  have hall : ∀ o ∈ binaryOperators, symbols.lookup o = some .operator := by decide
  exact hall o h

theorem prints_binary (hl : l.IsExpression) (hr : r.IsExpression) (ho : o ∈ binaryOperators)
    (pl : Prints l) (pr : Prints r) : Prints (.binary l r o) := by
  intro asked
  obtain ⟨tl, hl', hsl⟩ := pl (Node.binary l r o).level
  obtain ⟨tr, hr', hsr⟩ := pr ((Node.binary l r o).level + 1)
  refine ⟨parenthesized (Node.binary l r o).level asked (tl ++ " " ++ o ++ " " ++ tr),
    by simp [hl', hr'], ?_⟩
  rw [lexemes]
  refine Spells.parenthesized ?_
  simpa using hsl.infixed (operator_lookup ho) hsr (lexemes_ne_nil hl _) (lexemes_ne_nil hr _)

theorem prints_equality (hl : l.IsExpression) (hr : r.IsExpression)
    (ho : o ∈ equalityOperators.map (·.1)) (pl : Prints l) (pr : Prints r) :
    Prints (.equality l o r) := by
  intro asked
  obtain ⟨tl, hl', hsl⟩ := pl 0
  obtain ⟨tr, hr', hsr⟩ := pr 0
  obtain ⟨sg, k, hsign, hk⟩ : ∃ sg k, equalityOperators.lookup o = some sg ∧
      symbols.lookup sg = some k := by
    have hall : ∀ o ∈ equalityOperators.map (·.1), o = Kind.doubleEquals.name ∨
        o = Kind.notEquals.name := by decide
    rcases hall o ho with rfl | rfl
    · exact ⟨"==", .doubleEquals, rfl, rfl⟩
    · exact ⟨"!=", .notEquals, rfl, rfl⟩
  refine ⟨parenthesized 5 asked ("(" ++ tl ++ " " ++ sg ++ " " ++ tr ++ ")"),
    by simp [hsign, hl', hr'], ?_⟩
  rw [lexemes, hsign]
  refine Spells.parenthesized ?_
  have hin := hsl.infixed hk hsr (lexemes_ne_nil hl 0) (lexemes_ne_nil hr 0)
  simpa using hin.enclosed (.inl rfl) (c := ')') (by decide) rfl

theorem prints_call {as : List Node} (hf : f.IsExpression) (ha : ∀ a ∈ as, a.IsExpression)
    (pf : Prints f) (pa : ∀ a ∈ as, Prints a) : Prints (.call f as) := by
  intro asked
  obtain ⟨tf, hf', hsf⟩ := pf 4
  obtain ⟨texts, hts, hss⟩ := prints_expressions pa fun a h => lexemes_ne_nil (ha a h) 0
  refine ⟨parenthesized 4 asked (tf ++ "(" ++ ", ".intercalate texts ++ ")"),
    by simp [hf', hts], ?_⟩
  rw [lexemes]
  refine Spells.parenthesized ?_
  have hin := (spells_commaSeparated hss).1.enclosed (.inl rfl) (c := ')') (by decide) rfl
  simpa using hsf.separated hin (by decide) (lexemes_ne_nil hf 4) (by simp)

theorem prints_index (he : e.IsExpression) (pe : Prints e) (pi : Prints i) :
    Prints (.member e i true) := by
  intro asked
  obtain ⟨te, he', hse⟩ := pe 4
  obtain ⟨ti, hi', hsi⟩ := pi 0
  refine ⟨parenthesized 4 asked (te ++ "[" ++ ti ++ "]"), by simp [he', hi'], ?_⟩
  rw [lexemes]
  refine Spells.parenthesized ?_
  have hin := hsi.enclosed (.inr rfl) (c := ']') (by decide) rfl
  simpa using hse.separated hin (by decide) (lexemes_ne_nil he 4) (by simp)

/-- Of the operands only a number goes on with a dot. -/
theorem last_lexeme_ne_number (he : e.IsExpression) (hnum : e.isNumber = false) :
    ∀ t ∈ (lexemes 4 e).getLast?, t.kind ≠ .number := by
  have hparen : ∀ ls : List Lexeme, ∀ t ∈ (sign "(" :: (ls ++ [sign ")"])).getLast?,
      t.kind ≠ .number := by
    intro ls t ht
    obtain rfl : sign ")" = t := by simpa [List.getLast?_cons] using ht
    decide
  cases he with
  | assignment => exact hparen _
  | object => exact hparen _
  | binary hl hr ho =>
    rw [lexemes, wrapped, if_pos]
    · exact hparen _
    · rw [Node.level]
      split_ifs <;> decide
  | equality | call =>
    intro t ht
    obtain rfl : sign ")" = t := by simpa [lexemes, wrapped, List.getLast?_cons] using ht
    decide
  | index =>
    intro t ht
    obtain rfl : sign "]" = t := by simpa [lexemes, wrapped, List.getLast?_cons] using ht
    decide
  | @member e n he hn =>
    intro t ht
    obtain rfl : word n = t := by simpa [lexemes, wrapped, List.getLast?_cons] using ht
    simp [word_of_isName hn]
  | @identifier n hn =>
    intro t ht
    obtain rfl : word n = t := by simpa [lexemes, wrapped] using ht
    simp [word_of_isName hn]
  | number => cases hnum
  | string =>
    intro t ht
    obtain rfl : _ = t := by simpa [lexemes, wrapped] using ht
    simp

theorem goesOnWith_dot {k : Kind} (h : k ≠ .number) : k.goesOnWith '.' = false := by
  cases k <;> first | rfl | exact absurd rfl h

theorem spells_dot (hn : isName n) : Spells ('.' :: n.toList) [sign ".", word n] := by
  have hdot : (sign ".").SpeltBy ['.'] := sign_spelt (s := ".") rfl
  exact (spells_name hn).opened hdot fun _ => rfl

theorem prints_member (he : e.IsExpression) (hn : isName n) (pe : Prints e) :
    Prints (.member e (.identifier n) false) := by
  intro asked
  obtain ⟨te, he', hse⟩ := pe 4
  have hdot : Spells ('.' :: n.toList) [sign ".", word n] := spells_dot hn
  refine ⟨parenthesized 4 asked ((if e.isNumber then "(" ++ te ++ ")" else te) ++ "." ++ n),
    by simp [he'], ?_⟩
  rw [lexemes]
  refine Spells.parenthesized ?_
  rw [String.toList_append, String.toList_append, List.append_assoc]
  cases hnum : e.isNumber with
  | true =>
    have hin := hse.enclosed (.inl rfl) (c := ')') (by decide) rfl
    have hstop : ∀ t ∈ (sign "(" :: (lexemes 4 e ++ [sign ")"])).getLast?,
        t.StopsAt ([] ++ '.' :: n.toList) := by
      intro t ht c hc
      obtain rfl : sign ")" = t := by simpa [List.getLast?_cons] using ht
      rfl
    simpa [wrapped] using hin.append [] hdot (List.forall_mem_nil _) (by simp) (by simp) hstop
  | false =>
    have hstop : ∀ t ∈ (lexemes 4 e).getLast?, t.StopsAt ([] ++ '.' :: n.toList) := by
      intro t ht c hc
      obtain rfl : '.' = c := by simpa using hc
      exact goesOnWith_dot (last_lexeme_ne_number he hnum t ht)
    simpa [wrapped] using hse.append [] hdot (List.forall_mem_nil _)
      (lexemes_ne_nil he 4) (by simp) hstop

theorem prints_identifier (hn : isName n) : Prints (.identifier n) := by
  intro asked
  refine ⟨parenthesized 5 asked n, by simp, ?_⟩
  rw [lexemes]
  exact (spells_name hn).parenthesized

/-- A number that is not below zero has a literal that reads back, zero losing its sign. -/
theorem literal?_of_isNonnegative {x : Binary64} (hx : x.isNonnegative) :
    ∃ (m : Numeral) (rank : Nat) (h : rank < Binary64.rankCount),
      x.literal? = some (String.ofList m.chars) ∧
      Binary64.ofText? (String.ofList m.chars) = some (.finite false rank h) ∧
      Binary64.same (.finite false rank h) x := by
  cases x with
  | nan => cases hx
  | infinite => cases hx
  | finite negative rank h =>
    obtain ⟨m, hm, hread⟩ := Binary64.exists_numeral_positionalText h
    have hsign : (negative && rank != 0) = false := by
      revert hx
      cases negative <;> simp [Binary64.isNonnegative]
    refine ⟨m, rank, h, ?_, hread, ?_⟩
    · rw [Binary64.literal?, hsign, Binary64.withSign, hm]
      rfl
    · revert hx
      cases negative <;> simp [Binary64.isNonnegative, Binary64.same]

theorem prints_number {x : Binary64} (hx : x.isNonnegative) : Prints (.number x) := by
  intro asked
  obtain ⟨m, rank, h, hlit, -, -⟩ := literal?_of_isNonnegative hx
  refine ⟨parenthesized 5 asked (String.ofList m.chars), by simp [hlit], ?_⟩
  rw [lexemes, hlit]
  refine Spells.parenthesized ?_
  simpa using Spells.single (.number m)

/-- A string is put between quotes of which it has none that are not escaped. -/
theorem exists_quoteOf (hs : isStringValue s) :
    ∃ q : Char, isQuote q ∧ quoteOf s = String.ofList [q] ∧ isQuotable q s.toList := by
  rw [isStringValue, Bool.and_eq_true, Bool.not_eq_true', Bool.and_eq_false_iff] at hs
  obtain ⟨he, hu⟩ := hs
  rw [quoteOf]
  split_ifs with h
  · exact ⟨'\x27', by decide, rfl, by
      simp [isQuotable, he, hu.resolve_left (by simp [h])]⟩
  · exact ⟨'"', by decide, rfl, by simp [isQuotable, he, h]⟩

theorem prints_string (hs : isStringValue s) : Prints (.string s) := by
  intro asked
  refine ⟨parenthesized 5 asked (stringText s), by simp, ?_⟩
  rw [lexemes]
  refine Spells.parenthesized ?_
  obtain ⟨q, hq, hquote, hb⟩ := exists_quoteOf hs
  have := Spells.single (SpeltBy.string hq hb)
  rw [String.ofList_toList] at this
  simpa [stringText, hquote] using this

theorem prints_entries {ps : List Node} (hk : ∀ p ∈ ps, ∃ k v, p = .property k v ∧ isName k)
    (hv : ∀ k e, .property k (some e) ∈ ps → e.IsExpression)
    (pv : ∀ k e, .property k (some e) ∈ ps → Prints e) :
    ∃ texts, entryTexts ps = .ok texts ∧
      List.Forall₂ (fun text ls => Spells text.toList ls ∧ ls ≠ []) texts (entriesLexemes ps) := by
  induction ps with
  | nil => exact ⟨[], by simp, .nil⟩
  | cons p ps ih =>
    obtain ⟨texts, hts, hss⟩ := ih (fun q hq => hk q (by simp [hq]))
      (fun k e h => hv k e (by simp [h])) fun k e h => pv k e (by simp [h])
    obtain ⟨k, value, rfl, hn⟩ := hk p (by simp)
    cases value with
    | none =>
      refine ⟨k :: texts, by simp [hts], ?_⟩
      rw [entriesLexemes, entryLexemes]
      exact .cons ⟨spells_name hn, by simp⟩ hss
    | some e =>
      obtain ⟨te, he', hse⟩ := pv k e (by simp) 0
      refine ⟨(k ++ ": " ++ te) :: texts, by simp [he', hts], ?_⟩
      rw [entriesLexemes, entryLexemes]
      refine .cons ⟨?_, by simp⟩ hss
      have hcolon : Spells (':' :: ' ' :: te.toList) (sign ":" :: lexemes 0 e) :=
        (spells_sign (s := ":") rfl).spaced hse (by simp) (lexemes_ne_nil (hv k e (by simp)) 0)
      simpa using (spells_name hn).separated hcolon (by decide) (by simp) (by simp)

theorem prints_object {ps : List Node} (hk : ∀ p ∈ ps, ∃ k v, p = .property k v ∧ isName k)
    (hv : ∀ k e, .property k (some e) ∈ ps → e.IsExpression)
    (pv : ∀ k e, .property k (some e) ∈ ps → Prints e) : Prints (.object ps) := by
  intro asked
  obtain ⟨texts, hts, hss⟩ := prints_entries hk hv pv
  refine ⟨parenthesized 1 asked (if texts.isEmpty then "{}" else
    r"{ " ++ ", ".intercalate texts ++ r" }"), by simp [hts], ?_⟩
  rw [lexemes]
  refine Spells.parenthesized ?_
  have hopen := spells_sign (s := r"{") rfl
  have hclose := spells_sign (s := r"}") rfl
  obtain ⟨hs, hne⟩ := spells_commaSeparated hss
  cases texts with
  | nil =>
    rw [List.forall₂_nil_left_iff.1 hss]
    exact hopen.separated hclose (by decide) (by simp) (by simp)
  | cons text texts =>
    have hne := hne (by simp)
    simpa using hopen.spaced (hs.spaced hclose hne (by simp)) (by simp) (by simp [hne])

end

/-- Every expression can be written, and its text has its lexemes. -/
theorem prints_of_isExpression {e : Node} (h : e.IsExpression) : Prints e := by
  induction h with
  | assignment ht hv iht ihv => exact prints_assignment ht hv iht ihv
  | object hk hv ihv => exact prints_object hk hv ihv
  | binary hl hr ho ihl ihr => exact prints_binary hl hr ho ihl ihr
  | equality hl hr ho ihl ihr => exact prints_equality hl hr ho ihl ihr
  | call hf ha ihf iha => exact prints_call hf ha ihf iha
  | index he hi ihe ihi => exact prints_index he ihe ihi
  | member he hn ihe => exact prints_member he hn ihe
  | identifier hn => exact prints_identifier hn
  | number hx => exact prints_number hx
  | string hs => exact prints_string hs

end Source
end LocksetLang
