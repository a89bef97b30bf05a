import LocksetLang.Proofs.Source.Parsed
import LocksetLang.Proofs.Source.Printing
import LocksetLang.Proofs.Token.Escaping

/-! Literals as source text. A string comes back from its text if it ends outside an escape and one of
the two quotes does not stand in it for itself, and otherwise it does not. A number that is not below
zero comes back whatever it is. -/

namespace LocksetLang

open Lexeme

/-- The text has a single token, which is the lexeme. -/
def IsReadAs (text : String) (t : Lexeme) : Prop :=
  ∃ token place, tokenize text = .ok [token, Cursor.endToken place] ∧ token.lexeme = t

variable {text value : String} {t : Lexeme}

theorem isReadAs_of_spells (h : Spells text.toList [t]) : IsReadAs text t := by
  obtain ⟨ts, place, hts, hls⟩ := tokenize_of_spells h
  obtain ⟨token, rfl, ht⟩ := List.map_eq_singleton_iff.1 hls
  exact ⟨token, place, hts, ht⟩

theorem IsReadAs.isWritten (h : IsReadAs text t) : t.IsWritten := by
  obtain ⟨token, place, hts, rfl⟩ := h
  obtain ⟨body, last, he, -, hbody⟩ := tokens_written hts
  have he' : [token] ++ [Cursor.endToken place] = body ++ [last] := he
  obtain ⟨rfl, -⟩ := List.append_inj' he' rfl
  exact hbody token (List.mem_singleton_self token)

theorem isStringValue_iff : isStringValue value ↔ ¬ EndsInEscape value.toList ∧
    ¬ (StandsFree '"' value.toList ∧ StandsFree '\x27' value.toList) := by
  rw [endsInEscape_iff, standsFree_iff (by decide), standsFree_iff (by decide), isStringValue]
  cases hasUnescaped '"' value.toList <;> simp

/-- A string comes back from its text if and only if it ends outside an escape and does not have both
quotes where no backslash takes them. -/
theorem string_read_back_iff (value : String) :
    (∃ text, Source.expression 0 (.string value) = .ok text ∧ IsReadAs text ⟨.string, value⟩) ↔
      ¬ EndsInEscape value.toList ∧
        ¬ (StandsFree '"' value.toList ∧ StandsFree '\x27' value.toList) := by
  rw [← isStringValue_iff]
  constructor
  · rintro ⟨text, -, hread⟩
    exact hread.isWritten.classed.string rfl
  · intro h
    obtain ⟨text, htext, hspells⟩ := Source.prints_string h 0
    exact ⟨text, htext, isReadAs_of_spells hspells⟩

/-- Digits of ASCII, and maybe a point with digits on both sides. -/
inductive IsPlainDecimal : List Char → Prop where
  | whole {ds : List Char} (hne : ds ≠ []) (hd : ∀ c ∈ ds, c.isDigit) : IsPlainDecimal ds
  | pointed {ds es : List Char} (hds : ds ≠ []) (hes : es ≠ []) (hd : ∀ c ∈ ds ++ es, c.isDigit) :
    IsPlainDecimal (ds ++ '.' :: es)

theorem Numeral.isPlainDecimal {n : Numeral} (h : ∀ c ∈ n.chars.getLast?, c.isDigit) :
    IsPlainDecimal n.chars := by
  obtain ⟨whole, fraction, hne, hd⟩ := n
  cases fraction with
  | none =>
    rw [Option.getD_none, List.append_nil] at hd
    exact .whole hne hd
  | some fraction =>
    refine .pointed hne ?_ hd
    rintro rfl
    have hpoint : '.'.isDigit := h '.' (by simp [Numeral.chars])
    exact absurd hpoint (by decide)

theorem Digits.getLast?_positional {d : Digits} (hne : d.digits ≠ [])
    (hd : ∀ c ∈ d.digits, c.isDigit) : ∀ c ∈ d.positional.getLast?, c.isDigit := by
  have hlast : ∀ as es : List Char, es ≠ [] → (∀ c ∈ es, c.isDigit) →
      ∀ c ∈ (as ++ es).getLast?, c.isDigit := by
    intro as es hes he c hc
    rw [List.getLast?_append_of_ne_nil _ hes] at hc
    exact he c (List.mem_of_getLast? hc)
  obtain ⟨ds, point⟩ := d
  cases point with
  | negSucc p => exact hlast ('0' :: '.' :: List.replicate (p + 1) '0') ds hne hd
  | ofNat p =>
    cases hdrop : ds.drop p with
    | nil =>
      intro c hc
      simp only [positional, hdrop] at hc
      have hmem := List.mem_of_getLast? hc
      split_ifs at hmem with hp
      · rw [List.mem_singleton.1 hmem]
        decide
      · rcases List.mem_append.1 hmem with hmem | hmem
        · exact hd c (List.mem_of_mem_take hmem)
        · exact Binary64.isDigit_of_mem_replicate hmem
    | cons f fraction =>
      have hf : ∀ c ∈ f :: fraction, c.isDigit := fun c hc => hd c (List.mem_of_mem_drop (hdrop ▸ hc))
      simp only [positional, hdrop]
      rw [List.append_cons]
      exact hlast _ _ (List.cons_ne_nil f fraction) hf

theorem Binary64.getLast?_literal? {x : Binary64} (h : x.literal? = some text) :
    ∀ c ∈ text.toList.getLast?, c.isDigit := by
  cases x with
  | nan => cases h
  | infinite => cases h
  | finite negative rank hr =>
    obtain rfl := Option.some.inj h
    have hlast : ∀ c ∈ (positionalText rank).getLast?, c.isDigit := by
      unfold positionalText
      split_ifs
      · exact fun c hc =>
          Nat.isDigit_of_mem_toDigits (by decide) (by decide) (List.mem_of_getLast? hc)
      · exact Digits.getLast?_positional (digitsOf_ne_nil hr) (isDigit_digitsOf rank)
    have hne : positionalText rank ≠ [] := by
      obtain ⟨n, hn, -⟩ := exists_numeral_positionalText hr
      obtain ⟨c, cs, he, -⟩ := chars_cons n
      simp [hn, he]
    rw [withSign, String.toList_ofList]
    split_ifs
    · rwa [List.getLast?_cons_of_ne_nil hne]
    · exact hlast

/-- A finite number that is not below zero is written as plain digits, and it comes back from them but
for the sign of a zero. -/
theorem number_read_back {x : Binary64} (h : x.isNonnegative) :
    ∃ text, Source.expression 0 (.number x) = .ok text ∧ IsPlainDecimal text.toList ∧
      IsReadAs text ⟨.number, text⟩ ∧ ∃ y, Binary64.ofText? text = some y ∧ y.same x := by
  obtain ⟨n, rank, hr, hlit, hread, hsame⟩ := Source.literal?_of_isNonnegative h
  have hlast := Binary64.getLast?_literal? hlit
  rw [String.toList_ofList] at hlast
  have htext : Source.expression 0 (.number x) = .ok (String.ofList n.chars) := by
    simp [Source.expression, hlit, Source.parenthesized]
  have hspells : Spells n.chars [⟨.number, String.ofList n.chars⟩] := .single (.number n)
  refine ⟨_, htext, ?_, isReadAs_of_spells ?_, _, hread, hsame⟩
  · rw [String.toList_ofList]
    exact Numeral.isPlainDecimal hlast
  · rw [String.toList_ofList]
    exact hspells

/-- The least number above zero, which has 324 digits behind the point. -/
theorem least_number_read_back :
    let x := Binary64.finite false 1 (by decide)
    x.isNonnegative ∧
      x.literal? = some (String.ofList ("0.".toList ++ List.replicate 323 '0' ++ ['5'])) ∧
      ∃ text, Source.expression 0 (.number x) = .ok text ∧ IsPlainDecimal text.toList ∧
        IsReadAs text ⟨.number, text⟩ ∧ ∃ y, Binary64.ofText? text = some y ∧ y.same x :=
  ⟨rfl, by decide +kernel, number_read_back rfl⟩

end LocksetLang
