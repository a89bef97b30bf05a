import LocksetLang.Proofs.Source.WellFormed
import LocksetLang.Proofs.Token.Tokens

/-! The classes of lexemes that a text can have. Words and signs are told by their kinds, and names,
numbers and strings are what a well-formed tree may hold. -/

namespace LocksetLang

open Lexeme

variable {t : Lexeme} {s : String}

theorem isName_ofList {c : Char} {cs : List Char} (hc : isWordStart c)
    (hcs : ∀ d ∈ cs, isWordPart d) (hk : keywords.lookup (String.ofList (c :: cs)) = none) :
    isName (String.ofList (c :: cs)) := by
  have hnot : String.ofList (c :: cs) ∉ keywords.map (·.1) := by
    intro hmem
    obtain ⟨p, hp, he⟩ := List.mem_map.1 hmem
    have := List.lookup_eq_none_iff.1 hk p hp
    simp [he] at this
  rw [isName, String.toList_ofList, isWord, Bool.and_eq_true, Bool.and_eq_true, List.all_eq_true,
    Bool.not_eq_true', Bool.eq_false_iff, ne_eq, List.contains_iff_mem]
  exact ⟨⟨hc, hcs⟩, hnot⟩

theorem isStringValue_of_isQuotable {quote : Char} {body : List Char} (hq : isQuote quote)
    (hb : isQuotable quote body) : isStringValue (String.ofList body) := by
  rw [isQuotable, Bool.and_eq_true, Bool.not_eq_true'] at hb
  rw [isStringValue, String.toList_ofList, hb.1]
  simp only [isQuote, Bool.or_eq_true, decide_eq_true_eq] at hq
  rcases hq with rfl | rfl <;> simp [hb.2]

/-- What the kind of a lexeme tells about its text. -/
structure Lexeme.Classed (t : Lexeme) : Prop where
  name : t.kind = .identifier → isName t.value
  numeral : t.kind = .number → ∃ n : Numeral, t.value = String.ofList n.chars
  string : t.kind = .string → isStringValue t.value
  fixed : t.kind ∉ [.identifier, .number, .string, .unknown] →
    (t.value, t.kind) ∈ keywords ++ symbols

theorem Lexeme.Classed.of_mem_table (h : (t.value, t.kind) ∈ keywords ++ symbols) :
    t.Classed := by
  have hall : ∀ p ∈ keywords ++ symbols, p.2 ≠ .identifier ∧ p.2 ≠ .number ∧ p.2 ≠ .string := by
    decide
  obtain ⟨hi, hn, hs⟩ := hall _ h
  exact ⟨(absurd · hi), (absurd · hn), (absurd · hs), fun _ => h⟩

theorem Lexeme.IsWritten.classed (h : t.IsWritten) : t.Classed := by
  rcases h with h | ⟨cs, h⟩
  · constructor <;> simp [h]
  cases h with
  | @word c cs hc hcs =>
    cases hk : keywords.lookup (String.ofList (c :: cs)) with
    | none =>
      have hn := isName_ofList hc hcs hk
      exact ⟨fun _ => hn, by simp, by simp, by simp⟩
    | some k => exact .of_mem_table (List.mem_append_left _ (mem_of_lookup hk))
  | number n =>
    constructor <;> simp
    exact ⟨n, rfl⟩
  | string hq hb => constructor <;> simp [isStringValue_of_isQuotable hq hb]
  | symbol hk => exact .of_mem_table (List.mem_append_right _ (mem_of_lookup hk))

/-- Of a word or a sign other than an operator the kind tells the text. -/
theorem Lexeme.IsWritten.value_eq {k : Kind} (h : t.IsWritten) (hk : t.kind = k)
    (hs : (s, k) ∈ keywords ++ symbols) (ho : k ≠ .operator) : t.value = s := by
  subst hk
  have hfree : ∀ p ∈ keywords ++ symbols, p.2 ∉ [.identifier, .number, .string, .unknown] := by
    decide
  have hall : ∀ p ∈ keywords ++ symbols, ∀ q ∈ keywords ++ symbols, p.2 = q.2 → q.2 ≠ .operator →
      p.1 = q.1 := by decide
  exact hall _ (h.classed.fixed (hfree _ hs)) _ hs rfl ho

end LocksetLang
