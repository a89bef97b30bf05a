import LocksetLang.Proofs.Token.Scanning
import LocksetLang.Text.Blank
import Mathlib.Data.List.DropRight

/-! Blanks at the ends of a text. There are more of them than the spaces between lexemes, but a
lexeme that has a class starts and ends with something else, so taking the blanks off leaves all
lexemes of the text, and no others. -/

namespace LocksetLang

open Lexeme

variable {c : Char} {as bs cs gap text : List Char} {t : Lexeme} {ls : List Lexeme} {atEnd : Bool}

/-- Whatever is cut off the trivia at the end of a text, the rest of them are trivia. -/
theorem IsTrivia.of_append (h : IsTrivia true (as ++ bs)) : IsTrivia true as := by
  generalize hgap : as ++ bs = gap at h
  induction h generalizing as with
  | nil =>
    rw [(List.append_eq_nil_iff.1 hgap).1]
    exact .nil
  | space hc _ ih =>
    rcases List.append_eq_cons_iff.1 hgap with ⟨rfl, -⟩ | ⟨as, rfl, he⟩
    · exact .nil
    · exact .space hc (ih he.symm)
  | comment hb _ ih =>
    rcases List.append_eq_cons_iff.1 hgap with ⟨rfl, -⟩ | ⟨as, rfl, he⟩
    · exact .nil
    rcases List.append_eq_append_iff.1 he with ⟨cut, rfl, hcut⟩ | ⟨cut, rfl, -⟩
    · rcases List.cons_eq_append_iff.1 hcut with ⟨rfl, -⟩ | ⟨cut, rfl, hcut⟩
      · rw [List.append_nil]
        exact .lastComment rfl hb
      · exact .comment hb (ih (List.cons.inj hcut).2.symm)
    · exact .lastComment rfl fun h => hb (List.mem_append_left _ h)
  | lastComment _ hb =>
    rcases List.append_eq_cons_iff.1 hgap with ⟨rfl, -⟩ | ⟨as, rfl, rfl⟩
    · exact .nil
    · exact .lastComment rfl fun h => hb (List.mem_append_left _ h)

theorem IsTrivia.dropWhile_isBlank (h : IsTrivia atEnd gap) :
    IsTrivia atEnd (gap.dropWhile Text.isBlank) := by
  induction h with
  | nil => exact .nil
  | space hc h ih =>
    rw [List.dropWhile_cons]
    split_ifs
    · exact ih
    · exact .space hc h
  | comment hb h => exact .comment hb h
  | lastComment he hb => exact .lastComment he hb

/-- Whether a character is one of ASCII that can be seen. -/
def isVisible (c : Char) : Bool := 0x21 ≤ c.toNat && c.toNat ≤ 0x7E

theorem isBlank_eq_false (h : isVisible c) : Text.isBlank c = false := by
  rw [isVisible, Bool.and_eq_true, decide_eq_true_eq, decide_eq_true_eq] at h
  simp only [Text.isBlank, Bool.or_eq_false_iff, Bool.and_eq_false_iff, decide_eq_false_iff_not,
    beq_eq_false_iff_ne, not_le]
  omega

theorem toNat_of_isAlpha (h : c.isAlpha) : 0x41 ≤ c.toNat ∧ c.toNat ≤ 0x7A := by
  have hcases : (decide (c.val ≥ 'A'.val ∧ c.val ≤ 'Z'.val) ||
      (decide (c.val ≥ 'a'.val) && decide (c.val ≤ 'z'.val))) = true := h
  simp only [Bool.or_eq_true, Bool.and_eq_true, decide_eq_true_eq, ge_iff_le, UInt32.le_iff_toNat_le,
    Char.reduceVal, UInt32.reduceToNat] at hcases
  rw [Char.toNat]
  omega

theorem isVisible_of_isWordPart (h : isWordPart c) : isVisible c := by
  simp only [isWordPart, isWordStart, Bool.or_eq_true, decide_eq_true_eq] at h
  rw [isVisible, Bool.and_eq_true, decide_eq_true_eq, decide_eq_true_eq]
  rcases h with (halpha | rfl) | hdigit
  · have := toNat_of_isAlpha halpha
    omega
  · decide
  · have := Text.toNat_of_isDigit hdigit
    omega

/-- What is in a string may be anything; of other lexemes everything can be seen. -/
theorem Lexeme.SpeltBy.visible_or_quoted (h : t.SpeltBy cs) :
    (∀ c ∈ cs, isVisible c) ∨ ∃ quote body, isQuote quote ∧ t = ⟨.string, String.ofList body⟩ ∧
      cs = quote :: (body ++ [quote]) := by
  cases h with
  | word hc hcs =>
    refine .inl (List.forall_mem_cons.2 ⟨isVisible_of_isWordPart ?_, fun d hd => ?_⟩)
    · simp [isWordPart, hc]
    · exact isVisible_of_isWordPart (hcs d hd)
  | number n =>
    refine .inl fun c hc => ?_
    rcases n.mem_chars hc with hd | rfl
    · exact isVisible_of_isWordPart (by simp [isWordPart, hd])
    · decide
  | string hq => exact .inr ⟨_, _, hq, rfl, rfl⟩
  | symbol hk =>
    have hall : ∀ p ∈ symbols, p.1.toList.all isVisible := by decide
    exact .inl (by simpa using hall _ (mem_of_lookup hk))

theorem isVisible_of_isQuote (h : isQuote c) : isVisible c := by
  simp only [isQuote, Bool.or_eq_true, decide_eq_true_eq] at h
  rcases h with rfl | rfl <;> decide

theorem Lexeme.SpeltBy.ends_visible (h : t.SpeltBy cs) :
    (∀ c ∈ cs.head?, Text.isBlank c = false) ∧ ∀ c ∈ cs.getLast?, Text.isBlank c = false := by
  rcases h.visible_or_quoted with hall | ⟨quote, body, hq, -, rfl⟩
  · exact ⟨fun c hc => isBlank_eq_false (hall c (List.mem_of_mem_head? hc)),
      fun c hc => isBlank_eq_false (hall c (List.mem_of_getLast? hc))⟩
  · have hquote : Text.isBlank quote = false := isBlank_eq_false (isVisible_of_isQuote hq)
    simpa [List.getLast?_cons] using hquote

section
variable {p : Char → Bool}

theorem dropWhile_before (hc : p c = false) (as bs : List Char) :
    (as ++ c :: bs).dropWhile p = as.dropWhile p ++ c :: bs := by
  induction as with
  | nil => simp [hc]
  | cons a as ih =>
    rw [List.cons_append, List.dropWhile_cons, List.dropWhile_cons, ih]
    split_ifs <;> rfl

theorem rdropWhile_behind (hc : p c = false) (as bs : List Char) :
    (as ++ c :: bs).rdropWhile p = as ++ c :: bs.rdropWhile p := by
  simp [List.rdropWhile, dropWhile_before hc]

end

theorem Scans.dropWhile_isBlank (h : Scans text ls) (hk : ∀ t ∈ ls, t.kind ≠ .unknown) :
    Scans (text.dropWhile Text.isBlank) ls := by
  cases h with
  | last hg => exact .last hg.dropWhile_isBlank
  | @more t gap cs rest ls hg ht h =>
    cases ht with
    | stray => exact absurd rfl (hk _ List.mem_cons_self)
    | spelt ht hs =>
      obtain ⟨c, tail, rfl, -⟩ := ht.exists_cons
      rw [List.cons_append, dropWhile_before (ht.ends_visible.1 c rfl), ← List.cons_append]
      exact .more hg.dropWhile_isBlank (.spelt ht hs) h

theorem Scans.rdropWhile_isBlank (h : Scans text ls) (hk : ∀ t ∈ ls, t.kind ≠ .unknown) :
    Scans (text.rdropWhile Text.isBlank) ls := by
  induction h with
  | @last gap hg =>
    obtain ⟨cut, hcut⟩ := gap.rdropWhile_prefix Text.isBlank
    rw [← hcut] at hg
    exact .last hg.of_append
  | @more t gap cs rest ls hg ht _ ih =>
    rw [List.forall_mem_cons] at hk
    cases ht with
    | stray => exact absurd rfl hk.1
    | spelt ht hs =>
      obtain ⟨init, c, rfl⟩ : ∃ init c, cs = init ++ [c] := by
        obtain ⟨c, tail, rfl, -⟩ := ht.exists_cons
        exact (List.eq_nil_or_concat' _).resolve_left (List.cons_ne_nil _ _)
      have hc := ht.ends_visible.2 c (List.getLast?_concat ..)
      have hstop : t.StopsAt (rest.rdropWhile Text.isBlank) := by
        intro d hd
        obtain ⟨cut, hcut⟩ := rest.rdropWhile_prefix Text.isBlank
        exact hs d (by rw [← hcut, List.head?_append, Option.mem_def.1 hd]; rfl)
      rw [← List.append_assoc, ← List.append_assoc, List.append_assoc, List.singleton_append,
        rdropWhile_behind hc]
      simpa using Scans.more hg (.spelt ht hstop) (ih hk.2)

/-- Nothing but blanks is lost when a text is stripped. -/
theorem Scans.strip {s : String} (h : Scans s.toList ls) (hk : ∀ t ∈ ls, t.kind ≠ .unknown) :
    Scans (Text.strip s).toList ls := by
  rw [Text.strip, String.toList_ofList]
  exact (h.dropWhile_isBlank hk).rdropWhile_isBlank hk

end LocksetLang
