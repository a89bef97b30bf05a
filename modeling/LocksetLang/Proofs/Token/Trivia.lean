import LocksetLang.Token.Lexeme
import Mathlib.Tactic

/-! Spaces and comments. A comment goes on to the end of its line, so at most the last one of a text
has none behind it. What is skipped before a lexeme is of this form, and it goes on as far as it
can. -/

namespace LocksetLang

open Lexeme

/-- Spaces and comments, each comment with the end of its line. At the end of a text the line of the
last comment need not have one. -/
inductive IsTrivia (atEnd : Bool) : List Char → Prop where
  | nil : IsTrivia atEnd []
  | space {c : Char} {cs : List Char} (hc : isSpace c) (h : IsTrivia atEnd cs) :
    IsTrivia atEnd (c :: cs)
  | comment {body cs : List Char} (hb : '\n' ∉ body) (h : IsTrivia atEnd cs) :
    IsTrivia atEnd ('#' :: (body ++ '\n' :: cs))
  | lastComment {body : List Char} (he : atEnd) (hb : '\n' ∉ body) : IsTrivia atEnd ('#' :: body)

def startsTrivia (c : Char) : Bool := isSpace c || c = '#'

variable {atEnd : Bool} {c : Char} {cs body gap rest : List Char}

theorem IsTrivia.of_spaces (h : ∀ c ∈ gap, isSpace c) : IsTrivia atEnd gap := by
  induction gap with
  | nil => exact .nil
  | cons c gap ih => exact .space (h c (by simp)) (ih fun d hd => h d (by simp [hd]))

theorem IsTrivia.head_mem (h : IsTrivia atEnd gap) : ∀ c ∈ gap.head?, startsTrivia c := by
  intro c hc
  cases h with
  | nil => cases hc
  | space hs =>
    obtain rfl := Option.mem_some.1 hc
    simp [startsTrivia, hs]
  | comment | lastComment =>
    obtain rfl := Option.mem_some.1 hc
    rfl

theorem triviaFrom_comment (hb : '\n' ∉ body) (cs : List Char) :
    triviaFrom true (body ++ '\n' :: cs) = body ++ '\n' :: trivia cs := by
  induction body with
  | nil => rfl
  | cons c body ih =>
    simp only [List.mem_cons, not_or] at hb
    rw [List.cons_append, triviaFrom, bne_iff_ne.2 (Ne.symm hb.1), ih hb.2, List.cons_append]

theorem triviaFrom_lastComment (hb : '\n' ∉ body) : triviaFrom true body = body := by
  induction body with
  | nil => rfl
  | cons c body ih =>
    simp only [List.mem_cons, not_or] at hb
    rw [triviaFrom, bne_iff_ne.2 (Ne.symm hb.1), ih hb.2]

theorem trivia_space (hc : isSpace c) : trivia (c :: cs) = c :: trivia cs := by
  rw [trivia, triviaFrom, if_pos hc, trivia]

theorem trivia_hash : trivia ('#' :: cs) = '#' :: triviaFrom true cs := by
  rw [trivia, triviaFrom, if_neg (by decide), if_pos rfl]

theorem trivia_eq_nil (h : ∀ c ∈ rest.head?, startsTrivia c = false) : trivia rest = [] := by
  cases rest with
  | nil => rfl
  | cons c rest =>
    have hc := h c rfl
    rw [startsTrivia, Bool.or_eq_false_iff, decide_eq_false_iff_not] at hc
    rw [trivia, triviaFrom, if_neg (by simp [hc.1]), if_neg hc.2]

/-- All trivia are skipped, and nothing else is. -/
theorem trivia_append (h : IsTrivia atEnd gap) (he : atEnd → rest = [])
    (hr : ∀ c ∈ rest.head?, startsTrivia c = false) : trivia (gap ++ rest) = gap := by
  induction h with
  | nil => exact trivia_eq_nil hr
  | space hc _ ih => rw [List.cons_append, trivia_space hc, ih]
  | comment hb _ ih =>
    rw [List.cons_append, List.append_assoc, List.cons_append, trivia_hash,
      triviaFrom_comment hb, ih]
  | lastComment hend hb =>
    rw [he hend, List.append_nil, trivia_hash, triviaFrom_lastComment hb]

theorem IsTrivia.comment_cons (h : IsTrivia atEnd ('#' :: cs)) (hc : c ≠ '\n') :
    IsTrivia atEnd ('#' :: c :: cs) := by
  cases h with
  | space hs => exact absurd hs (by decide)
  | @comment body cs hb h =>
    have hb' : '\n' ∉ c :: body := by simp [hb, hc.symm]
    exact .comment hb' h
  | lastComment he hb => exact .lastComment he (by simp [hb, hc.symm])

/-- The part of a text that is skipped, inside a comment or not, and what is left. -/
theorem triviaFrom_split (inComment : Bool) (cs : List Char) :
    ∃ rest, cs = triviaFrom inComment cs ++ rest ∧ (∀ c ∈ rest.head?, startsTrivia c = false) ∧
      IsTrivia rest.isEmpty
        (if inComment then '#' :: triviaFrom inComment cs else triviaFrom inComment cs) := by
  fun_induction triviaFrom inComment cs with
  | case1 inComment =>
    refine ⟨[], rfl, by simp, ?_⟩
    cases inComment with
    | false => exact .nil
    | true => exact .lastComment rfl (by simp)
  | case2 c cs ih =>
    obtain ⟨rest, he, hr, ht⟩ := ih
    refine ⟨rest, by rw [List.cons_append, ← he], hr, ?_⟩
    by_cases hc : c = '\n'
    · subst hc
      have hb : '\n' ∉ ([] : List Char) := List.not_mem_nil
      exact .comment hb ht
    · rw [bne_iff_ne.2 hc, if_pos rfl] at ht
      rw [bne_iff_ne.2 hc]
      exact ht.comment_cons hc
  | case3 c cs hc ih =>
    obtain ⟨rest, he, hr, ht⟩ := ih
    exact ⟨rest, by rw [List.cons_append, ← he], hr, .space hc ht⟩
  | case4 cs hs ih =>
    obtain ⟨rest, he, hr, ht⟩ := ih
    exact ⟨rest, by rw [List.cons_append, ← he], hr, ht⟩
  | case5 c cs hs hh =>
    exact ⟨c :: cs, rfl, by simp [startsTrivia, hs, hh], .nil⟩

theorem trivia_split (cs : List Char) :
    ∃ rest, cs = trivia cs ++ rest ∧ (∀ c ∈ rest.head?, startsTrivia c = false) ∧
      IsTrivia rest.isEmpty (trivia cs) :=
  triviaFrom_split false cs

end LocksetLang
