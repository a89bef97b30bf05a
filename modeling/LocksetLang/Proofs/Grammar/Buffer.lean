import LocksetLang.Grammar.Buffer
import Mathlib.Tactic

/-! Reading programs one after the other with one buffer. Each list of tokens replaces the one before
it, so what a buffer held has no part in what is read. The position of a buffer is the number of
tokens that have been taken off it. -/

namespace LocksetLang.Buffer

theorem ahead?_ofTokens {tokens : List Token} {last : Token} (h : tokens.getLast? = some last) :
    (ofTokens tokens).ahead? = some (tokens.dropLast, last) := by
  simp [ahead?, ofTokens, h]

/-- A production that leaves the tokens `rest` stands behind all that it has used. -/
theorem run_full {α : Type} {production : Nat → Parser α} {last : Token} {used rest : List Token}
    {a : α} (h : Grammar.full production last (used ++ rest) = .value a rest) :
    (ofTokens (used ++ (rest ++ [last]))).run (Grammar.full production) =
      (.ok a, ⟨used ++ (rest ++ [last]), used.length⟩) := by
  have hlast : (used ++ (rest ++ [last])).getLast? = some last := by simp
  have hdrop : (used ++ (rest ++ [last])).dropLast = used ++ rest := by
    rw [← List.append_assoc, List.dropLast_concat]
  have hpos : (ofTokens (used ++ (rest ++ [last]))).position <
      (ofTokens (used ++ (rest ++ [last]))).tokens.length := by
    simp only [ofTokens, List.length_append, List.length_singleton]
    omega
  have hleft : (ofTokens (used ++ (rest ++ [last]))).leaving rest =
      ⟨used ++ (rest ++ [last]), used.length⟩ := by
    rw [leaving, if_pos hpos, ofTokens, Buffer.mk.injEq]
    simp only [List.length_append, List.length_singleton, true_and]
    omega
  rw [run, ahead?_ofTokens hlast, hdrop]
  dsimp only
  rw [h, ← hleft]

theorem parseTokens_fst (b : Buffer) (tokens : List Token) :
    (b.parseTokens tokens).1 = LocksetLang.parseTokens tokens := by
  unfold parseTokens LocksetLang.parseTokens
  cases h : tokens.getLast? with
  | none => rfl
  | some last =>
    dsimp only
    split_ifs with hl
    · simp only [run, ahead?_ofTokens h]
      cases Grammar.full Grammar.program last tokens.dropLast <;> rfl
    · rfl

/-- Whatever a buffer holds, it reads a text as a new one does. -/
theorem parse_fst (b : Buffer) (source : String) : (b.parse source).1 = LocksetLang.parse source := by
  unfold parse LocksetLang.parse
  cases tokenize source with
  | error f => rfl
  | ok tokens =>
    dsimp only
    rw [parseTokens_fst]

end LocksetLang.Buffer
