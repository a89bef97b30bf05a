import LocksetLang.Proofs.Token.Coverage

/-! Other layouts of the same lexemes. No lexeme goes on with trivia, so lexemes that trivia keep
apart are read one by one, wherever they stand and whatever stood between them before. -/

namespace LocksetLang

open Lexeme

/-- The lexemes, in order, with trivia before, between and behind them. Those between two lexemes,
and also the first ones if the text is not `atStart`, are not empty. -/
inductive Spaced : (atStart : Bool) → List (List Char) → List Char → Prop where
  | last {atStart : Bool} {gap : List Char} (hg : IsTrivia true gap) : Spaced atStart [] gap
  | more {atStart : Bool} {gap cs rest : List Char} {lexemes : List (List Char)}
    (hg : IsTrivia false gap) (hn : atStart = false → gap ≠ []) (h : Spaced false lexemes rest) :
    Spaced atStart (cs :: lexemes) (gap ++ (cs ++ rest))

variable {atStart : Bool} {before source text : List Char} {lexemes : List (List Char)}
  {ts : List Token}

theorem Spaced.head_mem (h : Spaced false lexemes text) : ∀ c ∈ text.head?, startsTrivia c := by
  cases h with
  | last hg => exact hg.head_mem
  | @more _ gap cs rest lexemes hg hn h =>
    intro c hc
    rw [List.head?_append_of_ne_nil _ (hn rfl)] at hc
    exact hg.head_mem c hc

theorem scans_of_spaced (hc : Covers ReadOff before source lexemes ts)
    (h : Spaced atStart lexemes text) : ∃ body place,
      ts = body ++ [Cursor.endToken place] ∧ Scans text (body.map Token.lexeme) := by
  induction hc generalizing atStart text with
  | last =>
    cases h with
    | last hg => exact ⟨[], _, rfl, .last hg⟩
  | @more _ _ _ _ _ t _ _ ht _ _ _ ih =>
    cases h with
    | more hg _ h =>
      obtain ⟨body, place, rfl, hbody⟩ := ih h
      exact ⟨t :: body, place, rfl, .more hg (ht.endsBefore h.head_mem) hbody⟩

theorem tokenize_of_spaced {text : String} (hc : Covers ReadOff before source lexemes ts)
    (h : Spaced true lexemes text.toList) :
    ∃ us, tokenize text = .ok us ∧ us.map Token.lexeme = ts.map Token.lexeme := by
  obtain ⟨body, place, rfl, hscans⟩ := scans_of_spaced hc h
  obtain ⟨us, place', hus, hls⟩ := tokenize_of_scans hscans
  exact ⟨_, hus, by rw [List.map_append, List.map_append, hls]; rfl⟩

end LocksetLang
