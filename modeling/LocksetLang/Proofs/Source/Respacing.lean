import LocksetLang.Proofs.Grammar.Places
import LocksetLang.Proofs.Source.Outcomes
import LocksetLang.Proofs.Token.Respacing

/-! Layout has no meaning. A text with the same lexemes, in whatever layout, has the same tokens but
for their places, and no production looks at these. -/

namespace LocksetLang

open Lexeme

variable {source text : String} {ts us : List Token} {lexemes : List (List Char)}

/-- Texts with the same lexemes hold the same program, or are refused alike for one of these. -/
theorem parse_of_lexemes (ht : tokenize source = .ok ts) (hu : tokenize text = .ok us)
    (h : us.map Token.lexeme = ts.map Token.lexeme) :
    (∃ program, parse source = .ok program ∧ parse text = .ok program) ∨
      ∃ f g, parse source = .error (.grammatical f) ∧ parse text = .error (.grammatical g) ∧
        f.Alike g ∧ f.token?.isSome := by
  rw [parse, parse, ht, hu]
  dsimp only
  rcases parseTokens_alike h.symm with ⟨p, hp, hq⟩ | ⟨f, g, hf, hg, halike⟩
  · rw [hp, hq]
    exact .inl ⟨p, rfl, rfl⟩
  · rw [hf, hg]
    exact .inr ⟨f, g, rfl, rfl, halike, (parseTokens_fault ht hf).2⟩

/-- Nothing but the lexemes of a text matters, with any trivia between them. -/
theorem parse_respaced (h : tokenize source = .ok ts)
    (hc : Covers HasText [] source.toList lexemes ts) (hs : Spaced true lexemes text.toList) :
    (∃ us, tokenize text = .ok us ∧ us.map Token.lexeme = ts.map Token.lexeme) ∧
      ((∃ program, parse source = .ok program ∧ parse text = .ok program) ∨
        ∃ f g, parse source = .error (.grammatical f) ∧ parse text = .error (.grammatical g) ∧
          f.Alike g ∧ f.token?.isSome) := by
  obtain ⟨lexemes', hread⟩ := tokenize_cover h
  obtain rfl := hc.unique (hread.mono fun _ _ => ReadOff.hasText)
  obtain ⟨us, hus, hls⟩ := tokenize_of_spaced hread hs
  exact ⟨⟨us, hus, hls⟩, parse_of_lexemes h hus hls⟩

/-- An assignment on one line, and on two with a comment. -/
theorem assignment_respaced :
    let ts := [⟨.identifier, "a", ⟨1, 1⟩⟩, ⟨.equals, "=", ⟨1, 2⟩⟩, ⟨.string, "#", ⟨1, 3⟩⟩,
      Cursor.endToken ⟨1, 6⟩]
    let lexemes := [['a'], ['='], ['"', '#', '"']]
    tokenize "a=\"#\"" = .ok ts ∧ Covers HasText [] "a=\"#\"".toList lexemes ts ∧
      Spaced true lexemes " a#\n=\t\"#\"".toList ∧
      (∃ us, tokenize " a#\n=\t\"#\"" = .ok us ∧ us.map Token.lexeme = ts.map Token.lexeme) ∧
      ((∃ program, parse "a=\"#\"" = .ok program ∧ parse " a#\n=\t\"#\"" = .ok program) ∨
        ∃ f g, parse "a=\"#\"" = .error (.grammatical f) ∧
          parse " a#\n=\t\"#\"" = .error (.grammatical g) ∧ f.Alike g ∧ f.token?.isSome) := by
  have ht : tokenize "a=\"#\"" = .ok [⟨.identifier, "a", ⟨1, 1⟩⟩, ⟨.equals, "=", ⟨1, 2⟩⟩,
      ⟨.string, "#", ⟨1, 3⟩⟩, Cursor.endToken ⟨1, 6⟩] := by decide +kernel
  have hc : Covers HasText [] "a=\"#\"".toList [['a'], ['='], ['"', '#', '"']]
      [⟨.identifier, "a", ⟨1, 1⟩⟩, ⟨.equals, "=", ⟨1, 2⟩⟩, ⟨.string, "#", ⟨1, 3⟩⟩,
        Cursor.endToken ⟨1, 6⟩] := by
    rw [show "a=\"#\"".toList = [] ++ (['a'] ++ ([] ++ (['='] ++ ([] ++ (['"', '#', '"'] ++ []))))) by
      decide]
    exact .more .nil (by simp [HasText]) (by decide) (by decide) <|
      .more .nil (by simp [HasText]) (by decide) (by decide) <|
      .more .nil ⟨'"', by decide, by decide⟩ (by decide) (by decide) (.last .nil)
  have hs : Spaced true [['a'], ['='], ['"', '#', '"']] " a#\n=\t\"#\"".toList := by
    rw [show " a#\n=\t\"#\"".toList =
      [' '] ++ (['a'] ++ (['#', '\n'] ++ (['='] ++ (['\t'] ++ (['"', '#', '"'] ++ []))))) by decide]
    exact .more (.space (by decide) .nil) (by decide) <|
      .more (@IsTrivia.comment false [] [] (by decide) .nil) (by decide) <|
      .more (.space (by decide) .nil) (by decide) (.last .nil)
  exact ⟨ht, hc, hs, parse_respaced ht hc hs⟩

end LocksetLang
