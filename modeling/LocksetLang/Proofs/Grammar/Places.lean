import LocksetLang.Grammar.Program
import LocksetLang.Proofs.Grammar.Agreement
import LocksetLang.Proofs.Grammar.Depth

/-! No production looks at the place of a token. On tokens that have lost their places it does the
same as before, down to its faults, but for the places in them. -/

namespace LocksetLang

abbrev Token.unplaced (t : Token) : Token := { t with place := Place.start }

def ParseFault.unplaced : ParseFault → ParseFault
  | unexpected demand token => unexpected demand token.unplaced
  | constantWithoutValue name => constantWithoutValue name.unplaced
  | parameterNotName start => parameterNotName start.unplaced
  | numberTooLarge number => numberTooLarge number.unplaced
  | numberMisspelt number => numberMisspelt number.unplaced
  | noEnd => noEnd
  | noToken => noToken
  | noIndex => noIndex
  | endless => endless

theorem ParseFault.moved_start (f : ParseFault) : f.moved (fun _ => Place.start) = f.unplaced := by
  cases f <;> rfl

theorem program_unplaces (d : Nat) :
    Parser.Agrees (fun _ => Place.start) id (Grammar.program d) (Grammar.program d) :=
  Grammar.program_agrees le_rfl

theorem parseTokens_unplaced (ts : List Token) :
    parseTokens (ts.map Token.unplaced) = (parseTokens ts).mapError ParseFault.unplaced := by
  unfold parseTokens
  rw [List.getLast?_map]
  cases ts.getLast? with
  | none => rfl
  | some last =>
    dsimp only [Option.map_some]
    split_ifs with hl
    · have hfin : Grammar.full Grammar.program last ts.dropLast ≠ .unfinished :=
        Grammar.full_program_finishes hl
      rw [Grammar.full] at hfin
      obtain ⟨hp, -⟩ := program_unplaces _ last ts.dropLast hfin
      have hdepth : Grammar.depthFor (ts.map Token.unplaced).dropLast =
          Grammar.depthFor ts.dropLast := by
        simp [Grammar.depthFor]
      rw [Grammar.full, Grammar.full, hdepth, ← List.map_dropLast, hp]
      cases Grammar.program (Grammar.depthFor ts.dropLast) last ts.dropLast with
      | value ss rest => rfl
      | fault f rest => exact congrArg Except.error f.moved_start
      | unfinished => rfl
    · rfl

/-- Faults that differ in nothing but the places of their tokens. -/
structure ParseFault.Alike (f g : ParseFault) : Prop where
  faultClass : f.faultClass = g.faultClass
  text : f.text = g.text
  expected : f.expected? = g.expected?
  token : f.token?.map Token.lexeme = g.token?.map Token.lexeme

theorem ParseFault.alike_unplaced (f : ParseFault) : f.Alike f.unplaced := by
  cases f <;> exact ⟨rfl, rfl, rfl, rfl⟩

theorem ParseFault.alike_of_unplaced_eq {f g : ParseFault} (h : f.unplaced = g.unplaced) :
    f.Alike g := by
  have hf := f.alike_unplaced
  have hg := g.alike_unplaced
  rw [← h] at hg
  exact ⟨hf.faultClass.trans hg.faultClass.symm, hf.text.trans hg.text.symm,
    hf.expected.trans hg.expected.symm, hf.token.trans hg.token.symm⟩

/-- Tokens with the same lexemes make up the same program, or are refused alike. -/
theorem parseTokens_alike {ts us : List Token} (h : ts.map Token.lexeme = us.map Token.lexeme) :
    (∃ p, parseTokens ts = .ok p ∧ parseTokens us = .ok p) ∨
      ∃ f g, parseTokens ts = .error f ∧ parseTokens us = .error g ∧ f.Alike g := by
  have hu : ts.map Token.unplaced = us.map Token.unplaced := by
    have hfun : Token.unplaced = (fun l => ⟨l.kind, l.value, Place.start⟩) ∘ Token.lexeme := rfl
    rw [hfun, ← List.map_map, ← List.map_map, h]
  have heq := parseTokens_unplaced ts
  rw [hu, parseTokens_unplaced] at heq
  cases hts : parseTokens ts with
  | ok p =>
    rw [hts] at heq
    cases hus : parseTokens us with
    | ok q =>
      rw [hus] at heq
      exact .inl ⟨p, rfl, congrArg _ (Except.ok.inj heq)⟩
    | error g => rw [hus] at heq; cases heq
  | error f =>
    rw [hts] at heq
    cases hus : parseTokens us with
    | ok q => rw [hus] at heq; cases heq
    | error g =>
      rw [hus] at heq
      exact .inr ⟨f, g, rfl, rfl, ParseFault.alike_of_unplaced_eq (Except.error.inj heq).symm⟩

end LocksetLang
