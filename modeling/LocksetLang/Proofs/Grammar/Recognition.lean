import LocksetLang.Grammar.Program
import LocksetLang.Proofs.Grammar.StatementCompleteness
import LocksetLang.Proofs.Grammar.StatementSoundness

/-! The parser recognises its grammar. Before its only end of input a token list is a program if
and only if it derives a list of statements, and the statements are those of the program. -/

namespace LocksetLang

open Grammar

variable {body : List Token} {last : Token} {ss ts : List Node}

theorem parseTokens_append (hl : last.kind = .endOfInput) :
    parseTokens (body ++ [last]) =
      match full program last body with
      | .value ss _ => .ok (.program ss)
      | .fault f _ => .error f
      | .unfinished => .error .endless := by
  cases hp : full program last body <;> simp [parseTokens, hl, hp]

theorem derives_of_parseTokens {v : Node} (hl : last.kind = .endOfInput)
    (hb : ∀ t ∈ body, t.kind ≠ .endOfInput) (h : parseTokens (body ++ [last]) = .ok v) :
    ∃ ss, v = .program ss ∧ Derives Parted .statements (body.map Token.lexeme) ss := by
  rw [parseTokens_append hl] at h
  cases hp : full program last body with
  | value ss rest =>
    rw [hp] at h
    obtain rfl := Except.ok.inj h
    obtain ⟨⟨used, rfl, hd⟩, hend⟩ := program_sound hl hp
    cases rest with
    | nil => exact ⟨ss, rfl, by simpa using hd⟩
    | cons t rest => exact absurd hend (hb t (by simp))
  | fault f rest => rw [hp] at h; cases h
  | unfinished => rw [hp] at h; cases h

theorem parseTokens_of_derives (hl : last.kind = .endOfInput)
    (h : Derives Parted .statements (body.map Token.lexeme) ss) :
    parseTokens (body ++ [last]) = .ok (.program ss) := by
  have hp : full program last body = .value ss [] := by
    have := (accepts_of_derives h rfl [] (depthFor body) (by simp [depthFor]; omega)).2 hl
    rwa [List.append_nil] at this
  rw [parseTokens_append hl, hp]

theorem Derives.unique {ls : List Lexeme} (h : Derives Parted .statements ls ss)
    (h' : Derives Parted .statements ls ts) : ss = ts := by
  -- the places of tokens do not matter, so any will do
  rw [← map_lexeme_token ls] at h h'
  have hend : (Cursor.endToken Place.start).kind = .endOfInput := rfl
  have hs := parseTokens_of_derives hend h
  rw [parseTokens_of_derives hend h'] at hs
  exact (Node.program.inj (Except.ok.inj hs)).symm

theorem parseTokens_recognizes (hl : last.kind = .endOfInput)
    (hb : ∀ t ∈ body, t.kind ≠ .endOfInput) :
    (∀ v, parseTokens (body ++ [last]) = .ok v ↔
      ∃ ss, v = .program ss ∧ Derives Parted .statements (body.map Token.lexeme) ss) ∧
    ∀ ss ts, Derives Parted .statements (body.map Token.lexeme) ss →
      Derives Parted .statements (body.map Token.lexeme) ts → ss = ts := by
  refine ⟨fun v => ⟨derives_of_parseTokens hl hb, ?_⟩, fun ss ts => Derives.unique⟩
  rintro ⟨ss, rfl, hd⟩
  exact parseTokens_of_derives hl hd

theorem call_recognized :
    parseTokens ([⟨.identifier, "f", ⟨1, 1⟩⟩, ⟨.leftParen, "(", ⟨1, 2⟩⟩, ⟨.identifier, "x", ⟨1, 3⟩⟩,
      ⟨.rightParen, ")", ⟨1, 4⟩⟩] ++ [Cursor.endToken ⟨1, 5⟩]) =
      .ok (.program [.call (.identifier "f") [.identifier "x"]]) := by
  refine ((parseTokens_recognizes rfl (by decide)).1 _).2 ⟨_, rfl, ?_⟩
  have hf : Derives Parted .call [⟨.identifier, "f"⟩] (.identifier "f") :=
    .primary (.identifier rfl)
  have hx : Derives Parted .expression [⟨.identifier, "x"⟩] (.identifier "x") :=
    .target (.operand (.term (.factor (.primary (.identifier rfl)))))
  have hc : Derives Parted .call [⟨.identifier, "f"⟩, ⟨.leftParen, "("⟩, ⟨.identifier, "x"⟩,
      ⟨.rightParen, ")"⟩] (.call (.identifier "f") [.identifier "x"]) :=
    .call (o := ⟨.leftParen, "("⟩) (c := ⟨.rightParen, ")"⟩) hf rfl
      (.arguments (.oneArgument hx)) rfl
  exact .statements (.expression (.target (.operand (.term (.factor hc))))) .noStatements
    (parted_nil _)

end LocksetLang
