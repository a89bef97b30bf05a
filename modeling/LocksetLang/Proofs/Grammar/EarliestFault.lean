import LocksetLang.Proofs.Grammar.Depth
import LocksetLang.Proofs.Grammar.Recognition
import LocksetLang.Proofs.Grammar.StatementHalts

/-! A token that is not expected is found at the earliest. Whatever stands behind it, it is refused
for the same reason, and the tokens before it are the first ones of a program, or of what would be
one but for the parameters of a function. -/

namespace LocksetLang

open Grammar LocksetLang.Parser

def EndsInput (ts : List Token) : Prop := ∃ body last, ts = body ++ [last] ∧ last.kind = .endOfInput

variable {ts body : List Token} {last : Token} {f : ParseFault}

theorem endsInput_of_parseTokens (h : parseTokens ts = .error f) (hf : f ≠ .noEnd) :
    EndsInput ts := by
  unfold parseTokens at h
  cases hg : ts.getLast? with
  | none =>
    rw [hg] at h
    exact absurd (Except.error.inj h).symm hf
  | some last =>
    rw [hg] at h
    dsimp only at h
    split_ifs at h with hl
    · obtain ⟨body, rfl⟩ := List.getLast?_eq_some_iff.1 hg
      exact ⟨body, last, rfl, hl⟩
    · exact absurd (Except.error.inj h).symm hf

theorem program_fault_of_parseTokens (hl : last.kind = .endOfInput)
    (h : parseTokens (body ++ [last]) = .error f) :
    ∃ left, program (depthFor body) last body = .fault f left := by
  rw [parseTokens_append hl] at h
  cases hp : full program last body with
  | value ss rest => rw [hp] at h; cases h
  | fault g left =>
    rw [hp] at h
    obtain rfl := Except.error.inj h
    exact ⟨left, hp⟩
  | unfinished => exact absurd hp (full_program_finishes hl)

/-- A fault at any depth that is enough is the fault of the list. -/
theorem parseTokens_of_program_fault (hl : last.kind = .endOfInput) {e : Nat}
    (he : depthFor body ≤ e) (h : ∃ left, program e last body = .fault f left) :
    parseTokens (body ++ [last]) = .error f := by
  obtain ⟨left, h⟩ := h
  rw [parseTokens_append hl]
  cases hp : full program last body with
  | value ss rest =>
    obtain ⟨used, rfl, hpass⟩ := (program_halts hl).value hp
    cases (hpass he rfl).symm.trans h
  | fault g left' =>
    obtain ⟨used, rest, rfl, -, -, hr⟩ := (program_halts hl).fault hp
    obtain ⟨left'', hg⟩ := hr he rfl
    rw [(Reply.fault.inj (hg.symm.trans h)).1]
  | unfinished => exact absurd hp (full_program_finishes hl)

/-- A list with the tokens `used` and then `next` at its start, split before its end. -/
theorem EndsInput.split {used : List Token} {next : Token} (h : EndsInput ts)
    (hts : used ++ [next] <+: ts) :
    ∃ rest last, ts = used ++ rest ++ [last] ∧ last.kind = .endOfInput ∧ rest.headD last = next := by
  obtain ⟨body, last, rfl, hl⟩ := h
  obtain ⟨more, he⟩ := hts
  rcases List.eq_nil_or_concat more with rfl | ⟨rest, last', rfl⟩
  · rw [List.append_nil] at he
    obtain ⟨rfl, hnext⟩ := List.append_inj' he rfl
    obtain rfl := List.singleton_inj.1 hnext
    exact ⟨[], next, by simp, hl, rfl⟩
  · rw [List.concat_eq_append, ← List.append_assoc] at he
    obtain ⟨rfl, hlast⟩ := List.append_inj' he rfl
    obtain rfl := List.singleton_inj.1 hlast
    exact ⟨next :: rest, last', by simp, hl, rfl⟩

/-- The first tokens of a program, or of something that is refused for the parameters of a
function. -/
theorem exists_endsInput_of_viable {used : List Token}
    (h : GoesOn .statements [] used ∨ Objects program used) :
    ∃ us, EndsInput us ∧ used <+: us ∧
      ((∃ p, parseTokens us = .ok p) ∨
        ∃ start, parseTokens us = .error (.parameterNotName start)) := by
  have hl : (Cursor.endToken Place.start).kind = .endOfInput := rfl
  rcases h with ⟨more, ss, h⟩ | ⟨-, more, d, ho⟩
  · refine ⟨used ++ more.map Lexeme.token ++ [Cursor.endToken Place.start], ⟨_, _, rfl, hl⟩,
      by simp, .inl ⟨.program ss, parseTokens_of_derives hl ?_⟩⟩
    rwa [List.map_append, map_lexeme_token]
  · obtain ⟨start, left, h⟩ := @ho (max d (depthFor (used ++ more)))
      (Cursor.endToken Place.start) [] (by omega) hl
    rw [List.append_nil] at h
    exact ⟨used ++ more ++ [Cursor.endToken Place.start], ⟨_, _, rfl, hl⟩, by simp,
      .inr ⟨start, parseTokens_of_program_fault hl (by omega) ⟨left, h⟩⟩⟩

/-- The token that is not expected decides alone, and without it nothing was wrong. -/
theorem unexpected_at_earliest {c : Demand} {t : Token}
    (h : parseTokens ts = .error (.unexpected c t)) :
    ∃ i, ts[i]? = some t ∧
      (∀ us, EndsInput us → us.take (i + 1) = ts.take (i + 1) →
        parseTokens us = .error (.unexpected c t)) ∧
      ∃ us, EndsInput us ∧ us.take i = ts.take i ∧
        ((∃ p, parseTokens us = .ok p) ∨
          ∃ start, parseTokens us = .error (.parameterNotName start)) := by
  obtain ⟨body, last, rfl, hl⟩ := endsInput_of_parseTokens h nofun
  obtain ⟨left, hp⟩ := program_fault_of_parseTokens hl h
  obtain ⟨used, rest, rfl, rfl, hv, hr⟩ := (program_halts hl).fault hp
  have hts : used ++ [rest.headD last] <+: used ++ rest ++ [last] := by
    cases rest <;> simp
  have htake : (used ++ rest ++ [last]).take (used.length + 1) = used ++ [rest.headD last] := by
    have := List.prefix_iff_eq_take.1 hts
    simpa using this.symm
  refine ⟨used.length, ?_, fun us hus he => ?_, ?_⟩
  · cases rest <;> simp
  · have hpre : used ++ [rest.headD last] <+: us := by
      rw [← htake, ← he]
      exact List.take_prefix _ _
    obtain ⟨rest', last', rfl, hl', hh⟩ := hus.split hpre
    exact parseTokens_of_program_fault hl' (le_max_right _ _) (hr (le_max_left _ _) hh)
  · obtain ⟨us, hus, hpre, h⟩ := exists_endsInput_of_viable (hv rfl)
    refine ⟨us, hus, ?_, h⟩
    rw [← List.prefix_iff_eq_take.1 hpre, List.append_assoc, List.take_left]

/-- A semicolon in the place of an argument. -/
theorem semicolon_at_earliest :
    let ts := [⟨.identifier, "f", ⟨1, 1⟩⟩, ⟨.leftParen, "(", ⟨1, 2⟩⟩, ⟨.semicolon, ";", ⟨1, 3⟩⟩,
      Cursor.endToken ⟨1, 4⟩]
    parseTokens ts = .error (.unexpected .expression ⟨.semicolon, ";", ⟨1, 3⟩⟩) ∧
    ∃ i, ts[i]? = some ⟨.semicolon, ";", ⟨1, 3⟩⟩ ∧
      (∀ us, EndsInput us → us.take (i + 1) = ts.take (i + 1) →
        parseTokens us = .error (.unexpected .expression ⟨.semicolon, ";", ⟨1, 3⟩⟩)) ∧
      ∃ us, EndsInput us ∧ us.take i = ts.take i ∧
        ((∃ p, parseTokens us = .ok p) ∨
          ∃ start, parseTokens us = .error (.parameterNotName start)) := by
  have h : parseTokens [⟨.identifier, "f", ⟨1, 1⟩⟩, ⟨.leftParen, "(", ⟨1, 2⟩⟩,
      ⟨.semicolon, ";", ⟨1, 3⟩⟩, Cursor.endToken ⟨1, 4⟩] =
      .error (.unexpected .expression ⟨.semicolon, ";", ⟨1, 3⟩⟩) := by rfl
  exact ⟨h, unexpected_at_earliest h⟩

end LocksetLang
