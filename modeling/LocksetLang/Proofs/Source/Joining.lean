import LocksetLang.Proofs.Source.Parsed

/-! Texts behind one another. A newline keeps the lexemes of two texts apart, and where the first of
them ends, the parser stops before whatever the second begins with; but for an opening parenthesis,
which would go on with an expression. -/

namespace LocksetLang

variable {xs ys : List Lexeme} {ss ss' : List Node} {ts us : List Token} {s t : String} {p q : Node}

theorem Derives.append (h : Derives Parted .statements xs ss)
    (h' : Derives Parted .statements ys ss') (hj : xs = [] ∨ Parted xs ys) :
    Derives Parted .statements (xs ++ ys) (ss ++ ss') := by
  induction ss generalizing xs with
  | nil =>
    cases h
    exact h'
  | cons s ss ih =>
    cases h with
    | @statements as bs _ _ hs hr hab =>
      have hj : Parted (as ++ bs) ys :=
        hj.resolve_left fun h => hs.ne_nil rfl (List.append_eq_nil_iff.1 h).1
      rw [List.append_assoc]
      rcases List.eq_nil_or_concat bs with rfl | ⟨init, b, rfl⟩
      · rw [List.append_nil] at hj
        exact .statements hs (ih hr (.inl rfl)) hj
      · refine .statements hs (ih hr (.inr ?_)) ?_
        · simpa [Parted] using hj
        · simpa [Parted] using hab

/-- Whether a text with the tokens `us` may stand behind one with the tokens `ts`: there are none of
these before the one for the end, or the last of them ends a statement, or the first token of `us`
goes on with none. -/
def MayFollow (ts us : List Token) : Prop :=
  ts.dropLast = [] ∨ (∃ t ∈ ts.dropLast.getLast?, t.kind = .semicolon ∨ t.kind = .rightBrace) ∨
    ∀ u ∈ us.head?, u.kind ≠ .leftParen

/-- The program of two texts with a newline between them is the programs of both. -/
theorem parse_append (hp : parse s = .ok p) (hq : parse t = .ok q) (hs : tokenize s = .ok ts)
    (ht : tokenize t = .ok us) (hj : MayFollow ts us) :
    ∃ ss ss', p = .program ss ∧ q = .program ss' ∧
      parse (s ++ "\n" ++ t) = .ok (.program (ss ++ ss')) := by
  obtain ⟨xs, end₁, rfl, hxs⟩ := scans_of_tokenize hs
  obtain ⟨ys, end₂, rfl, hys⟩ := scans_of_tokenize ht
  obtain ⟨ss, rfl, hss⟩ := (parse_iff_of_scans hxs).1 hp
  obtain ⟨ss', rfl, hss'⟩ := (parse_iff_of_scans hys).1 hq
  have hscans : Scans (s ++ "\n" ++ t).toList (xs.map Token.lexeme ++ ys.map Token.lexeme) := by
    simpa using hxs.append hys
  refine ⟨ss, ss', rfl, rfl, (parse_iff_of_scans hscans).2 ⟨_, rfl, hss.append hss' ?_⟩⟩
  rw [MayFollow, List.dropLast_concat] at hj
  rcases hj with rfl | ⟨x, hx, hk⟩ | hy
  · exact .inl rfl
  · refine .inr fun _ => ?_
    rw [List.getLast?_map, Option.mem_def.1 hx]
    simpa using hk
  · refine .inr fun hparen => ?_
    cases ys with
    | nil => cases hparen
    | cons y ys => exact absurd (by simpa using hparen) (hy y rfl)

/-- A declaration with a comment behind it, and an expression in parentheses. -/
theorem declaration_parse_append :
    ∃ ss ss', Node.program [.declaration "a" false none] = .program ss ∧
      Node.program [.identifier "b"] = .program ss' ∧
      parse ("set a;#" ++ "\n" ++ "(b)") = .ok (.program (ss ++ ss')) := by
  have hs : tokenize "set a;#" = .ok [⟨.setWord, "set", ⟨1, 1⟩⟩, ⟨.identifier, "a", ⟨1, 5⟩⟩,
      ⟨.semicolon, ";", ⟨1, 6⟩⟩, Cursor.endToken ⟨1, 8⟩] := by decide +kernel
  have ht : tokenize "(b)" = .ok [⟨.leftParen, "(", ⟨1, 1⟩⟩, ⟨.identifier, "b", ⟨1, 2⟩⟩,
      ⟨.rightParen, ")", ⟨1, 3⟩⟩, Cursor.endToken ⟨1, 4⟩] := by decide +kernel
  have hp : parse "set a;#" = .ok (.program [.declaration "a" false none]) := by
    rw [parse, hs]
    rfl
  have hq : parse "(b)" = .ok (.program [.identifier "b"]) := by
    rw [parse, ht]
    rfl
  exact parse_append hp hq hs ht (.inr (.inl ⟨_, rfl, .inl rfl⟩))

end LocksetLang
