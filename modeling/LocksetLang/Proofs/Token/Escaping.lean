import LocksetLang.Proofs.Token.Quotation

/-! Escapes. A text is read from the left, and each backslash takes the character behind it, so that a
character stands for itself only behind a text with no escape left open. -/

namespace LocksetLang.Lexeme

/-- Characters that stand for themselves, and escapes: a backslash with the character that it takes. -/
inductive IsWhole : List Char → Prop where
  | nil : IsWhole []
  | plain {c : Char} {cs : List Char} (hc : c ≠ '\\') (h : IsWhole cs) : IsWhole (c :: cs)
  | escape (c : Char) {cs : List Char} (h : IsWhole cs) : IsWhole ('\\' :: c :: cs)

/-- The character occurs where no backslash takes it. -/
def StandsFree (c : Char) (cs : List Char) : Prop :=
  ∃ before after, cs = before ++ c :: after ∧ IsWhole before

/-- The last character is a backslash with nothing left to take. -/
def EndsInEscape (cs : List Char) : Prop := ∃ before, cs = before ++ ['\\'] ∧ IsWhole before

variable {c q : Char} {cs : List Char}

theorem StandsFree.plain (hc : c ≠ '\\') (h : StandsFree q cs) : StandsFree q (c :: cs) := by
  obtain ⟨before, after, rfl, hb⟩ := h
  exact ⟨c :: before, after, rfl, .plain hc hb⟩

theorem StandsFree.escape (c : Char) (h : StandsFree q cs) : StandsFree q ('\\' :: c :: cs) := by
  obtain ⟨before, after, rfl, hb⟩ := h
  exact ⟨'\\' :: c :: before, after, rfl, .escape c hb⟩

theorem EndsInEscape.plain (hc : c ≠ '\\') (h : EndsInEscape cs) : EndsInEscape (c :: cs) := by
  obtain ⟨before, rfl, hb⟩ := h
  exact ⟨c :: before, rfl, .plain hc hb⟩

theorem EndsInEscape.escape (c : Char) (h : EndsInEscape cs) : EndsInEscape ('\\' :: c :: cs) := by
  obtain ⟨before, rfl, hb⟩ := h
  exact ⟨'\\' :: c :: before, rfl, .escape c hb⟩

theorem endsOutsideEscape_cons (hc : c ≠ '\\') (cs : List Char) :
    endsOutsideEscape (c :: cs) = endsOutsideEscape cs := by
  rw [endsOutsideEscape] <;> simp [hc]

/-- Behind a whole text, escapes are read as if nothing stood before them. -/
theorem IsWhole.append (h : IsWhole cs) (more : List Char) :
    endsOutsideEscape (cs ++ more) = endsOutsideEscape more ∧
      (hasUnescaped q more → hasUnescaped q (cs ++ more)) := by
  induction h with
  | nil => exact ⟨rfl, id⟩
  | plain hc _ ih =>
    rw [List.cons_append, endsOutsideEscape_cons hc, hasUnescaped_cons hc]
    exact ⟨ih.1, fun hm => by rw [ih.2 hm, Bool.or_true]⟩
  | escape c _ ih => exact ih

theorem endsInEscape_iff : EndsInEscape cs ↔ endsOutsideEscape cs = false := by
  refine ⟨?_, fun h => ?_⟩
  · rintro ⟨before, rfl, hb⟩
    exact (hb.append (q := '"') ['\\']).1
  · fun_induction endsOutsideEscape cs with
    | case1 => cases h
    | case2 => exact ⟨[], rfl, .nil⟩
    | case3 c cs ih => exact (ih h).escape c
    | case4 c cs hlast hescape ih =>
      refine (ih h).plain ?_
      rintro rfl
      cases cs with
      | nil => exact hlast rfl rfl
      | cons d cs => exact hescape d cs rfl rfl

theorem standsFree_iff (hq : q ≠ '\\') : StandsFree q cs ↔ hasUnescaped q cs := by
  refine ⟨?_, fun h => ?_⟩
  · rintro ⟨before, after, rfl, hb⟩
    exact (hb.append (q :: after)).2 (by simp [hasUnescaped_cons hq])
  · fun_induction hasUnescaped q cs with
    | case1 => cases h
    | case2 => cases h
    | case3 c cs ih => exact (ih h).escape c
    | case4 c cs hlast hescape ih =>
      have hc : c ≠ '\\' := by
        rintro rfl
        cases cs with
        | nil => exact hlast rfl rfl
        | cons d cs => exact hescape d cs rfl rfl
      rw [Bool.or_eq_true, decide_eq_true_eq] at h
      rcases h with rfl | h
      · exact ⟨[], cs, rfl, .nil⟩
      · exact (ih h).plain hc

end LocksetLang.Lexeme
