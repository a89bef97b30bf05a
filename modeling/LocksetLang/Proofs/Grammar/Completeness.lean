import LocksetLang.Proofs.Grammar.Acceptance

/-! Every phrase of the grammar is taken off the tokens by its production. In a list of statements
the next one starts with a lexeme that no expression goes on with, unless it is a parenthesis, and
then the rule about neighbours says that the statement before is closed. -/

namespace LocksetLang.Grammar

open LocksetLang.Parser

variable {last : Token} {used : List Token} {e v : Node}

theorem headD_of_first {joins : List Lexeme → List Lexeme → Prop} {p : Phrase} {v : p.Tree}
    {xs rest : List Token} (h : Derives joins p (xs.map Token.lexeme) v) (hp : p.isSolid) :
    ((xs ++ rest).headD last).kind ∈ p.firsts := by
  cases xs with
  | nil => exact absurd rfl (h.ne_nil hp)
  | cons x xs => exact h.first_mem x.lexeme (by simp)

theorem lasts_of_endsWith {joins : List Lexeme → List Lexeme → Prop} {p : Phrase} {v : p.Tree}
    {xs : List Token} {k : Kind} (h : Derives joins p (xs.map Token.lexeme) v)
    (hk : EndsWith k xs) : k ∈ p.lasts := by
  obtain ⟨c, hc, rfl⟩ := hk
  exact h.last_mem c.lexeme (by simp [Option.mem_def.1 hc])

section
variable {o c k s q : Token} {xs ys : List Token} {es ps : List Node}
  {joins : List Lexeme → List Lexeme → Prop}

theorem sum_object_accepts (hd : Derives joins .sum (used.map Token.lexeme) e)
    (he : Accepts last .sum used e) : Accepts last .object used e := by
  intro rest d ⟨hdot, hbracket, hop, hp⟩ hdepth
  obtain ⟨d, rfl, hdepth⟩ := exists_succ_of_le hdepth
  have hparen : (rest.headD last).kind ≠ .leftParen := fun h =>
    absurd (lasts_of_endsWith hd (hp h)) (by decide)
  have hbrace : ((used ++ rest).headD last).kind ≠ .leftBrace := fun h =>
    absurd (h ▸ headD_of_first hd rfl) (by decide)
  rw [object, peek_bind, if_neg hbrace]
  exact he (k := 0) ⟨hdot, hbracket, hparen⟩ (fun h => absurd h hop)
    (fun d hd => sums.tail_stop hd fun h => absurd h hop) d (by omega)

theorem object_accepts (ho : o.kind = .leftBrace) (hp : Accepts last .entries xs ps)
    (hc : c.kind = .rightBrace) : Accepts last .object (o :: (xs ++ [c])) (.object ps) := by
  intro rest d _ hd
  obtain ⟨d, rfl, hd⟩ := exists_succ_of_le hd
  simp only [List.length_cons, List.length_append, List.length_nil] at hd
  rw [List.cons_append, List.append_assoc, List.singleton_append, object, peek_bind,
    List.headD_cons, if_pos ho, advance_bind, List.tail_cons,
    bind_of_value (hp c rest d hc (by omega)), expect_bind_of_kind hc]
  rfl

theorem target_accepts (he : Accepts last .object used e) : Accepts last .expression used e := by
  intro rest d ⟨hends, hq⟩ hd
  obtain ⟨d, rfl, hd⟩ := exists_succ_of_le hd
  rw [expression, bind_of_value (he rest d hends (by omega)), peek_bind, if_neg hq]
  rfl

theorem assignment_accepts (ht : Accepts last .object xs e) (hq : q.kind = .equals)
    (hy : ys ≠ []) (hv : Accepts last .expression ys v) :
    Accepts last .expression (xs ++ q :: ys) (.assignment e v) := by
  intro rest d ⟨hends, hne⟩ hd
  obtain ⟨d, rfl, hd⟩ := exists_succ_of_le hd
  simp only [List.length_cons, List.length_append] at hd
  rw [show xs ++ q :: ys = (xs ++ [q]) ++ ys by simp] at hends
  have hx := ht (q :: (ys ++ rest)) d
    ⟨by simp [hq], by simp [hq], by simp [hq], by simp [hq]⟩ (by omega)
  have hy := hv rest d ⟨hends.of_append hy, hne⟩ (by omega)
  rw [List.append_assoc, List.cons_append, expression, bind_of_value hx, peek_bind,
    List.headD_cons, if_pos hq, advance_bind, List.tail_cons, bind_of_value hy]
  rfl

theorem oneArgument_accepts (he : Accepts last .expression used e) :
    Accepts last .argumentList used [e] := by
  intro c rest d hc hd
  obtain ⟨d, rfl, hd⟩ := exists_succ_of_le hd
  have hx := he (c :: rest) d (EndsExpression.of_kind hc (by decide)) (by omega)
  rw [argumentList, peek_bind, bind_of_value hx, peek_bind, List.headD_cons,
    if_neg (by simp [hc])]
  exact ⟨_, rfl, rfl⟩

theorem moreArguments_accepts (he : Accepts last .expression xs e) (hs : s.kind = .comma)
    (hes : Accepts last .argumentList ys es) :
    Accepts last .argumentList (xs ++ s :: ys) (e :: es) := by
  intro c rest d hc hd
  obtain ⟨d, rfl, hd⟩ := exists_succ_of_le hd
  simp only [List.length_cons, List.length_append] at hd
  have hx := he (s :: (ys ++ c :: rest)) d (EndsExpression.of_kind hs (by decide)) (by omega)
  obtain ⟨as, hy, rfl⟩ := hes c rest d hc (by omega)
  rw [List.append_assoc, List.cons_append, argumentList, peek_bind, bind_of_value hx, peek_bind,
    List.headD_cons, if_pos hs, advance_bind, List.tail_cons, bind_of_value hy]
  exact ⟨_, rfl, rfl⟩

theorem noArguments_accepts : Accepts last .arguments [] [] := by
  intro o c rest d ho hc hd
  obtain ⟨d, rfl, -⟩ := exists_succ_of_le hd
  rw [List.nil_append, locatedArguments, expect_bind_of_kind ho, peek_bind, List.headD_cons,
    if_pos hc, return_bind]
  dsimp only
  rw [expect_bind_of_kind hc]
  exact ⟨_, rfl, rfl⟩

theorem arguments_accepts (hd : Derives joins .argumentList (used.map Token.lexeme) es)
    (he : Accepts last .argumentList used es) : Accepts last .arguments used es := by
  intro o c rest d ho hc hdepth
  obtain ⟨d, rfl, hdepth⟩ := exists_succ_of_le hdepth
  obtain ⟨as, hx, rfl⟩ := he c rest d hc (by omega)
  have hne : ((used ++ c :: rest).headD last).kind ≠ .rightParen := fun h =>
    absurd (h ▸ headD_of_first hd rfl) (by decide)
  rw [locatedArguments, expect_bind_of_kind ho, peek_bind, if_neg hne, bind_of_value hx]
  dsimp only
  rw [expect_bind_of_kind hc]
  exact ⟨_, rfl, rfl⟩

theorem properties_key {d : Nat} {ahead : List Token} (hk : k.kind = .identifier) :
    properties (d + 1) last (k :: ahead) = (do
      let t ← peek
      if t.kind = .comma then
        let _ ← advance
        return .property k.value none :: (← properties d)
      else if t.kind = .rightBrace then return [.property k.value none]
      else
        let _ ← expect .objectColon
        let value ← expression d
        if (← peek).kind = .rightBrace then return [.property k.value (some value)]
        else
          let _ ← expect .objectComma
          return .property k.value (some value) :: (← properties d) : Parser (List Node))
        last ahead := by
  rw [properties, atListEnd_bind, List.headD_cons, if_neg (by simp [hk]), expect_bind_of_kind hk]

theorem noEntries_accepts : Accepts last .entries [] [] := by
  intro c rest d hc hd
  obtain ⟨d, rfl, -⟩ := exists_succ_of_le hd
  rw [List.nil_append, properties, atListEnd_bind, List.headD_cons, if_pos (by simp [hc])]
  rfl

theorem lastKey_accepts (hk : k.kind = .identifier) :
    Accepts last .entries [k] [.property k.value none] := by
  intro c rest d hc hd
  obtain ⟨d, rfl, -⟩ := exists_succ_of_le hd
  rw [List.singleton_append, properties_key hk, peek_bind, List.headD_cons,
    if_neg (by simp [hc]), if_pos hc]
  rfl

theorem key_accepts (hk : k.kind = .identifier) (hs : s.kind = .comma)
    (hp : Accepts last .entries xs ps) :
    Accepts last .entries (k :: s :: xs) (.property k.value none :: ps) := by
  intro c rest d hc hd
  obtain ⟨d, rfl, hd⟩ := exists_succ_of_le hd
  simp only [List.length_cons] at hd
  rw [List.cons_append, List.cons_append, properties_key hk, peek_bind, List.headD_cons,
    if_pos hs, advance_bind, List.tail_cons, bind_of_value (hp c rest d hc (by omega))]
  rfl

theorem lastEntry_accepts (hk : k.kind = .identifier) (hs : s.kind = .colon)
    (he : Accepts last .expression xs e) :
    Accepts last .entries (k :: s :: xs) [.property k.value (some e)] := by
  intro c rest d hc hd
  obtain ⟨d, rfl, hd⟩ := exists_succ_of_le hd
  simp only [List.length_cons] at hd
  have hx := he (c :: rest) d (EndsExpression.of_kind hc (by decide)) (by omega)
  rw [List.cons_append, List.cons_append, properties_key hk, peek_bind, List.headD_cons,
    if_neg (by simp [hs]), if_neg (by simp [hs]), expect_bind_of_kind hs, bind_of_value hx,
    peek_bind, List.headD_cons, if_pos hc]
  rfl

theorem entry_accepts (hk : k.kind = .identifier) (hs : s.kind = .colon)
    (he : Accepts last .expression xs e) (hq : q.kind = .comma) (hp : Accepts last .entries ys ps) :
    Accepts last .entries (k :: s :: (xs ++ q :: ys)) (.property k.value (some e) :: ps) := by
  intro c rest d hc hd
  obtain ⟨d, rfl, hd⟩ := exists_succ_of_le hd
  simp only [List.length_cons, List.length_append] at hd
  have hx := he (q :: (ys ++ c :: rest)) d (EndsExpression.of_kind hq (by decide)) (by omega)
  rw [show k :: s :: (xs ++ q :: ys) ++ c :: rest = k :: s :: (xs ++ q :: (ys ++ c :: rest)) by simp,
    properties_key hk, peek_bind, List.headD_cons, if_neg (by simp [hs]), if_neg (by simp [hs]),
    expect_bind_of_kind hs, bind_of_value hx, peek_bind, List.headD_cons, if_neg (by simp [hq]),
    expect_bind_of_kind hq, bind_of_value (hp c rest d hc (by omega))]
  rfl

end

end LocksetLang.Grammar
