import LocksetLang.Token.Lexeme
import Mathlib.Tactic

/-! What stands between two quotes. A text can stand there if it leaves no escape open and has no
quote of its own that no backslash takes away, and then it is read back whatever follows. -/

namespace LocksetLang.Lexeme

def endsOutsideEscape : List Char → Bool
  | [] => true
  | '\\' :: [] => false
  | '\\' :: _ :: rest => endsOutsideEscape rest
  | _ :: rest => endsOutsideEscape rest

def isQuotable (quote : Char) (body : List Char) : Bool :=
  endsOutsideEscape body && !hasUnescaped quote body

variable {quote : Char}

theorem isQuotable_nil : isQuotable quote [] = true := rfl

theorem isQuotable_escape (d : Char) (body : List Char) :
    isQuotable quote ('\\' :: d :: body) = isQuotable quote body := by
  simp [isQuotable, endsOutsideEscape, hasUnescaped]

theorem hasUnescaped_cons {c : Char} (hc : c ≠ '\\') (body : List Char) :
    hasUnescaped quote (c :: body) = (decide (c = quote) || hasUnescaped quote body) := by
  rw [hasUnescaped] <;> simp [hc]

theorem isQuotable_cons {c : Char} (hc : c ≠ '\\') (body : List Char) :
    isQuotable quote (c :: body) = (decide (c ≠ quote) && isQuotable quote body) := by
  have he : endsOutsideEscape (c :: body) = endsOutsideEscape body := by
    rw [endsOutsideEscape] <;> simp [hc]
  rw [isQuotable, isQuotable, he, hasUnescaped_cons hc, Bool.not_or, Bool.and_left_comm, decide_not]

theorem not_isQuotable_backslash : isQuotable quote ['\\'] = false := by
  simp [isQuotable, endsOutsideEscape]

/-- A quote that ends a text is found behind any text that can stand before it. -/
theorem quotedBody_append (hq : quote ≠ '\\') (rest : List Char) : ∀ {body : List Char},
    isQuotable quote body → quotedBody quote (body ++ quote :: rest) = some body
  | [], _ => by
    cases rest <;> simp [quotedBody]
  | [c], h => by
    by_cases hc : c = '\\'
    · rw [hc, not_isQuotable_backslash] at h
      cases h
    · rw [isQuotable_cons hc, Bool.and_eq_true, decide_eq_true_eq] at h
      have ih : quotedBody quote ([] ++ quote :: rest) = some [] :=
        quotedBody_append hq rest isQuotable_nil
      rw [List.nil_append] at ih
      simp [quotedBody, h.1, hc, ih]
  | c :: d :: body, h => by
    by_cases hc : c = '\\'
    · rw [hc, isQuotable_escape] at h
      rw [hc, List.cons_append, List.cons_append, quotedBody, if_neg hq.symm, if_pos rfl,
        quotedBody_append hq rest h]
      rfl
    · rw [isQuotable_cons hc, Bool.and_eq_true, decide_eq_true_eq] at h
      rw [List.cons_append, List.cons_append, quotedBody, if_neg h.1, if_neg hc, ← List.cons_append,
        quotedBody_append hq rest h.2]
      rfl

theorem quotedBody_eq_some (hq : quote ≠ '\\') : ∀ {cs body : List Char},
    quotedBody quote cs = some body →
    isQuotable quote body ∧ ∃ rest, cs = body ++ quote :: rest
  | [], body, h => by cases h
  | [c], body, h => by
    rw [quotedBody] at h
    split_ifs at h with hc
    obtain rfl := Option.some.inj h
    exact ⟨isQuotable_nil, [], by rw [hc]; rfl⟩
  | c :: d :: cs, body, h => by
    rw [quotedBody] at h
    split_ifs at h with hc hb
    · obtain rfl := Option.some.inj h
      exact ⟨isQuotable_nil, d :: cs, by rw [hc]; rfl⟩
    · obtain ⟨more, hm, rfl⟩ := Option.map_eq_some_iff.1 h
      obtain ⟨hqm, rest, rfl⟩ := quotedBody_eq_some hq hm
      exact ⟨by rw [hb, isQuotable_escape, hqm], rest, rfl⟩
    · obtain ⟨more, hm, rfl⟩ := Option.map_eq_some_iff.1 h
      obtain ⟨hqm, rest, he⟩ := quotedBody_eq_some hq hm
      exact ⟨by simp [isQuotable_cons hb, hc, hqm], rest, by rw [he]; rfl⟩

/-- Nothing is read where no quote is left that could close it. -/
theorem quotedBody_eq_none_iff (hq : quote ≠ '\\') (cs : List Char) :
    quotedBody quote cs = none ↔ hasUnescaped quote cs = false := by
  fun_induction quotedBody quote cs with
  | case1 => simp [hasUnescaped]
  | case2 =>
    rw [hasUnescaped_cons hq]
    simp
  | case3 c hc =>
    by_cases hb : c = '\\'
    · simp [hb, hasUnescaped]
    · rw [hasUnescaped_cons hb]
      simp [hc, hasUnescaped]
  | case4 d rest =>
    rw [hasUnescaped_cons hq]
    simp
  | case5 d rest _ ih =>
    rw [Option.map_eq_none_iff, ih, hasUnescaped]
  | case6 c d rest hc hb ih =>
    rw [Option.map_eq_none_iff, ih, hasUnescaped_cons hb, decide_eq_false hc, Bool.false_or]

end LocksetLang.Lexeme
