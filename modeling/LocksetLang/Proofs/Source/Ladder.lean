import LocksetLang.Proofs.Grammar.Buffer
import LocksetLang.Proofs.Grammar.StatementCompleteness
import LocksetLang.Proofs.Source.Derivation

/-! The levels that expressions are written for are the rungs that they are read on. Whatever level a
position asks for, the production of that rung takes the text off the tokens, and it stops behind it
unless the next token goes on with an expression. -/

namespace LocksetLang

namespace Grammar

/-- The production for a position that asks for a level. -/
def rung : (level depth : Nat) → Parser Node
  | 0 => expression
  | 1 => object
  | 2 => sum
  | 3 => product
  | 4 => callOrMember
  | _ => primary

/-- The kinds that can go on with an expression. -/
def expressionLinks : List Kind := [.dot, .leftBracket, .leftParen, .operator, .equals]

variable {last t : Token} {used rest : List Token} {e : Node} {level d : Nat}

theorem endsExpression_of_not_mem (h : t.kind ∉ expressionLinks) : EndsExpression used t := by
  simp only [expressionLinks, List.mem_cons, List.not_mem_nil, or_false, not_or] at h
  obtain ⟨hdot, hbracket, hparen, hop, hequals⟩ := h
  exact ⟨⟨hdot, hbracket, hop, fun hp => absurd hp hparen⟩, hequals⟩

theorem endsCall_of_not_mem (h : t.kind ∉ expressionLinks) : EndsCall t ∧ t.kind ≠ .operator := by
  simp only [expressionLinks, List.mem_cons, List.not_mem_nil, or_false, not_or] at h
  obtain ⟨hdot, hbracket, hparen, hop, -⟩ := h
  exact ⟨⟨hdot, hbracket, hparen⟩, hop⟩

theorem rung_of_derivesAt (h : Source.DerivesAt Parted level (used.map Token.lexeme) e)
    (ht : (rest.headD last).kind ∉ expressionLinks) (hd : 16 * used.length + 8 ≤ d) :
    rung level d last (used ++ rest) = .value e rest := by
  obtain ⟨hcall, hop⟩ := endsCall_of_not_mem ht
  have hends : EndsExpression used (rest.headD last) := endsExpression_of_not_mem ht
  match level, h with
  | 0, h => exact accepts_of_derives (p := .expression) h rfl rest d hends hd
  | 1, h => exact accepts_of_derives (p := .object) h rfl rest d hends.1 (by omega)
  | 2, h =>
    exact accepts_of_derives (p := .sum) h rfl (k := 0) hcall (fun hk => absurd hk hop)
      (fun d hd => sums.tail_stop hd fun h => absurd h hop) d (by omega)
  | 3, h =>
    exact Accepts.product_of_ends (accepts_of_derives (p := .product) h rfl) hcall
      (fun hk => absurd hk hop) (by omega)
  | 4, h => exact Accepts.call_of_ends (accepts_of_derives (p := .call) h rfl) hcall (by omega)
  | _ + 5, h => exact accepts_of_derives (p := .primary) h rfl rest d (by omega)

end Grammar

open Grammar Source

/-- The text of an expression, written for a level, is read on the rung of that level as an equal
expression, up to where the text ends. -/
theorem expression_read_on_rung {e : Node} (h : e.IsExpression) (level : Nat) :
    ∃ text ts place q, Source.expression level e = .ok text ∧
      tokenize text = .ok (ts ++ [Cursor.endToken place]) ∧ q.same e ∧
      ∀ (rest : List Token) (last : Token), last.kind = .endOfInput →
        (rest.headD last).kind ∉ [Kind.dot, .leftBracket, .leftParen, .operator, .equals] →
        (Buffer.ofTokens (ts ++ (rest ++ [last]))).run (full (rung level)) =
          (.ok q, ⟨ts ++ (rest ++ [last]), ts.length⟩) := by
  obtain ⟨text, htext, hspells⟩ := prints_of_isExpression h level
  obtain ⟨ts, place, hts, hls⟩ := tokenize_of_spells hspells
  have hd : DerivesAt Parted level (ts.map Token.lexeme) e.plain := hls ▸ derives_of_isExpression h level
  refine ⟨text, ts, place, e.plain, htext, hts, h.same_plain, fun rest last _ hnext => ?_⟩
  have hdepth : 16 * ts.length + 8 ≤ depthFor (ts ++ rest) := by
    rw [depthFor, List.length_append]
    omega
  exact Buffer.run_full (rung_of_derivesAt hd hnext hdepth)

/-- A call of an assignment, as the first of several arguments. -/
theorem called_assignment_read_on_rung :
    let e := Node.call (.assignment (.identifier "a") (.object [])) []
    e.IsExpression ∧ (Token.mk .comma "," Place.start).kind ∉
        [Kind.dot, .leftBracket, .leftParen, .operator, .equals] ∧
      ∃ text ts place q, Source.expression 5 e = .ok text ∧
        tokenize text = .ok (ts ++ [Cursor.endToken place]) ∧ q.same e ∧
        (Buffer.ofTokens (ts ++ ([⟨.comma, ",", Place.start⟩] ++ [Cursor.endToken place]))).run
            (full (rung 5)) =
          (.ok q, ⟨ts ++ ([⟨.comma, ",", Place.start⟩] ++ [Cursor.endToken place]), ts.length⟩) := by
  have ha : Node.IsExpression (.identifier "a") := .identifier (by decide)
  have ho : Node.IsExpression (.object []) := .object (by simp) (by simp)
  have he : Node.IsExpression (.call (.assignment (.identifier "a") (.object [])) []) :=
    .call (.assignment ha ho) (by simp)
  obtain ⟨text, ts, place, q, htext, hts, hsame, hread⟩ := expression_read_on_rung he 5
  exact ⟨he, by decide, text, ts, place, q, htext, hts, hsame,
    hread [⟨.comma, ",", Place.start⟩] (Cursor.endToken place) rfl
      (by simp only [List.headD_cons]; decide)⟩

end LocksetLang
