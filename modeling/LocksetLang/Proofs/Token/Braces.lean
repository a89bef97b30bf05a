import LocksetLang.Proofs.Token.Tokens

/-! Braces of a text, counted as characters and as tokens. The two counts differ by the braces that
stand in comments and strings, where they are no tokens. -/

namespace LocksetLang

open Lexeme

/-- How many more opening braces than closing ones there are. -/
def charBalance (cs : List Char) : Int := (cs.count '{' : Int) - cs.count '}'

def tokenBalance (ts : List Token) : Int :=
  (ts.countP (·.kind = .leftBrace) : Int) - ts.countP (·.kind = .rightBrace)

/-- What is passed over on the way from a cursor to the end of the text: spaces and comments, and what
stands in strings. -/
def Cursor.concealed (c : Cursor) : List Char :=
  match _h : c.nextToken with
  | (.error _, _) => []
  | (.ok t, d) =>
    if _ht : t.kind = .endOfInput then trivia c.rest
    else trivia c.rest ++ (if t.kind = .string then t.value.toList else []) ++ d.concealed
termination_by c.rest.length
decreasing_by exact nextToken_shrinks ‹_› ‹_›

/-- The characters of a text that are in comments and strings, or spaces. -/
def concealed (source : String) : List Char := (Cursor.ofText source.toList).concealed

variable {as bs cs text : List Char} {t : Token} {ts : List Token} {c d : Cursor}

@[simp] theorem charBalance_nil : charBalance [] = 0 := rfl

@[simp] theorem charBalance_append (as bs : List Char) :
    charBalance (as ++ bs) = charBalance as + charBalance bs := by
  simp only [charBalance, List.count_append, Nat.cast_add]
  omega

theorem charBalance_eq_zero (h : ∀ c ∈ cs, c ≠ '{' ∧ c ≠ '}') : charBalance cs = 0 := by
  have hl : cs.count '{' = 0 := List.count_eq_zero.2 fun hc => (h _ hc).1 rfl
  have hr : cs.count '}' = 0 := List.count_eq_zero.2 fun hc => (h _ hc).2 rfl
  rw [charBalance, hl, hr]
  rfl

/-- What a token of a kind adds to the balance. -/
def Kind.balance (k : Kind) : Int :=
  if k = .leftBrace then 1 else if k = .rightBrace then -1 else 0

theorem tokenBalance_cons (t : Token) (ts : List Token) :
    tokenBalance (t :: ts) = t.kind.balance + tokenBalance ts := by
  unfold tokenBalance Kind.balance
  rw [List.countP_cons, List.countP_cons]
  split_ifs <;> simp_all <;> omega

theorem ne_brace_of_isWordPart {c : Char} (h : isWordPart c) : c ≠ '{' ∧ c ≠ '}' :=
  ⟨ne_of_isWordPart h (by decide), ne_of_isWordPart h (by decide)⟩

/-- The braces that a lexeme is read off are those of its kind, and in a string those of its value. -/
theorem Lexeme.ReadOff.charBalance_eq {t : Lexeme} (h : t.ReadOff cs) :
    charBalance cs =
      t.kind.balance + charBalance (if t.kind = .string then t.value.toList else []) := by
  rcases h with ⟨@⟨c, cs, hc, hcs⟩ | n | @⟨quote, body, hq, hb⟩ | @⟨cs, k, hk⟩⟩ | @⟨c, hc⟩
  · have hkind : ∀ k ∈ wordKinds, k.balance = 0 ∧ k ≠ .string := by decide
    obtain ⟨hbalance, hstring⟩ := hkind _ (wordKind_mem (String.ofList (c :: cs)))
    dsimp only
    rw [hbalance, if_neg hstring, charBalance_nil, charBalance_eq_zero]
    · rfl
    · refine List.forall_mem_cons.2 ⟨?_, fun d hd => ne_brace_of_isWordPart (hcs d hd)⟩
      exact ne_brace_of_isWordPart (by simp [isWordPart, hc])
  · refine charBalance_eq_zero fun c hc => ?_
    rcases n.mem_chars hc with hd | rfl
    · exact ne_brace_of_isWordPart (by simp [isWordPart, hd])
    · decide
  · have hquote : charBalance [quote] = 0 := by
      simp only [isQuote, Bool.or_eq_true, decide_eq_true_eq] at hq
      rcases hq with rfl | rfl <;> rfl
    rw [← List.singleton_append, charBalance_append, charBalance_append, hquote]
    simp [Kind.balance]
  · have hall : ∀ p ∈ symbols, charBalance p.1.toList = p.2.balance ∧ p.2 ≠ .string := by decide
    obtain ⟨hbalance, hstring⟩ := hall _ (mem_of_lookup hk)
    rw [String.toList_ofList] at hbalance
    dsimp only at hbalance hstring ⊢
    rw [if_neg hstring, hbalance, charBalance_nil, add_zero]
  · refine charBalance_eq_zero (List.forall_mem_singleton.2 ⟨?_, ?_⟩)
    · rintro rfl
      exact absurd hc.symbol (by decide)
    · rintro rfl
      exact absurd hc.symbol (by decide)

namespace Cursor

theorem concealed_of_end (h : c.nextToken = (.ok t, d)) (ht : t.kind = .endOfInput) :
    c.concealed = trivia c.rest := by
  rw [concealed]
  split
  · next h' => rw [h] at h'; cases h'
  · next h' =>
    obtain ⟨rfl, rfl⟩ : _ = _ ∧ _ = _ := by simpa [h] using h'
    rw [dif_pos ht]

theorem concealed_of_more (h : c.nextToken = (.ok t, d)) (ht : t.kind ≠ .endOfInput) :
    c.concealed =
      trivia c.rest ++ (if t.kind = .string then t.value.toList else []) ++ d.concealed := by
  rw [concealed]
  split
  · next h' => rw [h] at h'; cases h'
  · next h' =>
    obtain ⟨rfl, rfl⟩ : _ = _ ∧ _ = _ := by simpa [h] using h'
    rw [dif_neg ht]

/-- Each character of a text is passed over, or it is read with a token. -/
theorem Yields.charBalance_eq (h : c.Yields text ts) (hf : c.Faces text) :
    charBalance text = tokenBalance ts + charBalance c.concealed := by
  induction h with
  | @last c gap hg =>
    have htrivia : trivia (gap ++ []) = gap := trivia_append hg (fun _ => rfl) (by simp)
    rw [List.append_nil] at htrivia
    rw [concealed_of_end (nextToken_of_end hf hg) rfl, hf.rest_eq, htrivia, tokenBalance_cons]
    simp [tokenBalance, endToken, Kind.balance]
  | @more c d gap cs t ts hg ht _ ih =>
    have hn := nextToken_of_endsBefore hf hg ht.endsBefore
    have hd : c.past (gap ++ cs) = d := by rw [ht.cursor_eq, past_append]
    have hfd : d.Faces d.rest := by
      refine ⟨?_, rfl⟩
      rw [← hd, ← past_append]
      exact hf.past.past.offset_nonneg
    have htrivia : trivia c.rest = gap := by
      obtain ⟨ch, tail, rfl, hch⟩ := ht.readOff.exists_cons
      rw [hf.rest_eq]
      exact trivia_append hg (absurd · Bool.false_ne_true) (by simpa using hch)
    have hread := ht.readOff.charBalance_eq
    rw [concealed_of_more hn ht.readOff.isWritten.kind_ne_end, hd, htrivia, tokenBalance_cons]
    simp only [charBalance_append, hread, ih hfd, Token.lexeme_kind, Token.lexeme_value]
    omega

end Cursor

/-- The braces of a text are those among its tokens and those that are concealed. -/
theorem charBalance_of_tokenize {source : String} (h : tokenize source = .ok ts) :
    charBalance source.toList = tokenBalance ts + charBalance (concealed source) :=
  have hf : (Cursor.ofText source.toList).Faces source.toList := ⟨Int.le_refl 0, rfl⟩
  (Cursor.yields_of_tokens hf h).charBalance_eq hf

end LocksetLang
