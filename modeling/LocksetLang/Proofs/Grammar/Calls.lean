import LocksetLang.Proofs.Grammar.Boundary

/-! How many opening parentheses stand behind an operand. In a phrase they start the arguments of
calls and the parameters of functions, and nothing else, so their number can be told from the tree.
A statement that is taken for the arguments of a call has one more. -/

namespace LocksetLang

variable {xs ys zs : List Lexeme} {t o : Lexeme}

def endsOperand (xs : List Lexeme) : Bool := xs.getLast?.any (operandEnds.contains ·.kind)

def startsParen (xs : List Lexeme) : Bool := xs.head?.any (·.kind == .leftParen)

/-- Whether a call starts between two lists of lexemes, counted. -/
def meeting (xs ys : List Lexeme) : Nat := (endsOperand xs && startsParen ys).toNat

def callStarts : List Lexeme → Nat
  | [] => 0
  | t :: rest => meeting [t] rest + callStarts rest

theorem meeting_eq_zero (h : endsOperand xs → startsParen ys = false) : meeting xs ys = 0 := by
  unfold meeting
  cases hx : endsOperand xs with
  | false => rfl
  | true => rw [h hx]; rfl

theorem callStarts_append (xs ys : List Lexeme) :
    callStarts (xs ++ ys) = callStarts xs + meeting xs ys + callStarts ys := by
  induction xs with
  | nil => simp [callStarts, meeting, endsOperand]
  | cons t xs ih =>
    cases xs with
    | nil => simp [callStarts, meeting, startsParen]
    | cons u xs =>
      have hall : callStarts (t :: u :: xs ++ ys) =
          meeting [t] (u :: xs) + callStarts (u :: xs ++ ys) := rfl
      have hleft : callStarts (t :: u :: xs) = meeting [t] (u :: xs) + callStarts (u :: xs) := rfl
      have hend : meeting (t :: u :: xs) ys = meeting (u :: xs) ys := by
        simp [meeting, endsOperand]
      omega

/-- Nothing but an operand has a call behind it. -/
theorem callStarts_cons (ho : t.kind ∉ operandEnds) : callStarts (t :: ys) = callStarts ys := by
  rw [callStarts, meeting_eq_zero, Nat.zero_add]
  intro h
  rw [endsOperand] at h
  simp [ho] at h

theorem callStarts_append_cons (ho : o.kind ≠ .leftParen) :
    callStarts (xs ++ o :: ys) = callStarts xs + callStarts (o :: ys) := by
  rw [callStarts_append, meeting_eq_zero, Nat.add_zero]
  intro _
  simp [startsParen, ho]

theorem callStarts_singleton : callStarts [t] = 0 := by
  simp [callStarts, meeting, startsParen]

theorem callStarts_middle (ho : o.kind ≠ .leftParen) (ho' : o.kind ∉ operandEnds) :
    callStarts (xs ++ o :: ys) = callStarts xs + callStarts ys := by
  rw [callStarts_append_cons ho, callStarts_cons ho']

theorem callStarts_enclosed {c : Lexeme} (ho : o.kind ∉ operandEnds) (hc : c.kind ≠ .leftParen) :
    callStarts (o :: (xs ++ [c])) = callStarts xs := by
  rw [callStarts_cons ho, callStarts_append_cons hc, callStarts_singleton, Nat.add_zero]

namespace Node

mutual

/-- How many calls and lists of parameters a tree has. -/
def calls : Node → Nat
  | .program body => callsAll body
  | .declaration _ _ value => callsOption value
  | .function _ _ body => 1 + callsAll body
  | .conditional condition consequent alternate =>
    calls condition + callsAll consequent + callsBranch alternate
  | .assignment target value => calls target + calls value
  | .property _ value => callsOption value
  | .object properties => callsAll properties
  | .binary left right _ => calls left + calls right
  | .equality left _ right => calls left + calls right
  | .call caller args => calls caller + 1 + callsAll args
  | .member owner name _ => calls owner + calls name
  | .identifier _ | .number _ | .string _ | .bare => 0

def callsAll : List Node → Nat
  | [] => 0
  | node :: rest => calls node + callsAll rest

def callsOption : Option Node → Nat
  | none => 0
  | some node => calls node

def callsBranch : Option (List Node) → Nat
  | none => 0
  | some body => callsAll body

end

theorem callsAll_identifiers (names : List String) : callsAll (names.map .identifier) = 0 := by
  induction names with
  | nil => rw [List.map_nil, callsAll]
  | cons name names ih => rw [List.map_cons, callsAll, ih, calls]

end Node

def Phrase.calls : (p : Phrase) → p.Tree → Nat
  | .argumentList, es | .arguments, es | .entries, es | .statements, es | .block, es =>
    Node.callsAll es
  | .alternate, a => Node.callsBranch a
  | .primary, e | .call, e | .product, e | .sum, e | .object, e | .expression, e | .statement, e
  | .conditional, e => Node.calls e

variable {joins : List Lexeme → List Lexeme → Prop} {p : Phrase} {v : p.Tree}

theorem meeting_eq_one (ht : xs.getLast? = some t) (hk : t.kind ∈ operandEnds)
    (ho : o.kind = .leftParen) : meeting xs (o :: ys) = 1 := by
  simp [meeting, endsOperand, startsParen, ht, ho, hk]

/-- A parenthesis behind what can be called starts a call. -/
theorem Derives.meeting_call {e : Node} (h : Derives joins .call xs e) (ho : o.kind = .leftParen) :
    meeting xs (o :: ys) = 1 := by
  obtain ⟨t, ht⟩ := Option.ne_none_iff_exists'.1 (List.getLast?_eq_none_iff.not.2 (h.ne_nil rfl))
  exact meeting_eq_one ht (h.last_mem t ht) ho

theorem callStarts_append_of_head {k : Kind} (hk : k ≠ .leftParen)
    (h : ∀ t ∈ ys.head?, t.kind ∈ [k]) : callStarts (xs ++ ys) = callStarts xs + callStarts ys := by
  cases ys with
  | nil => simp [callStarts]
  | cons o ys =>
    refine callStarts_append_cons ?_
    rw [List.mem_singleton.1 (h o rfl)]
    exact hk

/-- The parameters of a function are counted as the arguments of a call are. -/
theorem callStarts_function {w n c : Lexeme} (hw : w.kind = .funWord) (hn : n.kind = .identifier)
    (ho : o.kind = .leftParen) (hc : c.kind = .rightParen)
    (hy : ∀ t ∈ ys.head?, t.kind ∈ [.leftBrace]) :
    callStarts (w :: n :: o :: (xs ++ c :: ys)) = 1 + callStarts xs + callStarts ys := by
  rw [callStarts_cons (by simp [hw, operandEnds]), callStarts,
    meeting_eq_one rfl (by simp [hn, operandEnds]) ho, callStarts_cons (by simp [ho, operandEnds]),
    callStarts_append_cons (by simp [hc]), ← List.singleton_append,
    callStarts_append_of_head (k := .leftBrace) (by decide) hy, callStarts_singleton]
  omega

theorem callStarts_conditional {w : Lexeme} (hw : w.kind = .ifWord) (hne : ys ≠ [])
    (hy : ∀ t ∈ ys.head?, t.kind ∈ [.leftBrace]) (hz : ∀ t ∈ zs.head?, t.kind ∈ [.elseWord]) :
    callStarts (w :: (xs ++ (ys ++ zs))) = callStarts xs + callStarts ys + callStarts zs := by
  rw [callStarts_cons (by simp [hw, operandEnds]),
    callStarts_append_of_head (k := .leftBrace) (by decide) ?_,
    callStarts_append_of_head (k := .elseWord) (by decide) hz]
  · omega
  · rw [List.head?_append_of_ne_nil _ hne]
    exact hy

theorem Parted.meeting_zero (h : Parted xs ys) : meeting xs ys = 0 := by
  refine meeting_eq_zero fun hx => ?_
  rw [Bool.eq_false_iff]
  intro hy
  have hclosed := h (by
    cases ys with
    | nil => cases hy
    | cons o ys => simpa [startsParen] using hy)
  cases hlast : xs.getLast? with
  | none => rw [endsOperand, hlast] at hx; cases hx
  | some t =>
    rw [endsOperand, hlast] at hx
    rw [hlast] at hclosed
    have hk : t.kind ∈ operandEnds := by simpa using hx
    rcases hclosed with hc | hc <;> obtain hc := Option.some.inj hc <;> rw [hc] at hk <;>
      exact absurd hk (by decide)

theorem Derives.callStarts_eq (h : Derives Parted p xs v) : callStarts xs = p.calls v := by
  induction h with
  | identifier ht | number ht hx hf | string ht =>
    rw [callStarts_singleton, Phrase.calls, Node.calls]
  | primary _ ih | factor _ ih | term _ ih | operand _ ih | target _ ih | arguments _ ih
  | branching _ ih | expression _ ih => exact ih
  | group ho he hc ih | block ho he hc ih =>
    rw [callStarts_enclosed (by simp [ho, operandEnds]) (by simp [hc]), ih]
    rfl
  | object ho hp hc ih =>
    rw [callStarts_enclosed (by simp [ho, operandEnds]) (by simp [hc]), ih, Phrase.calls,
      Phrase.calls, Node.calls]
  | comparison ho hl hs hr hc ihl ihr =>
    rw [callStarts_cons (by simp [ho, operandEnds]),
      callStarts_middle (by rcases hs with hs | hs <;> simp [hs])
        (by rcases hs with hs | hs <;> simp [hs, operandEnds]),
      callStarts_append_cons (by simp [hc]), callStarts_singleton, ihl, ihr]
    simp only [Phrase.calls, Node.calls, Nat.add_zero]
  | memberName he hd hn ih =>
    rw [callStarts_middle (by simp [hd]) (by simp [hd, operandEnds]), callStarts_singleton, ih]
    simp only [Phrase.calls, Node.calls]
  | memberIndex he ho hi hc ihe ihi =>
    rw [callStarts_append_cons (by simp [ho]),
      callStarts_enclosed (by simp [ho, operandEnds]) (by simp [hc]), ihe, ihi]
    simp only [Phrase.calls, Node.calls]
  | call he ho ha hc ihe iha =>
    rw [callStarts_append, he.meeting_call ho,
      callStarts_enclosed (by simp [ho, operandEnds]) (by simp [hc]), ihe, iha]
    simp only [Phrase.calls, Node.calls]
  | product hl ho hv hr ihl ihr | sum hl ho hv hr ihl ihr =>
    rw [callStarts_middle (by simp [ho]) (by simp [ho, operandEnds]), ihl, ihr]
    simp only [Phrase.calls, Node.calls]
  | assignment ht hq hv iht ihv =>
    rw [callStarts_middle (by simp [hq]) (by simp [hq, operandEnds]), iht, ihv]
    simp only [Phrase.calls, Node.calls]
  | oneArgument he ih =>
    rw [ih]
    simp only [Phrase.calls, Node.callsAll, Nat.add_zero]
  | moreArguments he hc hs ihe ihs =>
    rw [callStarts_middle (by simp [hc]) (by simp [hc, operandEnds]), ihe, ihs]
    simp only [Phrase.calls, Node.callsAll]
  | noArguments | noEntries | noStatements => simp only [callStarts, Phrase.calls, Node.callsAll]
  | noAlternate => simp only [callStarts, Phrase.calls, Node.callsBranch]
  | lastKey hk =>
    rw [callStarts_singleton]
    simp only [Phrase.calls, Node.callsAll, Node.calls, Node.callsOption, Nat.add_zero]
  | @key k c xs ps hk hc hp ih =>
    rw [← List.singleton_append, callStarts_middle (by simp [hc]) (by simp [hc, operandEnds]),
      callStarts_singleton, ih]
    simp only [Phrase.calls, Node.callsAll, Node.calls, Node.callsOption]
  | lastEntry hk hs he ih =>
    rw [← List.singleton_append, callStarts_middle (by simp [hs]) (by simp [hs, operandEnds]),
      callStarts_singleton, ih]
    simp only [Phrase.calls, Node.callsAll, Node.calls, Node.callsOption, Nat.zero_add, Nat.add_zero]
  | entry hk hs he hc hp ihe ihp =>
    rw [← List.singleton_append, callStarts_middle (by simp [hs]) (by simp [hs, operandEnds]),
      callStarts_singleton, callStarts_middle (by simp [hc]) (by simp [hc, operandEnds]), ihe, ihp]
    simp only [Phrase.calls, Node.callsAll, Node.calls, Node.callsOption, Nat.zero_add]
  | declared hw hn hs =>
    rw [callStarts_cons (by simp [hw, operandEnds]), ← List.singleton_append,
      callStarts_append_cons (by simp [hs]), callStarts_singleton, callStarts_singleton]
    simp only [Phrase.calls, Node.calls, Node.callsOption]
  | assigned hw hn hq he hs ih =>
    rw [callStarts_cons (by rcases hw with hw | hw <;> simp [hw, operandEnds]),
      ← List.singleton_append, callStarts_append_cons (by simp [hq]), callStarts_singleton,
      callStarts_enclosed (by simp [hq, operandEnds]) (by simp [hs]), ih]
    simp only [Phrase.calls, Node.calls, Node.callsOption, Nat.zero_add]
  | function hw hn ho hp hc hb ihp ihb =>
    rw [callStarts_function hw hn ho hc hb.first_mem, ihp, ihb]
    simp only [Phrase.calls, Node.calls, Node.callsAll_identifiers, Nat.add_zero]
  | statements hs hr hj ihs ihr =>
    rw [callStarts_append, hj.meeting_zero, ihs, ihr]
    simp only [Phrase.calls, Node.callsAll, Nat.add_zero]
  | elseIf hw hs ih =>
    rw [callStarts_cons (by simp [hw, operandEnds]), ih]
    simp only [Phrase.calls, Node.callsBranch, Node.callsAll, Nat.add_zero]
  | otherwise hw hs ih =>
    rw [callStarts_cons (by simp [hw, operandEnds]), ih]
    simp only [Phrase.calls, Node.callsBranch]
  | conditional hw he hs ha ihe ihs iha =>
    rw [callStarts_conditional hw (hs.ne_nil rfl) hs.first_mem ha.first_mem, ihe, ihs, iha]
    simp only [Phrase.calls, Node.calls]

end LocksetLang
