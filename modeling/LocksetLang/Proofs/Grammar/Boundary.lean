import LocksetLang.Proofs.Grammar.Derivation
import Mathlib.Tactic

/-! The first and the last lexeme of a phrase. What follows a phrase is told from its inside by
these: no statement starts with a lexeme that could go on with an expression, but for an opening
parenthesis. -/

namespace LocksetLang

/-- The kinds that an operand ends with, and behind which an opening parenthesis starts a call. -/
def operandEnds : List Kind := [.identifier, .number, .string, .rightParen, .rightBracket]

def operandStarts : List Kind := [.identifier, .number, .string, .leftParen]

namespace Phrase

def isSolid : Phrase → Bool
  | arguments | entries | statements | alternate => false
  | _ => true

def firsts : Phrase → List Kind
  | primary | call | product | sum => operandStarts
  | object | expression | argumentList | arguments => .leftBrace :: operandStarts
  | entries => [.identifier]
  | statement | statements =>
    .setWord :: .lockWord :: .funWord :: .ifWord :: .leftBrace :: operandStarts
  | block => [.leftBrace]
  | alternate => [.elseWord]
  | conditional => [.ifWord]

/-- The kinds of the last lexeme; of a list that no bracket closes, all kinds that matter. -/
def lasts : Phrase → List Kind
  | primary | call | product | sum => operandEnds
  | object | expression | argumentList | arguments => .rightBrace :: operandEnds
  | entries => .rightBrace :: .comma :: operandEnds
  | statement | statements => .semicolon :: .rightBrace :: operandEnds
  | block | alternate | conditional => [.rightBrace]

end Phrase

variable {joins : List Lexeme → List Lexeme → Prop} {p : Phrase} {xs : List Lexeme} {v : p.Tree}

theorem Derives.ne_nil (h : Derives joins p xs v) (hp : p.isSolid) : xs ≠ [] := by
  induction h with
  | primary _ ih | factor _ ih | term _ ih | operand _ ih | target _ ih | oneArgument _ ih
  | branching _ ih | expression _ ih => exact ih rfl
  | noArguments | arguments | noEntries | lastKey | key | lastEntry | entry | noStatements
  | statements | noAlternate | elseIf | otherwise => cases hp
  | _ => simp

theorem Derives.first_mem (h : Derives joins p xs v) : ∀ t ∈ xs.head?, t.kind ∈ p.firsts := by
  induction h with
  | primary _ ih | factor _ ih | term _ ih | target _ ih | oneArgument _ ih | arguments _ ih =>
    exact ih
  | operand _ ih => exact fun t ht => List.mem_cons_of_mem _ (ih t ht)
  | branching _ ih =>
    intro t ht
    have := ih t ht
    simp only [Phrase.firsts, List.mem_singleton] at this
    simp [Phrase.firsts, this]
  | expression _ ih =>
    intro t ht
    have := ih t ht
    simp only [Phrase.firsts, List.mem_cons] at this ⊢
    tauto
  | memberName he _ _ ih | memberIndex he _ _ _ ih _ | call he _ _ _ ih _
  | product he _ _ _ ih _ | sum he _ _ _ ih _ | assignment he _ _ ih _
  | moreArguments he _ _ ih _ | statements he _ _ ih _ =>
    rw [List.head?_append_of_ne_nil _ (he.ne_nil rfl)]
    exact ih
  | assigned hw => simpa [Phrase.firsts] using hw.elim .inl (.inr ∘ .inl)
  | _ => simp [Phrase.firsts, operandStarts, *]

section
variable {P : Lexeme → Prop} {ys : List Lexeme}

theorem forall_getLast?_append (hy : ∀ t ∈ ys.getLast?, P t)
    (hx : ys = [] → ∀ t ∈ xs.getLast?, P t) : ∀ t ∈ (xs ++ ys).getLast?, P t := by
  intro t ht
  rcases List.eq_nil_or_concat ys with rfl | ⟨zs, z, rfl⟩
  · exact hx rfl t (by simpa using ht)
  · exact hy t (by simpa using ht)

theorem forall_getLast?_cons {o : Lexeme} (hy : ∀ t ∈ ys.getLast?, P t) (ho : ys = [] → P o) :
    ∀ t ∈ (o :: ys).getLast?, P t := by
  rw [← List.singleton_append]
  refine forall_getLast?_append hy fun h t ht => ?_
  obtain rfl := Option.mem_some.1 ht
  exact ho h

end

theorem Derives.last_mem (h : Derives joins p xs v) : ∀ t ∈ xs.getLast?, t.kind ∈ p.lasts := by
  induction h with
  | primary _ ih | factor _ ih | term _ ih | target _ ih | oneArgument _ ih | arguments _ ih =>
    exact ih
  | operand _ ih => exact fun t ht => List.mem_cons_of_mem _ (ih t ht)
  | branching _ ih =>
    intro t ht
    have := ih t ht
    simp only [Phrase.lasts, List.mem_singleton] at this
    simp [Phrase.lasts, this]
  | expression _ ih => exact fun t ht => List.mem_cons_of_mem _ (ih t ht)
  | product _ _ _ hr _ ih | sum _ _ _ hr _ ih | assignment _ _ hr _ ih
  | moreArguments _ _ hr _ ih =>
    exact forall_getLast?_append (forall_getLast?_cons ih (absurd · (hr.ne_nil rfl))) (by simp)
  | key hk hc _ ih =>
    exact forall_getLast?_cons (forall_getLast?_cons ih fun _ => by simp [Phrase.lasts, hc]) (by simp)
  | lastEntry hk hs he ih =>
    refine forall_getLast?_cons (forall_getLast?_cons ?_ (absurd · (he.ne_nil rfl))) (by simp)
    intro t ht
    have := ih t ht
    simp only [Phrase.lasts, List.mem_cons] at this ⊢
    tauto
  | entry hk hs he hc hp _ ih =>
    exact forall_getLast?_cons (forall_getLast?_cons (forall_getLast?_append
      (forall_getLast?_cons ih fun _ => by simp [Phrase.lasts, hc]) (by simp)) (by simp)) (by simp)
  | @function w n o c xs ys names body hw hn ho hp hc hb _ ih =>
    rw [show w :: n :: o :: (xs ++ c :: ys) = (w :: n :: o :: (xs ++ [c])) ++ ys by simp]
    refine forall_getLast?_append (fun t ht => ?_) (absurd · (hb.ne_nil rfl))
    have := ih t ht
    simp only [Phrase.lasts, List.mem_singleton] at this
    simp [Phrase.lasts, this]
  | statements hs hr _ ihs ih =>
    exact forall_getLast?_append ih fun _ => ihs
  | elseIf _ hs ih | otherwise _ hs ih =>
    exact forall_getLast?_cons ih (absurd · (hs.ne_nil rfl))
  | conditional _ _ hs _ _ ihs iha =>
    exact forall_getLast?_cons (forall_getLast?_append (forall_getLast?_append iha fun _ => ihs)
      fun h => absurd (List.append_eq_nil_iff.1 h).1 (hs.ne_nil rfl))
      fun h => absurd (List.append_eq_nil_iff.1 (List.append_eq_nil_iff.1 h).2).1 (hs.ne_nil rfl)
  | _ => simp [Phrase.lasts, operandEnds, List.getLast?_cons, *]

end LocksetLang
