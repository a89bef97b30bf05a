import LocksetLang.Proofs.Grammar.Derivation
import Mathlib.Tactic

/-! Beginnings of phrases. Whatever has been read of a phrase can be gone on with to its end: an
operand that is missing is a name, and what is open is closed. -/

namespace LocksetLang

/-- The lexemes are the first ones of a phrase. -/
def Begins (p : Phrase) (xs : List Lexeme) : Prop := ∃ more v, Derives Parted p (xs ++ more) v

def BeginsArguments (xs : List Lexeme) : Prop :=
  ∃ more o ys c as, xs ++ more = o :: (ys ++ [c]) ∧ o.kind = .leftParen ∧ c.kind = .rightParen ∧
    Derives Parted .arguments ys as

/-- A lexeme of a kind whose value does not matter. -/
def Kind.lexeme (k : Kind) : Lexeme := ⟨k, ""⟩

variable {p : Phrase} {xs ys zs : List Lexeme} {k o q s w n c : Lexeme} {e : Node} {ss : List Node}

theorem Derives.begins {v : p.Tree} (h : Derives Parted p xs v) : Begins p xs :=
  ⟨[], v, by rwa [List.append_nil]⟩

theorem Begins.map {p' : Phrase} (before behind : List Lexeme) (h : Begins p xs)
    (hz : before ++ xs = zs)
    (hp : ∀ {ys v}, Derives Parted p ys v →
      ∃ v', Derives Parted p' (before ++ (ys ++ behind)) v') :
    Begins p' zs := by
  obtain ⟨more, v, h⟩ := h
  obtain ⟨v', h'⟩ := hp h
  exact ⟨more ++ behind, v', by simpa [← hz] using h'⟩

theorem Begins.call (h : Begins .primary xs) : Begins .call xs :=
  .map [] [] h rfl fun h => ⟨_, by simpa using h.primary⟩

theorem Begins.product (h : Begins .call xs) : Begins .product xs :=
  .map [] [] h rfl fun h => ⟨_, by simpa using h.factor⟩

theorem Begins.sum (h : Begins .product xs) : Begins .sum xs :=
  .map [] [] h rfl fun h => ⟨_, by simpa using h.term⟩

theorem Begins.object (h : Begins .sum xs) : Begins .object xs :=
  .map [] [] h rfl fun h => ⟨_, by simpa using h.operand⟩

theorem Begins.expression (h : Begins .object xs) : Begins .expression xs :=
  .map [] [] h rfl fun h => ⟨_, by simpa using h.target⟩

theorem begins_primary : Begins .primary [] :=
  ⟨[Kind.identifier.lexeme], _, .identifier rfl⟩

theorem begins_expression : Begins .expression [] := begins_primary.call.product.sum.object.expression

theorem Begins.group (ho : o.kind = .leftParen) (h : Begins .expression xs) :
    Begins .primary (o :: xs) :=
  .map [o] [Kind.rightParen.lexeme] h rfl fun h => ⟨_, .group ho h rfl⟩

theorem Begins.comparison (ho : o.kind = .leftParen) (hl : Derives Parted .expression xs e)
    (hs : s.kind = .doubleEquals ∨ s.kind = .notEquals) (h : Begins .expression ys) :
    Begins .primary (o :: (xs ++ s :: ys)) :=
  .map (o :: (xs ++ [s])) [Kind.rightParen.lexeme] h (by simp) fun h =>
    ⟨_, by simpa using Derives.comparison (c := Kind.rightParen.lexeme) ho hl hs h rfl⟩

theorem Begins.memberName (he : Derives Parted .call xs e) (ho : o.kind = .dot) :
    Begins .call (xs ++ [o]) :=
  ⟨[Kind.identifier.lexeme], _, by simpa using Derives.memberName he ho (n := _) rfl⟩

theorem Begins.memberIndex (he : Derives Parted .call xs e) (ho : o.kind = .leftBracket)
    (h : Begins .expression ys) : Begins .call (xs ++ o :: ys) :=
  .map (xs ++ [o]) [Kind.rightBracket.lexeme] h (by simp) fun h =>
    ⟨_, by simpa using Derives.memberIndex (c := Kind.rightBracket.lexeme) he ho h rfl⟩

theorem BeginsArguments.call (he : Derives Parted .call xs e) (h : BeginsArguments ys) :
    Begins .call (xs ++ ys) := by
  obtain ⟨more, o, zs, c, as, hys, ho, hc, h⟩ := h
  exact ⟨more, _, by rw [List.append_assoc, hys]; exact .call he ho h hc⟩

theorem Begins.factorBehind (hl : Derives Parted .product xs e) (ho : o.kind = .operator)
    (hv : o.value ∈ multiplicativeOperators) (h : Begins .call ys) :
    Begins .product (xs ++ o :: ys) :=
  .map (xs ++ [o]) [] h (by simp) fun h => ⟨_, by simpa using Derives.product hl ho hv h⟩

theorem Begins.termBehind (hl : Derives Parted .sum xs e) (ho : o.kind = .operator)
    (hv : o.value ∈ additiveOperators) (h : Begins .product ys) :
    Begins .sum (xs ++ o :: ys) :=
  .map (xs ++ [o]) [] h (by simp) fun h => ⟨_, by simpa using Derives.sum hl ho hv h⟩

theorem Begins.entries (ho : o.kind = .leftBrace) (h : Begins .entries xs) :
    Begins .object (o :: xs) :=
  .map [o] [Kind.rightBrace.lexeme] h rfl fun h => ⟨_, .object ho h rfl⟩

theorem Begins.assignment (ht : Derives Parted .object xs e) (hq : q.kind = .equals)
    (h : Begins .expression ys) : Begins .expression (xs ++ q :: ys) :=
  .map (xs ++ [q]) [] h (by simp) fun h => ⟨_, by simpa using Derives.assignment ht hq h⟩

theorem Begins.oneArgument (h : Begins .expression xs) : Begins .argumentList xs :=
  .map [] [] h rfl fun h => ⟨_, by simpa using h.oneArgument⟩

theorem Begins.moreArguments (he : Derives Parted .expression xs e) (hc : c.kind = .comma)
    (h : Begins .argumentList ys) : Begins .argumentList (xs ++ c :: ys) :=
  .map (xs ++ [c]) [] h (by simp) fun h => ⟨_, by simpa using Derives.moreArguments he hc h⟩

theorem beginsArguments_nil : BeginsArguments [] :=
  ⟨_, Kind.leftParen.lexeme, [], Kind.rightParen.lexeme, [], rfl, rfl, rfl, .noArguments⟩

theorem Begins.arguments (ho : o.kind = .leftParen) (h : Begins .argumentList xs) :
    BeginsArguments (o :: xs) := by
  obtain ⟨more, v, h⟩ := h
  exact ⟨more ++ [Kind.rightParen.lexeme], o, xs ++ more, Kind.rightParen.lexeme, v, by simp, ho, rfl,
    .arguments h⟩

theorem begins_entries : Begins .entries [] := Derives.noEntries.begins

theorem Begins.key (hk : k.kind = .identifier) (hc : c.kind = .comma) (h : Begins .entries xs) :
    Begins .entries (k :: c :: xs) :=
  .map [k, c] [] h rfl fun h => ⟨_, by simpa using Derives.key hk hc h⟩

theorem Begins.lastEntry (hk : k.kind = .identifier) (hs : s.kind = .colon)
    (h : Begins .expression xs) : Begins .entries (k :: s :: xs) :=
  .map [k, s] [] h rfl fun h => ⟨_, by simpa using Derives.lastEntry hk hs h⟩

theorem Begins.entry (hk : k.kind = .identifier) (hs : s.kind = .colon)
    (he : Derives Parted .expression xs e) (hc : c.kind = .comma) (h : Begins .entries ys) :
    Begins .entries (k :: s :: (xs ++ c :: ys)) :=
  .map (k :: s :: (xs ++ [c])) [] h (by simp) fun h =>
    ⟨_, by simpa using Derives.entry hk hs he hc h⟩

theorem Begins.statement (h : Begins .expression xs) : Begins .statement xs :=
  .map [] [] h rfl fun h => ⟨_, by simpa using Derives.expression h⟩

theorem Begins.branching (h : Begins .conditional xs) : Begins .statement xs :=
  .map [] [] h rfl fun h => ⟨_, by simpa using Derives.branching h⟩

theorem Begins.value (hw : w.kind = .setWord ∨ w.kind = .lockWord) (hn : n.kind = .identifier)
    (hq : q.kind = .equals) (h : Begins .expression xs) : Begins .statement (w :: n :: q :: xs) :=
  .map [w, n, q] [Kind.semicolon.lexeme] h rfl fun h => ⟨_, .assigned hw hn hq h rfl⟩

theorem Begins.declaredName (hw : w.kind = .setWord ∨ w.kind = .lockWord)
    (hn : n.kind = .identifier) : Begins .statement [w, n] := by
  obtain ⟨more, v, h⟩ := Begins.value (q := Kind.equals.lexeme) hw hn rfl begins_expression
  exact ⟨_, v, h⟩

theorem Begins.declaration (hw : w.kind = .setWord ∨ w.kind = .lockWord) :
    Begins .statement [w] := by
  obtain ⟨more, v, h⟩ := Begins.declaredName (n := Kind.identifier.lexeme) hw rfl
  exact ⟨_, v, h⟩

theorem begins_block : Begins .block [] :=
  ⟨[Kind.leftBrace.lexeme, Kind.rightBrace.lexeme], _, .block rfl .noStatements rfl⟩

theorem Begins.block (ho : o.kind = .leftBrace) (h : Begins .statements xs) :
    Begins .block (o :: xs) :=
  .map [o] [Kind.rightBrace.lexeme] h rfl fun h => ⟨_, .block ho h rfl⟩

theorem Begins.body {names : List String} (hw : w.kind = .funWord) (hn : n.kind = .identifier)
    (ho : o.kind = .leftParen) (hp : Derives Parted .arguments xs (names.map .identifier))
    (hc : c.kind = .rightParen) (h : Begins .block ys) :
    Begins .statement (w :: n :: o :: (xs ++ c :: ys)) :=
  .map (w :: n :: o :: (xs ++ [c])) [] h (by simp) fun h =>
    ⟨_, by simpa using Derives.function hw hn ho hp hc h⟩

theorem Begins.function (hw : w.kind = .funWord) : Begins .statement [w] := by
  have hp : Derives Parted .arguments [] (([] : List String).map .identifier) := .noArguments
  obtain ⟨more, v, h⟩ := Begins.body (n := Kind.identifier.lexeme) (o := Kind.leftParen.lexeme)
    (c := Kind.rightParen.lexeme) hw rfl rfl hp rfl begins_block
  exact ⟨_, v, h⟩

theorem Begins.oneStatement (h : Begins .statement xs) : Begins .statements xs :=
  .map [] [] h rfl fun h => ⟨_, by simpa using Derives.statements h .noStatements (parted_nil _)⟩

theorem Begins.moreStatements (hs : Derives Parted .statement xs e) (hj : Parted xs ys)
    (h : Begins .statements ys) : Begins .statements (xs ++ ys) := by
  cases ys with
  | nil => exact ⟨[], _, by simpa using Derives.statements hs .noStatements (parted_nil _)⟩
  | cons y ys =>
    obtain ⟨more, v, h⟩ := h
    exact ⟨more, _, by rw [List.append_assoc]; exact .statements hs h hj⟩

theorem Begins.elseIf (hw : w.kind = .elseWord) (h : Begins .conditional xs) :
    Begins .alternate (w :: xs) :=
  .map [w] [] h rfl fun h => ⟨_, by simpa using Derives.elseIf hw h⟩

theorem Begins.otherwise (hw : w.kind = .elseWord) (h : Begins .block xs) :
    Begins .alternate (w :: xs) :=
  .map [w] [] h rfl fun h => ⟨_, by simpa using Derives.otherwise hw h⟩

theorem Begins.alternate (hw : w.kind = .ifWord) (he : Derives Parted .expression xs e)
    (hs : Derives Parted .block ys ss) (h : Begins .alternate zs) :
    Begins .conditional (w :: (xs ++ (ys ++ zs))) :=
  .map (w :: (xs ++ ys)) [] h (by simp) fun h => ⟨_, by simpa using Derives.conditional hw he hs h⟩

theorem Begins.consequent (hw : w.kind = .ifWord) (he : Derives Parted .expression xs e)
    (h : Begins .block ys) : Begins .conditional (w :: (xs ++ ys)) :=
  .map (w :: xs) [] h (by simp) fun h =>
    ⟨_, by simpa using Derives.conditional hw he h .noAlternate⟩

theorem Begins.condition (hw : w.kind = .ifWord) (h : Begins .expression xs) :
    Begins .conditional (w :: xs) := by
  obtain ⟨more, v, h⟩ := h
  obtain ⟨more', v', h'⟩ := Begins.consequent hw h begins_block
  exact ⟨more ++ more', v', by simpa using h'⟩

theorem begins_conditional : Begins .conditional [] := by
  obtain ⟨more, v, h⟩ := Begins.condition (w := Kind.ifWord.lexeme) rfl begins_expression
  exact ⟨_, v, h⟩

end LocksetLang
