import LocksetLang.Binary64.Numeral
import LocksetLang.Node.Basic

/-! The grammar of the language as a relation between the lexemes of a phrase and its tree. Nothing
marks the end of an expression that stands alone, so lexemes may fall into statements in more ways
than one. Which neighbours a list of statements admits is therefore a parameter of the relation;
`Parted` is the rule by which there is one way at most. -/

namespace LocksetLang

structure Lexeme where
  kind : Kind
  value : String
  deriving DecidableEq

def Token.lexeme (t : Token) : Lexeme := ⟨t.kind, t.value⟩

@[simp] theorem Token.lexeme_kind (t : Token) : t.lexeme.kind = t.kind := rfl

@[simp] theorem Token.lexeme_value (t : Token) : t.lexeme.value = t.value := rfl

def Lexeme.token (t : Lexeme) : Token := ⟨t.kind, t.value, Place.start⟩

@[simp] theorem map_lexeme_token (ls : List Lexeme) :
    (ls.map Lexeme.token).map Token.lexeme = ls := by
  rw [List.map_map]
  exact List.map_id _

/-- The phrases of the language. Each of the first six is looser than the one before. -/
inductive Phrase where
  | primary | call | product | sum | object | expression
  | argumentList | arguments | entries
  | statement | statements | block | alternate | conditional

abbrev Phrase.Tree : Phrase → Type
  | argumentList | arguments | entries | statements | block => List Node
  | alternate => Option (List Node)
  | _ => Node

/-- `Derives joins p xs v`: the lexemes `xs` are a phrase `p` with the tree `v`. Of the statements in
a list, each and all that follow it are related by `joins`. -/
inductive Derives (joins : List Lexeme → List Lexeme → Prop) :
    (p : Phrase) → List Lexeme → p.Tree → Prop where
  | identifier {t : Lexeme} (ht : t.kind = .identifier) :
    Derives joins .primary [t] (.identifier t.value)
  | number {t : Lexeme} {x : Binary64} (ht : t.kind = .number)
    (hx : Binary64.ofText? t.value = some x) (hf : x.isFinite) :
    Derives joins .primary [t] (.number x)
  | string {t : Lexeme} (ht : t.kind = .string) :
    Derives joins .primary [t] (.string t.value)
  | group {o c : Lexeme} {xs : List Lexeme} {e : Node} (ho : o.kind = .leftParen)
    (he : Derives joins .expression xs e) (hc : c.kind = .rightParen) :
    Derives joins .primary (o :: (xs ++ [c])) e
  | comparison {o s c : Lexeme} {xs ys : List Lexeme} {l r : Node} (ho : o.kind = .leftParen)
    (hl : Derives joins .expression xs l) (hs : s.kind = .doubleEquals ∨ s.kind = .notEquals)
    (hr : Derives joins .expression ys r) (hc : c.kind = .rightParen) :
    Derives joins .primary (o :: (xs ++ s :: (ys ++ [c]))) (.equality l s.kind.name r)
  | primary {xs : List Lexeme} {e : Node} (he : Derives joins .primary xs e) :
    Derives joins .call xs e
  | memberName {d n : Lexeme} {xs : List Lexeme} {e : Node} (he : Derives joins .call xs e)
    (hd : d.kind = .dot) (hn : n.kind = .identifier) :
    Derives joins .call (xs ++ [d, n]) (.member e (.identifier n.value) false)
  | memberIndex {o c : Lexeme} {xs ys : List Lexeme} {e i : Node} (he : Derives joins .call xs e)
    (ho : o.kind = .leftBracket) (hi : Derives joins .expression ys i)
    (hc : c.kind = .rightBracket) :
    Derives joins .call (xs ++ o :: (ys ++ [c])) (.member e i true)
  | call {o c : Lexeme} {xs ys : List Lexeme} {e : Node} {as : List Node}
    (he : Derives joins .call xs e) (ho : o.kind = .leftParen)
    (ha : Derives joins .arguments ys as) (hc : c.kind = .rightParen) :
    Derives joins .call (xs ++ o :: (ys ++ [c])) (.call e as)
  | factor {xs : List Lexeme} {e : Node} (he : Derives joins .call xs e) :
    Derives joins .product xs e
  | product {o : Lexeme} {xs ys : List Lexeme} {l r : Node} (hl : Derives joins .product xs l)
    (ho : o.kind = .operator) (hv : o.value ∈ multiplicativeOperators)
    (hr : Derives joins .call ys r) :
    Derives joins .product (xs ++ o :: ys) (.binary l r o.value)
  | term {xs : List Lexeme} {e : Node} (he : Derives joins .product xs e) :
    Derives joins .sum xs e
  | sum {o : Lexeme} {xs ys : List Lexeme} {l r : Node} (hl : Derives joins .sum xs l)
    (ho : o.kind = .operator) (hv : o.value ∈ additiveOperators)
    (hr : Derives joins .product ys r) :
    Derives joins .sum (xs ++ o :: ys) (.binary l r o.value)
  | operand {xs : List Lexeme} {e : Node} (he : Derives joins .sum xs e) :
    Derives joins .object xs e
  | object {o c : Lexeme} {xs : List Lexeme} {ps : List Node} (ho : o.kind = .leftBrace)
    (hp : Derives joins .entries xs ps) (hc : c.kind = .rightBrace) :
    Derives joins .object (o :: (xs ++ [c])) (.object ps)
  | target {xs : List Lexeme} {e : Node} (he : Derives joins .object xs e) :
    Derives joins .expression xs e
  | assignment {q : Lexeme} {xs ys : List Lexeme} {t v : Node} (ht : Derives joins .object xs t)
    (hq : q.kind = .equals) (hv : Derives joins .expression ys v) :
    Derives joins .expression (xs ++ q :: ys) (.assignment t v)
  | oneArgument {xs : List Lexeme} {e : Node} (he : Derives joins .expression xs e) :
    Derives joins .argumentList xs [e]
  | moreArguments {c : Lexeme} {xs ys : List Lexeme} {e : Node} {es : List Node}
    (he : Derives joins .expression xs e) (hc : c.kind = .comma)
    (hs : Derives joins .argumentList ys es) :
    Derives joins .argumentList (xs ++ c :: ys) (e :: es)
  | noArguments : Derives joins .arguments [] []
  | arguments {xs : List Lexeme} {es : List Node} (hs : Derives joins .argumentList xs es) :
    Derives joins .arguments xs es
  | noEntries : Derives joins .entries [] []
  | lastKey {k : Lexeme} (hk : k.kind = .identifier) :
    Derives joins .entries [k] [.property k.value none]
  | key {k c : Lexeme} {xs : List Lexeme} {ps : List Node} (hk : k.kind = .identifier)
    (hc : c.kind = .comma) (hp : Derives joins .entries xs ps) :
    Derives joins .entries (k :: c :: xs) (.property k.value none :: ps)
  | lastEntry {k s : Lexeme} {xs : List Lexeme} {e : Node} (hk : k.kind = .identifier)
    (hs : s.kind = .colon) (he : Derives joins .expression xs e) :
    Derives joins .entries (k :: s :: xs) [.property k.value (some e)]
  | entry {k s c : Lexeme} {xs ys : List Lexeme} {e : Node} {ps : List Node}
    (hk : k.kind = .identifier) (hs : s.kind = .colon) (he : Derives joins .expression xs e)
    (hc : c.kind = .comma) (hp : Derives joins .entries ys ps) :
    Derives joins .entries (k :: s :: (xs ++ c :: ys)) (.property k.value (some e) :: ps)
  | declared {w n s : Lexeme} (hw : w.kind = .setWord) (hn : n.kind = .identifier)
    (hs : s.kind = .semicolon) :
    Derives joins .statement [w, n, s] (.declaration n.value false none)
  | assigned {w n q s : Lexeme} {xs : List Lexeme} {e : Node}
    (hw : w.kind = .setWord ∨ w.kind = .lockWord) (hn : n.kind = .identifier)
    (hq : q.kind = .equals) (he : Derives joins .expression xs e) (hs : s.kind = .semicolon) :
    Derives joins .statement (w :: n :: q :: (xs ++ [s]))
      (.declaration n.value (w.kind = .lockWord) (some e))
  | function {w n o c : Lexeme} {xs ys : List Lexeme} {names : List String} {body : List Node}
    (hw : w.kind = .funWord) (hn : n.kind = .identifier) (ho : o.kind = .leftParen)
    (hp : Derives joins .arguments xs (names.map .identifier)) (hc : c.kind = .rightParen)
    (hb : Derives joins .block ys body) :
    Derives joins .statement (w :: n :: o :: (xs ++ c :: ys)) (.function n.value names body)
  | branching {xs : List Lexeme} {s : Node} (hs : Derives joins .conditional xs s) :
    Derives joins .statement xs s
  | expression {xs : List Lexeme} {e : Node} (he : Derives joins .expression xs e) :
    Derives joins .statement xs e
  | noStatements : Derives joins .statements [] []
  | statements {xs ys : List Lexeme} {s : Node} {ss : List Node}
    (hs : Derives joins .statement xs s) (hr : Derives joins .statements ys ss)
    (hj : joins xs ys) :
    Derives joins .statements (xs ++ ys) (s :: ss)
  | block {o c : Lexeme} {xs : List Lexeme} {ss : List Node} (ho : o.kind = .leftBrace)
    (hs : Derives joins .statements xs ss) (hc : c.kind = .rightBrace) :
    Derives joins .block (o :: (xs ++ [c])) ss
  | noAlternate : Derives joins .alternate [] none
  | elseIf {w : Lexeme} {xs : List Lexeme} {s : Node} (hw : w.kind = .elseWord)
    (hs : Derives joins .conditional xs s) :
    Derives joins .alternate (w :: xs) (some [s])
  | otherwise {w : Lexeme} {xs : List Lexeme} {ss : List Node} (hw : w.kind = .elseWord)
    (hs : Derives joins .block xs ss) :
    Derives joins .alternate (w :: xs) (some ss)
  | conditional {w : Lexeme} {xs ys zs : List Lexeme} {e : Node} {ss : List Node}
    {a : Option (List Node)} (hw : w.kind = .ifWord) (he : Derives joins .expression xs e)
    (hs : Derives joins .block ys ss) (ha : Derives joins .alternate zs a) :
    Derives joins .conditional (w :: (xs ++ (ys ++ zs))) (.conditional e ss a)

/-- A statement that neither a semicolon nor a closing brace ends has no parenthesis behind it. -/
def Parted (xs ys : List Lexeme) : Prop :=
  (ys.head?.map Lexeme.kind = some .leftParen) →
    xs.getLast?.map Lexeme.kind = some .semicolon ∨ xs.getLast?.map Lexeme.kind = some .rightBrace

theorem parted_nil (xs : List Lexeme) : Parted xs [] := by
  intro h
  cases h

theorem Derives.kind_ne_unknown {joins : List Lexeme → List Lexeme → Prop} {p : Phrase}
    {ls : List Lexeme} {v : p.Tree} (h : Derives joins p ls v) : ∀ t ∈ ls, t.kind ≠ .unknown := by
  induction h with
  | identifier ht | number ht | string ht | lastKey ht => simp [ht]
  | primary _ ih | factor _ ih | term _ ih | operand _ ih | target _ ih | arguments _ ih
  | branching _ ih | expression _ ih | oneArgument _ ih => exact ih
  | noArguments | noEntries | noStatements | noAlternate => exact List.forall_mem_nil _
  | comparison ho _ hs _ hc ihl ihr => rcases hs with hs | hs <;> simp_all [or_imp]
  | assigned hk hn hq _ hs ih => rcases hk with hk | hk <;> simp_all [or_imp]
  | _ => simp_all [or_imp]

end LocksetLang
