import LocksetLang.Proofs.Token.Quotation
import LocksetLang.Token.Basic
import LocksetLang.Node.Basic

/-! Trees that source text can stand for. A tree made by hand may hold anything anywhere; these hold
what their positions ask for, with names, numbers and strings that can be written down. -/

namespace LocksetLang

open Lexeme

def isWord : List Char → Bool
  | [] => false
  | c :: cs => isWordStart c && cs.all isWordPart

/-- Whether a text is a name: a word that is not reserved. -/
def isName (s : String) : Bool := isWord s.toList && !(keywords.map (·.1)).contains s

/-- Whether a text can be written between quotes of one kind or the other. -/
def isStringValue (s : String) : Bool :=
  endsOutsideEscape s.toList && !(hasUnescaped '"' s.toList && hasUnescaped '\x27' s.toList)

def Binary64.isNonnegative : Binary64 → Bool
  | .finite negative rank _ => !negative || rank == 0
  | _ => false

namespace Node

inductive IsExpression : Node → Prop where
  | assignment {t v : Node} (ht : IsExpression t) (hv : IsExpression v) :
    IsExpression (.assignment t v)
  | object {ps : List Node} (hk : ∀ p ∈ ps, ∃ k v, p = .property k v ∧ isName k)
    (hv : ∀ k e, .property k (some e) ∈ ps → IsExpression e) : IsExpression (.object ps)
  | binary {l r : Node} {o : String} (hl : IsExpression l) (hr : IsExpression r)
    (ho : o ∈ binaryOperators) : IsExpression (.binary l r o)
  | equality {l r : Node} {o : String} (hl : IsExpression l) (hr : IsExpression r)
    (ho : o ∈ equalityOperators.map (·.1)) : IsExpression (.equality l o r)
  | call {f : Node} {as : List Node} (hf : IsExpression f) (ha : ∀ a ∈ as, IsExpression a) :
    IsExpression (.call f as)
  | index {e i : Node} (he : IsExpression e) (hi : IsExpression i) :
    IsExpression (.member e i true)
  | member {e : Node} {n : String} (he : IsExpression e) (hn : isName n) :
    IsExpression (.member e (.identifier n) false)
  | identifier {n : String} (hn : isName n) : IsExpression (.identifier n)
  | number {x : Binary64} (hx : x.isNonnegative) : IsExpression (.number x)
  | string {s : String} (hs : isStringValue s) : IsExpression (.string s)

inductive IsStatement : Node → Prop where
  | declaration {n : String} {constant : Bool} {value : Option Node} (hn : isName n)
    (hv : ∀ e ∈ value, IsExpression e) (hc : constant → value.isSome) :
    IsStatement (.declaration n constant value)
  | function {n : String} {ps : List String} {body : List Node} (hn : isName n)
    (hp : ∀ p ∈ ps, isName p) (hb : ∀ s ∈ body, IsStatement s) :
    IsStatement (.function n ps body)
  | conditional {c : Node} {consequent : List Node} {alternate : Option (List Node)}
    (hc : IsExpression c) (ht : ∀ s ∈ consequent, IsStatement s)
    (ha : ∀ ss ∈ alternate, ∀ s ∈ ss, IsStatement s) :
    IsStatement (.conditional c consequent alternate)
  | expression {e : Node} (he : IsExpression e) : IsStatement e

def WellFormed : Node → Prop
  | .program body => ∀ s ∈ body, IsStatement s
  | _ => False

end Node
end LocksetLang
