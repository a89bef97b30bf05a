import LocksetLang.Node.Basic

/-! Equality of trees: the same kinds with the same fields, numbers being compared by value. -/

namespace LocksetLang.Node

mutual

def same : Node → Node → Bool
  | .program b, .program c => sameAll b c
  | .declaration n k v, .declaration m l w => n == m && k == l && sameOption v w
  | .function n ps b, .function m qs c => n == m && ps == qs && sameAll b c
  | .conditional i t e, .conditional j u f => same i j && sameAll t u && sameBranch e f
  | .assignment t v, .assignment u w => same t u && same v w
  | .property k v, .property l w => k == l && sameOption v w
  | .object ps, .object qs => sameAll ps qs
  | .binary a b o, .binary c d p => same a c && same b d && o == p
  | .equality a o b, .equality c p d => same a c && o == p && same b d
  | .call f as, .call g bs => same f g && sameAll as bs
  | .member a p k, .member b q l => same a b && same p q && k == l
  | .identifier s, .identifier t => s == t
  | .number x, .number y => x.same y
  | .string s, .string t => s == t
  | .bare, .bare => true
  | _, _ => false

def sameAll : List Node → List Node → Bool
  | [], [] => true
  | a :: as, b :: bs => same a b && sameAll as bs
  | _, _ => false

def sameOption : Option Node → Option Node → Bool
  | none, none => true
  | some a, some b => same a b
  | _, _ => false

def sameBranch : Option (List Node) → Option (List Node) → Bool
  | none, none => true
  | some as, some bs => sameAll as bs
  | _, _ => false

end

instance : BEq Node := ⟨same⟩

end LocksetLang.Node
