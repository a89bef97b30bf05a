import LocksetLang.Binary64.Basic
import LocksetLang.Token.Basic

/-! The tree of a program. One type holds statements, expressions and object entries, since a tree
made by hand may have any node in any position. -/

namespace LocksetLang

inductive Node where
  | program (body : List Node)
  | declaration (name : String) (constant : Bool) (value : Option Node)
  | function (name : String) (parameters : List String) (body : List Node)
  | conditional (condition : Node) (consequent : List Node) (alternate : Option (List Node))
  | assignment (target value : Node)
  | property (key : String) (value : Option Node)
  | object (properties : List Node)
  | binary (left right : Node) (operator : String)
  | equality (left : Node) (operator : String) (right : Node)
  | call (caller : Node) (args : List Node)
  | member (owner name : Node) (computed : Bool)
  | identifier (symbol : String)
  | number (value : Binary64)
  | string (value : String)
  | bare

namespace Node

instance : Inhabited Node := ⟨bare⟩

def kind : Node → String
  | program _ => "Program"
  | .declaration .. => "VarDeclaration"
  | function .. => "FunctionDeclaration"
  | conditional .. => "IfStmt"
  | assignment .. => "AssignmentExpr"
  | property .. => "Property"
  | object _ => "ObjectLiteral"
  | binary .. => "BinaryExpr"
  | equality .. => "EqualityExpr"
  | call .. => "CallExpr"
  | member .. => "MemberExpr"
  | identifier _ => "Identifier"
  | number _ => "NumericLiteral"
  | string _ => "StringLiteral"
  | bare => "Node"

/-- The name of the type of a node: its kind, but for a node that has no known one. -/
def typeName : Node → String
  | bare => "ASTNode"
  | node => node.kind

/-- Whether nodes of the kind have a value, which may be absent. -/
def isValued : Node → Bool
  | .declaration .. | assignment .. | property .. | number _ | string _ => true
  | _ => false

def isProgram : Node → Bool
  | program _ => true
  | _ => false

def isConditional : Node → Bool
  | conditional .. => true
  | _ => false

def isNumber : Node → Bool
  | number _ => true
  | _ => false

def isIdentifier : Node → Bool
  | identifier _ => true
  | _ => false

/-- How tightly a node binds: an assignment loosest, then objects, sums, products, calls and
members, and tightest all that needs no parentheses anywhere. -/
def level : Node → Nat
  | assignment .. => 0
  | object _ => 1
  | binary _ _ operator => if additiveOperators.contains operator then 2 else 3
  | call .. | member .. => 4
  | _ => 5

end Node
end LocksetLang
