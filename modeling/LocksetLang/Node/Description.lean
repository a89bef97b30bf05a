import LocksetLang.Binary64.Text
import LocksetLang.Node.Basic
import LocksetLang.Text.Quoted

/-! A tree on one line: the kind of each node, and its fields by name. -/

namespace LocksetLang.Node

open Text

/-- Items in parentheses; a single one has a comma behind it. -/
def sequenceText : List String → String
  | [] => "()"
  | [item] => "(" ++ item ++ ",)"
  | items => "(" ++ ", ".intercalate items ++ ")"

def flagText (b : Bool) : String := if b then "True" else "False"

def fieldsText (kind : String) (fields : List (String × String)) : String :=
  kind ++ "(" ++ ", ".intercalate (fields.map fun (name, text) => name ++ "=" ++ text) ++ ")"

mutual

def description : Node → String
  | .program body => fieldsText "Program" [("body", sequenceText (descriptions body))]
  | .declaration name constant value =>
    fieldsText "VarDeclaration" [("identifier", quoted name), ("constant", flagText constant),
      ("value", optionDescription value)]
  | .function name parameters body =>
    fieldsText "FunctionDeclaration" [("name", quoted name),
      ("parameters", sequenceText (parameters.map quoted)),
      ("body", sequenceText (descriptions body))]
  | .conditional condition consequent alternate =>
    fieldsText "IfStmt" [("conditional", description condition),
      ("consequent", sequenceText (descriptions consequent)),
      ("alternate", branchDescription alternate)]
  | .assignment target value =>
    fieldsText "AssignmentExpr" [("assigne", description target), ("value", description value)]
  | .property key value =>
    fieldsText "Property" [("key", quoted key), ("value", optionDescription value)]
  | .object properties =>
    fieldsText "ObjectLiteral" [("properties", sequenceText (descriptions properties))]
  | .binary left right operator =>
    fieldsText "BinaryExpr" [("left", description left), ("right", description right),
      ("operator", quoted operator)]
  | .equality left operator right =>
    fieldsText "EqualityExpr" [("left", description left), ("operator", quoted operator),
      ("right", description right)]
  | .call caller args =>
    fieldsText "CallExpr" [("caller", description caller),
      ("args", sequenceText (descriptions args))]
  | .member owner name computed =>
    fieldsText "MemberExpr" [("object", description owner), ("property", description name),
      ("computed", flagText computed)]
  | .identifier symbol => fieldsText "Identifier" [("symbol", quoted symbol)]
  | .number value => fieldsText "NumericLiteral" [("value", value.text Binary64.shortWords)]
  | .string value => fieldsText "StringLiteral" [("value", quoted value)]
  | .bare => fieldsText "ASTNode" []

def descriptions : List Node → List String
  | [] => []
  | node :: rest => description node :: descriptions rest

def optionDescription : Option Node → String
  | none => "None"
  | some node => description node

def branchDescription : Option (List Node) → String
  | none => "None"
  | some body => sequenceText (descriptions body)

end

end LocksetLang.Node
