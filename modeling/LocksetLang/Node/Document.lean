import LocksetLang.Document.Basic
import LocksetLang.Node.Basic

/-! A tree as a document: a record of its kind and its fields, an absent field being null. -/

namespace LocksetLang.Node

def kindRecord (kind : String) (fields : List (String × Document)) : Document :=
  .record (("kind", .text kind) :: fields)

mutual

def document : Node → Document
  | .program body => kindRecord "Program" [("body", .list (documents body))]
  | .declaration name constant value =>
    kindRecord "VarDeclaration" [("identifier", .text name), ("constant", .flag constant),
      ("value", optionDocument value)]
  | .function name parameters body =>
    kindRecord "FunctionDeclaration" [("name", .text name),
      ("parameters", .list (parameters.map .text)), ("body", .list (documents body))]
  | .conditional condition consequent alternate =>
    kindRecord "IfStmt" [("conditional", document condition),
      ("consequent", .list (documents consequent)), ("alternate", branchDocument alternate)]
  | .assignment target value =>
    kindRecord "AssignmentExpr" [("assigne", document target), ("value", document value)]
  | .property key value =>
    kindRecord "Property" [("key", .text key), ("value", optionDocument value)]
  | .object properties => kindRecord "ObjectLiteral" [("properties", .list (documents properties))]
  | .binary left right operator =>
    kindRecord "BinaryExpr" [("left", document left), ("right", document right),
      ("operator", .text operator)]
  | .equality left operator right =>
    kindRecord "EqualityExpr" [("left", document left), ("operator", .text operator),
      ("right", document right)]
  | .call caller args =>
    kindRecord "CallExpr" [("caller", document caller), ("args", .list (documents args))]
  | .member owner name computed =>
    kindRecord "MemberExpr" [("object", document owner), ("property", document name),
      ("computed", .flag computed)]
  | .identifier symbol => kindRecord "Identifier" [("symbol", .text symbol)]
  | .number value => kindRecord "NumericLiteral" [("value", .number value)]
  | .string value => kindRecord "StringLiteral" [("value", .text value)]
  | .bare => kindRecord "Node" []

def documents : List Node → List Document
  | [] => []
  | node :: rest => document node :: documents rest

def optionDocument : Option Node → Document
  | none => .null
  | some node => document node

def branchDocument : Option (List Node) → Document
  | none => .null
  | some body => .list (documents body)

end

end LocksetLang.Node
