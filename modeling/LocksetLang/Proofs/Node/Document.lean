import LocksetLang.Node.Document

/-! Trees back from their documents. The records of a document become nodes from the inside out, and
the kind of a record tells which node its fields make up. -/

namespace LocksetLang.Node

inductive Part where
  | null
  | flag (value : Bool)
  | number (value : Binary64)
  | text (value : String)
  | list (parts : List Part)
  | node (value : Node)

namespace Part

def text? : Part → Option String
  | text value => some value
  | _ => none

def node? : Part → Option Node
  | node value => some value
  | _ => none

def nodes (parts : List Part) : List Node := parts.filterMap node?

def texts (parts : List Part) : List String := parts.filterMap text?

@[simp] theorem nodes_map (ns : List Node) : nodes (ns.map node) = ns := by
  rw [nodes, List.filterMap_map]
  exact List.filterMap_some

@[simp] theorem texts_map (names : List String) : texts (names.map text) = names := by
  rw [texts, List.filterMap_map]
  exact List.filterMap_some

/-- The nodes of a list; an absent list is no empty one. -/
def nodes? : Part → Option (List Node)
  | list parts => some (nodes parts)
  | _ => none

end Part

/-- The node of a kind with the parts that its fields stand for. -/
def ofParts : List Part → Node
  | [.text "Program", .list body] => .program (Part.nodes body)
  | [.text "VarDeclaration", .text name, .flag constant, value] =>
    .declaration name constant value.node?
  | [.text "FunctionDeclaration", .text name, .list parameters, .list body] =>
    .function name (Part.texts parameters) (Part.nodes body)
  | [.text "IfStmt", .node condition, .list consequent, alternate] =>
    .conditional condition (Part.nodes consequent) alternate.nodes?
  | [.text "AssignmentExpr", .node target, .node value] => .assignment target value
  | [.text "Property", .text key, value] => .property key value.node?
  | [.text "ObjectLiteral", .list properties] => .object (Part.nodes properties)
  | [.text "BinaryExpr", .node left, .node right, .text operator] => .binary left right operator
  | [.text "EqualityExpr", .node left, .text operator, .node right] => .equality left operator right
  | [.text "CallExpr", .node caller, .list args] => .call caller (Part.nodes args)
  | [.text "MemberExpr", .node owner, .node name, .flag computed] => .member owner name computed
  | [.text "Identifier", .text symbol] => .identifier symbol
  | [.text "NumericLiteral", .number value] => .number value
  | [.text "StringLiteral", .text value] => .string value
  | _ => .bare

mutual

def part : Document → Part
  | .null => .null
  | .flag value => .flag value
  | .number value => .number value
  | .text value => .text value
  | .list items => .list (parts items)
  | .record fields => .node (ofParts (fieldParts fields))

def parts : List Document → List Part
  | [] => []
  | item :: rest => part item :: parts rest

def fieldParts : List (String × Document) → List Part
  | [] => []
  | (_, value) :: rest => part value :: fieldParts rest

end

def ofDocument? (d : Document) : Option Node := (part d).node?

theorem parts_text (names : List String) : parts (names.map .text) = names.map .text := by
  induction names with
  | nil => rw [List.map_nil, parts, List.map_nil]
  | cons n names ih => rw [List.map_cons, parts, part, ih, List.map_cons]

theorem part_kindRecord (kind : String) (fields : List (String × Document)) :
    part (kindRecord kind fields) = .node (ofParts (.text kind :: fieldParts fields)) := by
  rw [kindRecord, part, fieldParts, part]

mutual

theorem part_document : (n : Node) → part n.document = .node n
  | .program body => by
    rw [document, part_kindRecord]
    simp [fieldParts, part, ofParts, parts_documents]
  | .declaration name constant value => by
    rw [document, part_kindRecord]
    simp [fieldParts, part, ofParts, node?_optionDocument]
  | .function name parameters body => by
    rw [document, part_kindRecord]
    simp [fieldParts, part, ofParts, parts_documents, parts_text]
  | .conditional condition consequent alternate => by
    rw [document, part_kindRecord]
    simp [fieldParts, part, ofParts, part_document, parts_documents, nodes?_branchDocument]
  | .assignment target value => by
    rw [document, part_kindRecord]
    simp [fieldParts, ofParts, part_document]
  | .property key value => by
    rw [document, part_kindRecord]
    simp [fieldParts, part, ofParts, node?_optionDocument]
  | .object properties => by
    rw [document, part_kindRecord]
    simp [fieldParts, part, ofParts, parts_documents]
  | .binary left right operator => by
    rw [document, part_kindRecord]
    simp [fieldParts, part, ofParts, part_document]
  | .equality left operator right => by
    rw [document, part_kindRecord]
    simp [fieldParts, part, ofParts, part_document]
  | .call caller args => by
    rw [document, part_kindRecord]
    simp [fieldParts, part, ofParts, part_document, parts_documents]
  | .member owner name computed => by
    rw [document, part_kindRecord]
    simp [fieldParts, part, ofParts, part_document]
  | .identifier symbol | .number value | .string value => by
    rw [document, part_kindRecord]
    simp [fieldParts, part, ofParts]
  | .bare => by
    rw [document, part_kindRecord]
    simp [fieldParts, ofParts]

theorem parts_documents : (ns : List Node) → parts (documents ns) = ns.map .node
  | [] => by rw [documents, parts, List.map_nil]
  | n :: ns => by rw [documents, parts, part_document, parts_documents, List.map_cons]

theorem node?_optionDocument : (value : Option Node) → (part (optionDocument value)).node? = value
  | none => by rw [optionDocument, part, Part.node?]; simp
  | some n => by rw [optionDocument, part_document, Part.node?]

theorem nodes?_branchDocument : (branch : Option (List Node)) →
    (part (branchDocument branch)).nodes? = branch
  | none => by rw [branchDocument, part, Part.nodes?]; simp
  | some body => by
    rw [branchDocument, part, Part.nodes?, parts_documents, Part.nodes_map]

end

/-- The document of a tree stands for the tree. -/
theorem ofDocument?_document (n : Node) : ofDocument? n.document = some n := by
  rw [ofDocument?, part_document, Part.node?]

end LocksetLang.Node
