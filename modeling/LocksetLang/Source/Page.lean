import LocksetLang.Source.Expression

/-! Programs as source text, one statement a line, four spaces for each level. The lines are
collected on a page, which keeps what was written before a fault. -/

namespace LocksetLang

structure Page where
  lines : Array String
  indent : Int

namespace Page

def blank : Page := ⟨#[], 0⟩

def margin (p : Page) : String :=
  String.ofList (List.replicate (4 * p.indent).toNat ' ')

def text (p : Page) : String := "\n".intercalate p.lines.toList

end Page

/-- Something written on a page. It is told whether there can be a margin at the level where it
starts; the blocks in it do not go so deep that their own levels would matter to this. -/
abbrev Writing (α : Type) : Type := ReaderT Bool (ExceptT PrintFault (StateM Page)) α

namespace Writing

def margin : Writing String := do
  if ← read then return (← get).margin else throw .tooWide

def append (text : String) : Writing Unit :=
  modify fun p => { p with lines := p.lines.push text }

def line (text : String) : Writing Unit := do append ((← margin) ++ text)

def shift (levels : Int) : Writing Unit :=
  modify fun p => { p with indent := p.indent + levels }

def expression (node : Node) : Writing String :=
  fun _ => ExceptT.mk (pure (Source.expression 0 node))

/-- An expression on a line of its own, whose margin comes before it. -/
def expressionLine (node : Node) : Writing Unit := do
  let spaces ← margin
  append (spaces ++ (← expression node))

def declaration (name : String) (constant : Bool) (value : Option Node) : Writing Unit := do
  let declared := (if constant then "lock " else "set ") ++ name
  match value with
  | none => line (declared ++ ";")
  | some value => line (declared ++ " = " ++ (← expression value) ++ ";")

mutual

/-- A statement. What `lead` holds is put before the `if` of a conditional. An object entry is gone
through, but no line comes of it, and the statements of a program are written one by one. -/
def statement (lead : String) : Node → Writing Unit
  | .program body => statements body
  | .declaration name constant value => declaration name constant value
  | .function name parameters body => do
    line ("fun " ++ name ++ "(" ++ ", ".intercalate parameters ++ r") {")
    shift 1
    statements body
    shift (-1)
    line r"}"
  | .conditional condition consequent alternate => do
    line (lead ++ "if " ++ (← expression condition) ++ r" {")
    shift 1
    statements consequent
    shift (-1)
    branch alternate
  | .property _ none => return
  | .property _ (some value) => do let _ ← expression value
  | .bare => throw (.notStatement Node.bare.kind none)
  | node => expressionLine node

def statements : List Node → Writing Unit
  | [] => return
  | node :: rest => do
    statement "" node
    statements rest

/-- The end of a conditional. A conditional alone in the other branch goes on in the line of the
closing brace. -/
def branch : Option (List Node) → Writing Unit
  | none => line r"}"
  | some [node] =>
    if node.isConditional then statement r"} else " node
    else do
      line r"} else {"
      shift 1
      statement "" node
      shift (-1)
      line r"}"
  | some body => do
    line r"} else {"
    shift 1
    statements body
    shift (-1)
    line r"}"

end

def body : Node → Writing Unit
  | .program body | .function _ _ body => statements body
  | node => throw (.lacksPart node.typeName "body")

def conditional (lead : String) (node : Node) : Writing Unit :=
  if node.isConditional then statement lead node
  else throw (.lacksPart node.typeName "conditional")

end Writing

def Page.write {α : Type} (p : Page) (w : Writing α) : Except PrintFault α × Page :=
  w (isIndex p.indent) p

end LocksetLang
