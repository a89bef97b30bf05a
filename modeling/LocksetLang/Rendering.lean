import LocksetLang.Document.Json
import LocksetLang.Node.Document
import LocksetLang.Source.Page
import LocksetLang.Text.Lowercase

/-! Rendering programs for a target: as source text in canonical layout, or as a JSON document. -/

namespace LocksetLang

/-- The names of the targets; two of them mean source text. -/
def targetNames : List String := ["source", "lockset", "json"]

inductive Sheet where
  | source (page : Page)
  | json (text : String)

def Sheet.text : Sheet → String
  | source page => page.text
  | json text => text

def jsonText (indent : Option Int) (node : Node) : Except PrintFault String :=
  if indent.all isIndex then .ok (node.document.json indent) else .error .tooWide

structure Renderer where
  target : String
  indent : Option Int
  sheet : Sheet

namespace Renderer

def blankSheet (target : String) : Sheet :=
  if target = "json" then .json "" else .source Page.blank

/-- The indentation matters to JSON only. -/
def ofTarget? (name : String) (indent : Option Int) : Except PrintFault Renderer :=
  let target := Text.lowercase name
  if targetNames.contains target then .ok ⟨target, indent, blankSheet target⟩
  else .error (.unknownTarget target)

/-- Writes a node on the sheet. A JSON sheet takes whole programs only, and holds the last one. -/
def visit (r : Renderer) (node : Node) : Except PrintFault Unit × Renderer :=
  match r.sheet with
  | .source page =>
    if node matches .bare then (.error (.notStatement node.kind (some r.target)), r)
    else
      let (reply, page) := page.write (Writing.statement "" node)
      (reply, { r with sheet := .source page })
  | .json _ =>
    if node.isProgram then
      match jsonText r.indent node with
      | .ok text => (.ok (), { r with sheet := .json text })
      | .error fault => (.error fault, r)
    else (.error (.notStatement node.kind (some r.target)), r)

def render (r : Renderer) (node : Node) : Except PrintFault String × Renderer :=
  if node.isProgram then
    let (reply, r) := visit { r with sheet := blankSheet r.target } node
    (reply.map fun _ => r.sheet.text, r)
  else (.error .notProgram, r)

end Renderer

def render (target : String) (indent : Option Int) (program : Node) : Except PrintFault String := do
  let r ← Renderer.ofTarget? target indent
  (r.render program).1

def renderFor (target : Option String) (indent : Option Int) (program : Node) :
    Except PrintFault String :=
  match target with
  | some target => render target indent program
  | none => .error .unnamedTarget

/-- A program as source text in canonical layout. -/
def formatSource (program : Node) : Except PrintFault String := render "source" none program

end LocksetLang
