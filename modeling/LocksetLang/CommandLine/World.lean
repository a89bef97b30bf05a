import LocksetLang.CommandLine.Shell
import LocksetLang.Session.Run

/-! A world for commands to run in. It has files by their names; where the paths lead, and which of
them cannot be opened, is left open. -/

namespace LocksetLang

structure World where
  files : String → Option ByteArray
  stdout : String
  stderr : String

def World.put (w : World) (name : String) (content : ByteArray) : World :=
  { w with files := fun other => if other = name then some content else w.files other }

inductive Access where
  | reading | writing

/-- What a command finds around it and leaves as it is. -/
structure Site where
  /-- The name of the file that a path leads to, be there one or not. -/
  locate : Access → String → Except PathFault String
  standIns : StandIns
  /-- Whether the screen, as files do, takes no surrogates. -/
  strict : Bool
  frames : Session.Frames
  input : List Session.Input

def Site.shell (site : Site) : Shell (StateM World) where
  Handle := String
  read path := do
    let name ← site.locate .reading path
    match (← get).files name with
    | some content => return content
    | none => throw .missing
  create path := do
    let name ← site.locate .writing path
    modify (·.put name .empty)
    return name
  write name text := do
    let content ← Text.encode site.standIns text
    modify fun w => w.put name ((w.files name).getD .empty ++ content)
  print text := do
    if site.strict then
      let _ ← Text.encode site.standIns text
    modify fun w => { w with stdout := w.stdout ++ text }
  printError text := modify fun w => { w with stderr := w.stderr ++ text }
  converse target verbose := modify fun w =>
    { w with stdout := w.stdout ++ Session.run site.frames target verbose site.input }

end LocksetLang
