import LocksetLang.CommandLine.Run
import LocksetLang.Session.Run

/-! The program: arguments, files, keyboard and screen. -/

namespace LocksetLang

def chomp (line : String) : String :=
  if line.endsWith "\n" then (line.dropEnd 1).toString else line

/-- Reads lines and shows what a session answers, until it ends. No frames are known for a fault. -/
partial def converse (target : Option String) (s : Session.State) : IO Unit := do
  let stdout ← IO.getStdout
  stdout.putStr s.pending.prompt
  stdout.flush
  let line ← (← IO.getStdin).getLine
  if line.isEmpty then
    stdout.putStr ("\n" ++ Session.farewell)
  else
    let (shown, next) := Session.step (fun _ _ => "") target s (.line (chomp line))
    stdout.putStr shown
    match next with
    | none => return
    | some s => converse target s

/-- What comes of opening a file, as far as there is a name for what went wrong. -/
def opened {α : Type} (action : IO α) : ExceptT PathFault IO α :=
  ExceptT.mk do
    try return .ok (← action)
    catch
      | .noFileOrDirectory .. => return .error .missing
      | .permissionDenied .. => return .error .denied
      | e => throw e

/-- The files and the screen themselves. -/
def console : Shell IO where
  Handle := IO.FS.Handle
  read path := opened (IO.FS.readBinFile path)
  create path := opened (IO.FS.Handle.mk path .write)
  write file text := ExceptT.lift (file.write text.toUTF8)
  print text := ExceptT.lift (IO.print text)
  printError text := IO.eprint text
  converse target verbose := do
    IO.print (Session.banner target)
    LocksetLang.converse target (Session.start verbose)

end LocksetLang

def main (args : List String) : IO UInt32 := do
  match ← LocksetLang.CommandLine.command LocksetLang.console args with
  | .status code => return code.toUInt32
  | .refused refusal =>
    IO.println <| "usage: lockset [-h] [-s] [-f FORMAT] [-o OUTFILE] [--indent N] [--repl] " ++
      "[--verbose] [source]"
    return refusal.status.toUInt32
  | .fault fault =>
    IO.eprintln fault.message
    return 1
