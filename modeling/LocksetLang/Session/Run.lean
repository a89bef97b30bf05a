import LocksetLang.Grammar.Buffer
import LocksetLang.Rendering
import LocksetLang.Session.Entry
import LocksetLang.Text.Lowercase

/-! Sessions: each entry is read as a program and shown again as the text of a target. One parser
reads all the entries, and it holds on to what it read last. -/

namespace LocksetLang.Session

/-- The lines of a traceback that tell where a fault came from, given its class and its message. -/
abbrev Frames := String → String → String

def traceback (frames : Frames) (faultClass message : String) : String :=
  "[error] >>>\nTraceback (most recent call last):\n" ++ frames faultClass message ++ faultClass ++
    ": " ++ message ++ "\n\n"

/-- What is shown for a program. A target that is not named or does not exist is reported for each
program. -/
def shown (frames : Frames) (target : Option String) (verbose : Bool) (program : Node) : String :=
  match renderFor target (some 2) program with
  | .ok text =>
    text ++ "\n" ++
      if verbose then "[ast] >>>\n" ++ program.document.json (some 2) ++ "\n" else ""
  | .error fault => traceback frames fault.className fault.message

structure State where
  verbose : Bool
  pending : Pending
  parser : Buffer

def farewell : String := "Exiting Lockset REPL.\n"

/-- How a fault in reading an entry is met: one in the text is shown in a line of its own, and what
looks like the end of the input ends the session. -/
def refused (frames : Frames) (s : State) (fault : SourceFault) : String × Option State :=
  if fault.faultClass = .endOfFile then ("\n" ++ farewell, none)
  else if fault.faultClass.isMalformed then ("[error] >>> " ++ fault.message ++ "\n", some s)
  else (traceback frames fault.faultClass.name fault.message, some s)

def changesMode (entry : String) : Bool := Text.lowercase entry = "verbose-mode"

def modeLine (verbose : Bool) : String :=
  "[mode] >>> Verbose mode " ++ (if verbose then "ON" else "OFF") ++ "\n"

/-- What is shown for an entry, and the state after it; `none` if it ends the session. -/
def answer (frames : Frames) (target : Option String) (s : State) (entry : String) :
    String × Option State :=
  if entry.isEmpty || entry.toList.head? = some '#' then ("", some s)
  else if changesMode entry then
    (modeLine !s.verbose, some { s with verbose := !s.verbose })
  else
    let (reply, parser) := s.parser.parse entry
    let s := { s with parser }
    match reply with
    | .error fault => refused frames s fault
    | .ok (.program []) => ("", some s)
    | .ok program => (shown frames target s.verbose program, some s)

/-- What one input shows, and the state after it; `none` if it ends the session. -/
def step (frames : Frames) (target : Option String) (s : State) : Input → String × Option State
  | .interrupt => ("\n" ++ farewell, none)
  | .line text =>
    match s.pending.add text with
    | .quit => (farewell, none)
    | .more pending => ("", some { s with pending })
    | .entry text => answer frames target { s with pending := .empty } text

def runFrom (frames : Frames) (target : Option String) (s : State) : List Input → String
  | [] => s.pending.prompt ++ "\n" ++ farewell
  | input :: rest =>
    let (shown, next) := step frames target s input
    s.pending.prompt ++ shown ++
      match next with
      | none => ""
      | some s => runFrom frames target s rest

/-- The first line of a session. Empty brackets stand for a target that is not named. -/
def banner (target : Option String) : String :=
  "Lockset REPL [format=" ++ target.getD "[]" ++ "]. Type 'exit' or 'quit' to leave.\n"

def start (verbose : Bool) : State := ⟨verbose, .empty, .empty⟩

def run (frames : Frames) (target : Option String) (verbose : Bool) (input : List Input) : String :=
  banner target ++ runFrom frames target (start verbose) input

end LocksetLang.Session
