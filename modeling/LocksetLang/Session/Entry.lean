import LocksetLang.Text.Blank

/-! Entries of a session: the lines typed until no brace is open. -/

namespace LocksetLang.Session

/-- What comes from the keyboard: a line, or the key that interrupts. -/
inductive Input where
  | line (text : String)
  | interrupt

inductive InputEnd where
  | endOfInput
  | interrupted

def InputEnd.message : InputEnd → String
  | endOfInput => "EOF when reading a line"
  | interrupted => ""

/-- The lines of an entry that is not yet complete, and how many braces they leave open. -/
structure Pending where
  lines : List String
  openBraces : Int
  deriving DecidableEq

namespace Pending

def empty : Pending := ⟨[], 0⟩

def prompt (p : Pending) : String := if p.lines.isEmpty then ">>> " else "... "

end Pending

def quitWords : List String := ["exit", "quit"]

/-- How many more braces a line opens than it closes. Braces count wherever they stand. -/
def braceBalance (line : String) : Int :=
  (line.toList.count '{' : Int) - line.toList.count '}'

/-- What a line makes of the entry it is added to. -/
inductive Progress where
  | more (pending : Pending)
  | entry (text : String)
  | quit

def Pending.add (p : Pending) (line : String) : Progress :=
  if p.lines.isEmpty && quitWords.contains (Text.strip line) then .quit
  else
    let p : Pending := ⟨p.lines ++ [line], p.openBraces + braceBalance line⟩
    if p.openBraces ≤ 0 then .entry (Text.strip ("\n".intercalate p.lines)) else .more p

/-- The entries of an input in turn, `none` being a word that ends the session; why there are no
more; and the prompts shown. -/
def entriesFrom (p : Pending) : List Input → List (Option String) × InputEnd × String
  | [] => ([], .endOfInput, p.prompt)
  | .interrupt :: _ => ([], .interrupted, p.prompt)
  | .line text :: rest =>
    let (entry, p') : List (Option String) × Pending :=
      match p.add text with
      | .more p' => ([], p')
      | .entry text => ([some text], .empty)
      | .quit => ([none], .empty)
    let (entries, reason, prompts) := entriesFrom p' rest
    (entry ++ entries, reason, p.prompt ++ prompts)

def entries (input : List Input) : List (Option String) × InputEnd × String :=
  entriesFrom .empty input

end LocksetLang.Session
