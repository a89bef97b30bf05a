import LocksetLang.Binary64.Text
import LocksetLang.Document.Basic
import LocksetLang.Text.Hex

/-! Writing a document as JSON, in ASCII alone: on one line, or with each item and each field on a
line of its own. -/

namespace LocksetLang.Document

open Text

def unitEscape (n : Nat) : List Char := '\\' :: 'u' :: hex 4 n

/-- One character of a string. Beyond the first plane it takes two units. -/
def jsonChar (c : Char) : List Char :=
  if c = '"' || c = '\\' then ['\\', c]
  else if c = '\n' then ['\\', 'n']
  else if c = '\r' then ['\\', 'r']
  else if c = '\t' then ['\\', 't']
  else if c.toNat = 0x08 then ['\\', 'b']
  else if c.toNat = 0x0C then ['\\', 'f']
  else if 0x20 ≤ c.toNat && c.toNat < 0x7F then [c]
  else if c.toNat < 0x10000 then unitEscape c.toNat
  else
    let n := c.toNat - 0x10000
    unitEscape (0xD800 + n / 0x400) ++ unitEscape (0xDC00 + n % 0x400)

def jsonString (s : String) : String :=
  String.ofList ('"' :: s.toList.flatMap jsonChar ++ ['"'])

/-- What stands at the start of a line at this depth; with no indentation, there are no lines. -/
def lineBreak (indent : Option Int) (depth : Nat) : String :=
  match indent with
  | none => ""
  | some width => String.ofList ('\n' :: List.replicate (width.toNat * depth) ' ')

/-- Items between brackets, with commas between them; brackets around nothing stay together. -/
def bracketed (opening closing : String) (indent : Option Int) (depth : Nat) :
    List String → String
  | [] => opening ++ closing
  | items =>
    let comma := if indent.isNone then ", " else "," ++ lineBreak indent (depth + 1)
    opening ++ lineBreak indent (depth + 1) ++ comma.intercalate items ++
      lineBreak indent depth ++ closing

mutual

def jsonAt (indent : Option Int) (depth : Nat) : Document → String
  | .null => "null"
  | .flag true => "true"
  | .flag false => "false"
  | .number value => value.text Binary64.longWords
  | .text value => jsonString value
  | .list items => bracketed "[" "]" indent depth (jsonItems indent (depth + 1) items)
  | .record fields => bracketed r"{" r"}" indent depth (jsonFields indent (depth + 1) fields)

def jsonItems (indent : Option Int) (depth : Nat) : List Document → List String
  | [] => []
  | item :: rest => jsonAt indent depth item :: jsonItems indent depth rest

def jsonFields (indent : Option Int) (depth : Nat) : List (String × Document) → List String
  | [] => []
  | (name, value) :: rest =>
    (jsonString name ++ ": " ++ jsonAt indent depth value) :: jsonFields indent depth rest

end

/-- With an indentation, every line is indented by so many spaces for each level; a number below
one gives lines without spaces. -/
def json (indent : Option Int) (d : Document) : String := jsonAt indent 0 d

end LocksetLang.Document
