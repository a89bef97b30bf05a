import LocksetLang.Limit
import LocksetLang.Token.Basic

/-! A cursor in a text: what is still to be read, and where it stands. An offset below zero counts
from the end of the text; from there a cursor goes on to the start and through the whole text. -/

namespace LocksetLang

inductive LexicalFault where
  | pastEnd (offset : Int) (line : Int)
  /-- The offset counts from the end to a point before the start. -/
  | beforeStart (offset : Int)
  | invalidNumber (start : Place)
  | unterminatedString (start : Place)
  deriving DecidableEq

def LexicalFault.message : LexicalFault → String
  | pastEnd offset line => s!"read past end of source (position {offset}, line {line})"
  | beforeStart offset => if isIndex offset then "string index out of range" else noIndexMessage
  | invalidNumber start => s!"Invalid number format at line {start.line}, col {start.column}"
  | unterminatedString start => s!"Unterminated string at line {start.line}, col {start.column}"

/-- Before the start of a text, `rest` is the whole of it. -/
structure Cursor where
  rest : List Char
  offset : Int
  place : Place

namespace Cursor

/-- A cursor at `offset` in a text; the place it reports there is given. -/
def startingAt (source : List Char) (offset : Int) (place : Place) : Cursor :=
  if 0 ≤ offset then ⟨source.drop offset.toNat, offset, place⟩
  else if offset + source.length < 0 then ⟨source, offset, place⟩
  else ⟨source.drop (offset + source.length).toNat ++ source, offset, place⟩

def ofText (source : List Char) : Cursor := ⟨source, 0, Place.start⟩

def past (c : Cursor) (used : List Char) : Cursor :=
  ⟨c.rest.drop used.length, c.offset + used.length, c.place.after used⟩

theorem length_rest_past (c : Cursor) (used : List Char) :
    (c.past used).rest.length = c.rest.length - used.length := by
  simp [past]

def isBeforeStart (c : Cursor) : Bool := c.offset + c.rest.length < 0

def atEnd (c : Cursor) : Bool := c.rest.isEmpty && !c.isBeforeStart

def next (c : Cursor) : Except LexicalFault Char × Cursor :=
  match c.rest with
  | [] => (.error (.pastEnd c.offset c.place.line), c)
  | ch :: _ => (.ok ch, c.past [ch])

/-- The characters from one offset of a text up to another. Those below zero count from its end. -/
def slice (text : List Char) (first last : Int) : List Char :=
  let index (i : Int) : Nat := if i < 0 then (text.length + i).toNat else i.toNat
  (text.take (index last)).drop (index first)

/-- The text from the cursor up to the offset that `size` leads to. -/
def lookahead (c : Cursor) (size : Int) : List Char :=
  if 0 ≤ c.offset then
    if 0 ≤ size then c.rest.take size.toNat
    else if c.offset + size < 0 then c.rest.take (c.rest.length + (c.offset + size)).toNat
    else []
  else
    let text := if c.isBeforeStart then c.rest else c.rest.drop (-c.offset).toNat
    slice text c.offset (c.offset + size)

theorem lookahead_natCast {c : Cursor} (h : 0 ≤ c.offset) (size : Nat) :
    c.lookahead size = c.rest.take size := by
  simp [lookahead, h]

def use {α : Type} (c : Cursor) (read : Cursor → Except LexicalFault α × Cursor) :
    Except LexicalFault α × Cursor :=
  if c.isBeforeStart then (.error (.beforeStart c.offset), c) else read c

end Cursor
end LocksetLang
