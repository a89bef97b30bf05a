import LocksetLang.Text.Blank
import LocksetLang.Text.DecimalDigit

/-! Reading numerals: digits of any script, with single underscores allowed between two of them. -/

namespace LocksetLang.Text

/-- The blanks that may stand around a numeral; the separators of ASCII are not among them. -/
def isNumeralBlank (c : Char) : Bool :=
  isBlank c && !(0x1C ≤ c.toNat && c.toNat ≤ 0x1F)

def isDecimalDigit (c : Char) : Bool := (digitValue? c).isSome

def digitRun : List Char → List Nat × List Char
  | [] => ([], [])
  | c :: rest =>
    match digitValue? c with
    | none => ([], c :: rest)
    | some d =>
      match rest with
      | '_' :: next :: tail =>
        if isDecimalDigit next then
          let (ds, left) := digitRun (next :: tail)
          (d :: ds, left)
        else ([d], '_' :: next :: tail)
      | rest =>
        let (ds, left) := digitRun rest
        (d :: ds, left)

/-- The number that decimal digits spell, the first digit being the highest. -/
def digitsValue (ds : List Nat) : Nat :=
  ds.foldl (fun n d => 10 * n + d) 0

def signed : List Char → Bool × List Char
  | '-' :: rest => (true, rest)
  | '+' :: rest => (false, rest)
  | cs => (false, cs)

/-- A numeral longer than this is not read. -/
def longestInteger : Nat := 4300

/-- An integer with an optional sign, blanks around it being ignored. -/
def integer? (s : String) : Option Int :=
  let (negative, cs) := signed (trim isNumeralBlank s.toList)
  match digitRun cs with
  | ([], _) => none
  | (ds, []) =>
    if longestInteger < ds.length then none
    else some (if negative then -(digitsValue ds : Int) else digitsValue ds)
  | _ => none

end LocksetLang.Text
