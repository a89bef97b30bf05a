import LocksetLang.Binary64.Rounding
import LocksetLang.Text.Numeral

/-! Reading a binary64 number from text: an optional sign, then digits with a point and an exponent,
or a word for infinity or NaN in letters of any case. Blanks around it are ignored. -/

namespace LocksetLang.Binary64

open Text

/-- The exponent behind the digits: nothing, or a letter `e` and a signed integer. -/
def exponentPart? : List Char → Option Int
  | [] => some 0
  | c :: rest =>
    if c = 'e' || c = 'E' then
      let (negative, cs) := signed rest
      match digitRun cs with
      | ([], _) => none
      | (ds, []) => some (if negative then -(digitsValue ds : Int) else digitsValue ds)
      | _ => none
    else none

/-- Digits with at most one point among them, then the exponent. -/
def decimal? (cs : List Char) : Option Decimal :=
  let (whole, rest) := digitRun cs
  let (fraction, rest) :=
    match rest with
    | '.' :: rest => digitRun rest
    | rest => ([], rest)
  if whole.isEmpty && fraction.isEmpty then none
  else (exponentPart? rest).map fun e => ⟨digitsValue (whole ++ fraction), e - fraction.length⟩

def infinityWords : List (List Char) := ["inf".toList, "infinity".toList]

def nanWord : List Char := "nan".toList

def ofText? (s : String) : Option Binary64 :=
  let (negative, cs) := signed (trim isNumeralBlank s.toList)
  let word := cs.map Char.toLower
  if infinityWords.contains word then some (.infinite negative)
  else if word = nanWord then some .nan
  else (decimal? cs).map (ofDecimal negative)

end LocksetLang.Binary64
