import LocksetLang.Binary64.Shortest

/-! Writing a binary64 number: the digits of the shortest decimal, with a point among them or with
an exponent behind them. -/

namespace LocksetLang

/-- Decimal digits without zeros at their end, and the place of the point: `point` digits stand
before it. -/
structure Digits where
  digits : List Char
  point : Int

def Decimal.toDigits (d : Decimal) : Digits :=
  let ds := Nat.toDigits 10 d.digits
  ⟨(ds.reverse.dropWhile (· = '0')).reverse, ds.length + d.exponent⟩

namespace Digits

/-- With as many zeros as it takes to reach the point, and no point behind the last digit. -/
def positional (d : Digits) : List Char :=
  match d.point with
  | .ofNat p =>
    let whole :=
      if p = 0 then ['0'] else d.digits.take p ++ List.replicate (p - d.digits.length) '0'
    match d.digits.drop p with
    | [] => whole
    | fraction => whole ++ '.' :: fraction
  | .negSucc p => '0' :: '.' :: List.replicate (p + 1) '0' ++ d.digits

/-- One digit before the point, and the exponent with its sign and two digits at least. -/
def scientific (d : Digits) : List Char :=
  let mantissa :=
    match d.digits with
    | [] => ['0']
    | [c] => [c]
    | c :: fraction => c :: '.' :: fraction
  let e := d.point - 1
  let size := Nat.toDigits 10 e.natAbs
  let size := if size.length < 2 then '0' :: size else size
  mantissa ++ 'e' :: (if e < 0 then '-' else '+') :: size

/-- Positional from `10 ^ -4` up to `10 ^ 16`, with `.0` behind a whole number, else scientific. -/
def plain (d : Digits) : List Char :=
  if -4 < d.point ∧ d.point ≤ 16 then
    d.positional ++ (if (d.digits.length : Int) ≤ d.point then ['.', '0'] else [])
  else d.scientific

end Digits

namespace Binary64

def digitsOf (rank : Nat) : Digits :=
  if rank = 0 then ⟨['0'], 1⟩ else (shortest rank).toDigits

def withSign (negative : Bool) (text : List Char) : String :=
  String.ofList (if negative then '-' :: text else text)

structure Wording where
  infinity : String
  nan : String

/-- A number as descriptions and messages show it. -/
def shortWords : Wording := ⟨"inf", "nan"⟩

/-- A number as documents hold it. -/
def longWords : Wording := ⟨"Infinity", "NaN"⟩

def text (w : Wording) : Binary64 → String
  | .nan => w.nan
  | .infinite negative => withSign negative w.infinity.toList
  | .finite negative rank _ => withSign negative (digitsOf rank).plain

/-- The digits of a magnitude without an exponent: all of them if it is whole, else the shortest. -/
def positionalText (rank : Nat) : List Char :=
  if units rank % one = 0 then Nat.toDigits 10 (units rank / one)
  else (digitsOf rank).positional

/-- A number without an exponent, zero without a sign; `none` if it is not finite. -/
def literal? : Binary64 → Option String
  | .finite negative rank _ => some (withSign (negative && rank != 0) (positionalText rank))
  | _ => none

end Binary64
end LocksetLang
