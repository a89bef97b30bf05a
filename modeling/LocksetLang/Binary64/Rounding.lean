import LocksetLang.Binary64.Basic

/-! Rounding fractions and decimals to binary64, to the nearest magnitude and to the even rank when
two are equally near. -/

namespace LocksetLang

/-- The value `digits * 10 ^ exponent`. -/
structure Decimal where
  digits : Nat
  exponent : Int
  deriving DecidableEq

/-- The quotient rounded to the nearest integer, a half to the even neighbour. -/
def roundDiv (num den : Nat) : Nat :=
  let q := num / den
  let r := num % den
  if 2 * r < den then q
  else if den < 2 * r then q + 1
  else q + q % 2

namespace Binary64

/-- The rank nearest to `num / den` units. A magnitude of 54 bits or more loses its last bits, and
a carry out of the 53 that remain leads to the first rank of the next exponent by itself. The rank
may lie past the last one. -/
def nearestRank (num den : Nat) : Nat :=
  let shift := (num / den).log2 - 52
  shift * twoPow 52 + roundDiv num (den * twoPow shift)

/-- The number nearest to `num / den` units; a magnitude past the last rank is infinite. -/
def ofUnits (negative : Bool) (num den : Nat) : Binary64 :=
  if h : nearestRank num den < rankCount then .finite negative (nearestRank num den) h
  else .infinite negative

/-- The number nearest to a decimal. Two bounds keep the powers of ten small: from `10 ^ 310` on all
is infinite, and what is below `2 ^ -1075` rounds to zero. -/
def ofDecimal (negative : Bool) (d : Decimal) : Binary64 :=
  if d.digits = 0 then zero negative
  else match d.exponent with
    | .ofNat e =>
      if 309 < e then .infinite negative
      else ofUnits negative (d.digits * tenPow e * one) 1
    | .negSucc e =>
      if d.digits.log2 + 1076 ≤ 3 * (e + 1) then zero negative
      else ofUnits negative (d.digits * one) (tenPow (e + 1))

end Binary64
end LocksetLang
