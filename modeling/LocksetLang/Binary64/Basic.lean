/-! Binary64 numbers. The finite magnitudes are numbered from zero upwards without a gap, and a
number holds its sign and the rank of its magnitude. Magnitudes are counted in units of `2 ^ -1074`,
the smallest one above zero, so that all arithmetic is on natural numbers. -/

namespace LocksetLang

def twoPow (n : Nat) : Nat := Nat.pow 2 n

def tenPow (n : Nat) : Nat := Nat.pow 10 n

/-- How many finite magnitudes there are: `2 ^ 52` for each exponent but the highest. -/
def Binary64.rankCount : Nat := 2047 * twoPow 52

inductive Binary64 where
  | nan
  | infinite (negative : Bool)
  | finite (negative : Bool) (rank : Nat) (bounded : rank < Binary64.rankCount)
  deriving DecidableEq

namespace Binary64

/-- How many bits a magnitude of this rank has behind its 53 significant ones. -/
def shiftOf (rank : Nat) : Nat := rank / twoPow 52 - 1

/-- The magnitude of this rank, in units. -/
def units (rank : Nat) : Nat := (rank - shiftOf rank * twoPow 52) * twoPow (shiftOf rank)

/-- How many units make one. -/
def one : Nat := twoPow 1074

def zero (negative : Bool) : Binary64 := .finite negative 0 (by decide)

instance : Inhabited Binary64 := ⟨zero false⟩

def isFinite : Binary64 → Bool
  | .finite .. => true
  | _ => false

/-- Equality of values: nothing equals a NaN, and the two zeros are equal. -/
def same : Binary64 → Binary64 → Bool
  | .infinite n, .infinite m => n == m
  | .finite n r _, .finite m s _ => r == s && (n == m || r == 0)
  | _, _ => false

end Binary64
end LocksetLang
