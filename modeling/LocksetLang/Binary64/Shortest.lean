import LocksetLang.Binary64.Rounding

/-! The shortest decimal that reads back. For one digit, two digits and so on up to seventeen, the
two decimals with so many digits on either side of a number are tried, and the first that rounds to
the number is taken. -/

namespace LocksetLang.Binary64

/-- The least `e` for which the magnitude is below `10 ^ e`. Every magnitude above zero is at least
`10 ^ -324`, so its first 400 places show its leading digit. -/
def magnitudeExponent (rank : Nat) : Int :=
  (Nat.toDigits 10 (units rank * tenPow 400 / one)).length - 400

/-- The magnitude in steps of `10 ^ e`, as numerator and denominator. -/
def inSteps (rank : Nat) : (e : Int) → Nat × Nat
  | .ofNat e => (units rank, one * tenPow e)
  | .negSucc e => (units rank * tenPow (e + 1), one)

/-- Whether a decimal rounds to the magnitude of this rank. -/
def reads (rank : Nat) (d : Decimal) : Bool :=
  match ofDecimal false d with
  | .finite _ r _ => r == rank
  | _ => false

/-- Of the multiples of `10 ^ e` beside the magnitude one that rounds to it: the nearer of two, the
even one if both are equally near. -/
def neighbour? (rank : Nat) (e : Int) : Option Decimal :=
  let (num, den) := inSteps rank e
  let below : Decimal := ⟨num / den, e⟩
  let above : Decimal := ⟨num / den + 1, e⟩
  match reads rank below, reads rank above with
  | true, true => some (if roundDiv num den = num / den then below else above)
  | true, false => some below
  | false, true => some above
  | false, false => none

/-- The magnitude itself, written with all its digits. -/
def exactDecimal (rank : Nat) : Decimal := ⟨units rank * Nat.pow 5 1074, -1074⟩

def shortest (rank : Nat) : Decimal :=
  let top := magnitudeExponent rank
  let found := (List.range 17).findSome? fun n => neighbour? rank (top - (n + 1 : Nat))
  found.getD (exactDecimal rank)

end LocksetLang.Binary64
