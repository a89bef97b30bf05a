/-! Hexadecimal digits of a fixed count, in small letters. -/

namespace LocksetLang.Text

/-- The last `width` hexadecimal digits of `n`. -/
def hex : (width : Nat) → (n : Nat) → List Char
  | 0, _ => []
  | width + 1, n => hex width (n / 16) ++ [Nat.digitChar (n % 16)]

end LocksetLang.Text
