import LocksetLang.Text.Lowercase

/-! Names of several words: each word with a capital, or small letters with underscores between. -/

namespace LocksetLang.Text

def isCapital (c : Char) : Bool := 'A' ≤ c && c ≤ 'Z'

/-- Puts an underscore before each capital letter of ASCII but a leading one, and makes all letters
small. -/
def underscored (name : String) : String :=
  match name.toList with
  | [] => ""
  | c :: rest =>
    lowercase (String.ofList (c :: rest.flatMap fun d => if isCapital d then ['_', d] else [d]))

end LocksetLang.Text
