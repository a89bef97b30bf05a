import LocksetLang.Text.Hex

/-! Texts as the bytes of a file. A text from outside can have surrogates in it that stand alone, and
there are no bytes for them. No character is a surrogate here, so a text that has some is held with
other characters in their places, such as it has nowhere else. -/

namespace LocksetLang

abbrev Surrogate := Fin 0x800

/-- The surrogates that characters stand for. -/
abbrev StandIns := Char → Option Surrogate

inductive CodePoint where
  | scalar (c : Char)
  | surrogate (s : Surrogate)
  deriving DecidableEq

def CodePoint.isSurrogate : CodePoint → Bool
  | scalar _ => false
  | surrogate _ => true

/-- Where surrogates stand in a text, `count` of them in a row, and the first of them. -/
structure EncodeFault where
  start : Nat
  count : Nat
  first : Surrogate
  deriving DecidableEq

def EncodeFault.message (f : EncodeFault) : String :=
  "'utf-8' codec can't encode character" ++
    (if f.count = 1 then
      " '\\u" ++ String.ofList (Text.hex 4 (0xD800 + f.first)) ++ "' in position " ++ toString f.start
    else
      "s in position " ++ toString f.start ++ "-" ++ toString (f.start + f.count - 1)) ++
    ": surrogates not allowed"

namespace Text

def codePoints (standIns : StandIns) (text : String) : List CodePoint :=
  text.toList.map fun c => (standIns c).elim (.scalar c) .surrogate

/-- The characters among code points that have no surrogates among them; `start` counts those that
came before. -/
def scalars (start : Nat) : List CodePoint → Except EncodeFault (List Char)
  | [] => .ok []
  | .scalar c :: rest => do return c :: (← scalars (start + 1) rest)
  | .surrogate s :: rest => .error ⟨start, 1 + (rest.takeWhile CodePoint.isSurrogate).length, s⟩

def encode (standIns : StandIns) (text : String) : Except EncodeFault ByteArray := do
  return (String.ofList (← scalars 0 (codePoints standIns text))).toUTF8

end Text
end LocksetLang
