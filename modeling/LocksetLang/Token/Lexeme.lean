/-! The shapes of lexemes. Each function gives the longest lexeme of one class at the head of a
text, as the characters it takes from there. -/

namespace LocksetLang.Lexeme

def isWordStart (c : Char) : Bool := c.isAlpha || c = '_'

def isWordPart (c : Char) : Bool := isWordStart c || c.isDigit

def isSpace (c : Char) : Bool := c = ' ' || c = '\t' || c = '\r' || c = '\n'

/-- Strings are written between two apostrophes or between two double quotes. -/
def isQuote (c : Char) : Bool := c = '"' || c = '\x27'

/-- Spaces and comments; a comment starts with a hash and ends with its line. -/
def triviaFrom : (inComment : Bool) → List Char → List Char
  | _, [] => []
  | true, c :: rest => c :: triviaFrom (c != '\n') rest
  | false, c :: rest =>
    if isSpace c then c :: triviaFrom false rest
    else if c = '#' then c :: triviaFrom true rest
    else []

def trivia (cs : List Char) : List Char := triviaFrom false cs

def word (cs : List Char) : List Char := cs.takeWhile isWordPart

/-- Digits, and a point with more digits if there is one. -/
def number (cs : List Char) : List Char :=
  let whole := cs.takeWhile Char.isDigit
  match cs.drop whole.length with
  | '.' :: rest => whole ++ '.' :: rest.takeWhile Char.isDigit
  | _ => whole

/-- What stands before the first `quote` that no backslash takes away; `none` if there is none. -/
def quotedBody (quote : Char) : List Char → Option (List Char)
  | [] => none
  | [c] => if c = quote then some [] else none
  | c :: d :: rest =>
    if c = quote then some []
    else if c = '\\' then (quotedBody quote rest).map (c :: d :: ·)
    else (quotedBody quote (d :: rest)).map (c :: ·)

/-- Whether a `quote` occurs that no backslash takes away. -/
def hasUnescaped (quote : Char) : List Char → Bool
  | [] => false
  | '\\' :: [] => false
  | '\\' :: _ :: rest => hasUnescaped quote rest
  | c :: rest => c = quote || hasUnescaped quote rest

end LocksetLang.Lexeme
