import LocksetLang.Text.Quoted
import LocksetLang.Token.Basic
import LocksetLang.Token.Cursor

/-! Why tokens do not make up a program. -/

namespace LocksetLang

inductive Demand where
  | blockStart (block : String)
  | blockEnd (block : String)
  | declaredName
  | declaredEquals
  | declarationEnd
  | functionName
  | ifWord
  | objectKey
  | objectColon
  | objectComma
  | objectEnd
  | argumentsStart
  | argumentsEnd
  | memberName
  | indexEnd
  | groupEnd
  | expression
  /-- A demand of a caller's own. -/
  | given (kind : Kind) (text : String)

namespace Demand

/-- The kind that meets the demand. No kind of token is an expression. -/
def kind : Demand → Kind
  | blockStart _ => .leftBrace
  | blockEnd _ => .rightBrace
  | declaredName | functionName | objectKey | memberName => .identifier
  | declaredEquals => .equals
  | declarationEnd => .semicolon
  | ifWord => .ifWord
  | objectColon => .colon
  | objectComma => .comma
  | objectEnd => .rightBrace
  | argumentsStart => .leftParen
  | argumentsEnd | groupEnd => .rightParen
  | indexEnd => .rightBracket
  | expression => .other "expression"
  | given kind _ => kind

def text : Demand → String
  | blockStart block => "Expected opening brace for " ++ block ++ "."
  | blockEnd block => "Expected closing brace for " ++ block ++ "."
  | declaredName => "Expected identifier name following set | lock keywords."
  | declaredEquals => "Expected equals token following identifier in var declaration."
  | declarationEnd => "Variable declaration statement must end with semicolon."
  | functionName => "Expected function name following fun keyword."
  | ifWord => "Expected \"if\" keyword."
  | objectKey => "Object literal key expected."
  | objectColon => "Missing colon following identifier in object literal."
  | objectComma => "Expected comma or closing brace following property."
  | objectEnd => "Object literal missing closing brace."
  | argumentsStart => "Expected open parenthesis."
  | argumentsEnd => "Missing closing parenthesis inside arguments list."
  | memberName => "dot operator requires identifier"
  | indexEnd => "Missing closing bracket in computed value."
  | groupEnd =>
    "Unexpected token found inside parenthesised expression. Expected closing parenthesis."
  | expression => "Unexpected token found during parsing."
  | given _ text => text

end Demand

inductive ParseFault where
  | unexpected (demand : Demand) (token : Token)
  | constantWithoutValue (name : Token)
  | parameterNotName (start : Token)
  | numberTooLarge (number : Token)
  /-- A number token, made by hand, whose value is no numeral. -/
  | numberMisspelt (number : Token)
  | noEnd
  | noToken
  | noIndex
  /-- The last token asks for more tokens again and again. -/
  | endless

namespace ParseFault

def text : ParseFault → String
  | unexpected demand _ => demand.text
  | constantWithoutValue _ => "constant requires a value"
  | parameterNotName _ => "function parameters must be names"
  | numberTooLarge _ => "Numeric literal is too large"
  | numberMisspelt number => "could not convert string to float: " ++ Text.quoted number.value
  | noEnd => "token stream must end with an EOF token"
  | noToken => "list index out of range"
  | noIndex => noIndexMessage
  | endless => "token stream has no end"

/-- The token that the fault is shown at. -/
def token? : ParseFault → Option Token
  | unexpected _ token => some token
  | constantWithoutValue name => some name
  | parameterNotName start => some start
  | numberTooLarge number => some number
  | _ => none

/-- The name of what was asked for in place of the token. -/
def expected? : ParseFault → Option String
  | unexpected demand _ => some demand.kind.name
  | _ => none

def shownToken (t : Token) : String :=
  t.kind.name ++ " " ++ Text.quoted t.value ++
    s!" at line {t.place.line}, col {t.place.column}"

def message (f : ParseFault) : String :=
  match f.token?, f.expected? with
  | some t, some e => f.text ++ " (expected " ++ e ++ ", got " ++ shownToken t ++ ")"
  | some t, none => f.text ++ " (got " ++ shownToken t ++ ")"
  | none, _ => f.text

end ParseFault

inductive SourceFault where
  | lexical (fault : LexicalFault)
  | grammatical (fault : ParseFault)

def SourceFault.message : SourceFault → String
  | lexical fault => fault.message
  | grammatical fault => fault.message

/-- The classes of faults. The first is that of all faults in a text itself, with the next three
below it. -/
inductive FaultClass where
  | malformed | parse | unexpectedToken | declaration
  | value | index | endOfFile | recursion
  deriving DecidableEq

def FaultClass.isMalformed : FaultClass → Bool
  | malformed | parse | unexpectedToken | declaration => true
  | value | index | endOfFile | recursion => false

def FaultClass.name : FaultClass → String
  | malformed => "SyntaxError"
  | parse => "ParseError"
  | unexpectedToken => "UnexpectedTokenError"
  | declaration => "DeclarationError"
  | value => "ValueError"
  | index => "IndexError"
  | endOfFile => "EOFError"
  | recursion => "RecursionError"

def LexicalFault.faultClass : LexicalFault → FaultClass
  | pastEnd .. => .endOfFile
  | beforeStart _ => .index
  | invalidNumber _ | unterminatedString _ => .malformed

def ParseFault.faultClass : ParseFault → FaultClass
  | unexpected .. => .unexpectedToken
  | constantWithoutValue _ | parameterNotName _ => .declaration
  | numberTooLarge _ | noEnd => .parse
  | numberMisspelt _ => .value
  | noToken | noIndex => .index
  | endless => .recursion

def SourceFault.faultClass : SourceFault → FaultClass
  | lexical fault => fault.faultClass
  | grammatical fault => fault.faultClass

end LocksetLang
