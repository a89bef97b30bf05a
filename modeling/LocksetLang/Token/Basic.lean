/-! Tokens, and the words and signs of the language. A token knows the line and the column at which
it starts, both counted from one. -/

namespace LocksetLang

/-- What a token is. Besides the kinds that reading a text gives, a token made by hand may be of
any `other` kind, which no grammar rule accepts. -/
inductive Kind where
  | setWord | lockWord | funWord | ifWord | elseWord
  | leftBrace | rightBrace | leftParen | rightParen | leftBracket | rightBracket
  | dot | comma | colon | semicolon
  | equals | doubleEquals | notEquals | operator
  | identifier | number | string | unknown | endOfInput
  | other (name : String)
  deriving DecidableEq

namespace Kind

def name : Kind → String
  | setWord => "SET"
  | lockWord => "LOCK"
  | funWord => "FUN"
  | ifWord => "IF"
  | elseWord => "ELSE"
  | leftBrace => "LBRACE"
  | rightBrace => "RBRACE"
  | leftParen => "LPAREN"
  | rightParen => "RPAREN"
  | leftBracket => "LBRACK"
  | rightBracket => "RBRACK"
  | dot => "DOT"
  | comma => "COMMA"
  | colon => "COLON"
  | semicolon => "SEMICOLON"
  | equals => "EQUALS"
  | doubleEquals => "DOUBLE_EQUALS"
  | notEquals => "NOT_EQUALS"
  | operator => "BINARY_OP"
  | identifier => "IDENT"
  | number => "NUMBER"
  | string => "STRING"
  | unknown => "ERROR"
  | endOfInput => "EOF"
  | other name => name

/-- The kinds that reading a text can give, in the order of their names. -/
def all : List Kind :=
  [operator, colon, comma, dot, doubleEquals, elseWord, endOfInput, equals, unknown, funWord,
    identifier, ifWord, leftBrace, leftBracket, lockWord, leftParen, notEquals, number, rightBrace,
    rightBracket, rightParen, semicolon, setWord, string]

def ofName (name : String) : Kind :=
  (all.find? fun k => k.name == name).getD (.other name)

end Kind

def keywords : List (String × Kind) :=
  [("set", .setWord), ("lock", .lockWord), ("fun", .funWord), ("if", .ifWord), ("else", .elseWord)]

def symbols : List (String × Kind) :=
  [(r"{", .leftBrace), (r"}", .rightBrace), ("(", .leftParen), (")", .rightParen),
    ("[", .leftBracket), ("]", .rightBracket), (".", .dot), (",", .comma), (":", .colon),
    (";", .semicolon), ("=", .equals), ("==", .doubleEquals), ("!=", .notEquals),
    ("+", .operator), ("-", .operator), ("*", .operator), ("/", .operator), ("%", .operator)]

/-- How many characters a sign may have, the longest first. -/
def symbolLengths : List Nat := [2, 1]

def additiveOperators : List String := ["+", "-"]

def multiplicativeOperators : List String := ["*", "/", "%"]

def binaryOperators : List String := additiveOperators ++ multiplicativeOperators

/-- The comparisons: the name by which a tree holds each, and its sign. -/
def equalityOperators : List (String × String) :=
  [(Kind.doubleEquals.name, "=="), (Kind.notEquals.name, "!=")]

structure Place where
  line : Int
  column : Int
  deriving DecidableEq

namespace Place

def next (p : Place) (c : Char) : Place :=
  if c = '\n' then ⟨p.line + 1, 1⟩ else ⟨p.line, p.column + 1⟩

def after (p : Place) (cs : List Char) : Place := cs.foldl next p

theorem after_append (p : Place) (as bs : List Char) :
    p.after (as ++ bs) = (p.after as).after bs :=
  List.foldl_append

def start : Place := ⟨1, 1⟩

end Place

structure Token where
  kind : Kind
  value : String
  place : Place
  deriving DecidableEq

def Token.description (t : Token) : String :=
  "Token(" ++ t.kind.name ++ ", " ++ t.value ++ ")"

end LocksetLang
