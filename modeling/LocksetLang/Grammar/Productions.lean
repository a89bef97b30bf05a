import LocksetLang.Binary64.Numeral
import LocksetLang.Grammar.Parser
import LocksetLang.Node.Basic

/-! The grammar of the language, one parser for each production, with one token of lookahead. An
expression goes down a ladder from the loosest binding to the tightest: assignment, object, sum,
product, call, member, primary. Every parser is given a depth that bounds how often productions may
call each other in turn. -/

namespace LocksetLang.Grammar

open LocksetLang.Parser

/-- The number that a token spells, which has to be finite. -/
def numberOf (t : Token) : Parser Node :=
  match Binary64.ofText? t.value with
  | none => fail (.numberMisspelt t)
  | some x => if x.isFinite then pure (.number x) else fail (.numberTooLarge t)

def parameterNames : List (Token × Node) → Parser (List String)
  | [] => return []
  | (_, .identifier name) :: rest => do return name :: (← parameterNames rest)
  | (start, _) :: _ => fail (.parameterNotName start)

mutual

/-- A name, a number, a string, or an expression in parentheses, the only place for comparisons. -/
def primary : (depth : Nat) → Parser Node
  | 0 => unfinished
  | depth + 1 => do
    let t ← peek
    match t.kind with
    | .identifier => return .identifier (← advance).value
    | .number => numberOf (← advance)
    | .string => return .string (← advance).value
    | .leftParen =>
      let _ ← advance
      let left ← expression depth
      let t ← peek
      let inner ←
        if t.kind = .doubleEquals || t.kind = .notEquals then do
          let _ ← advance
          pure (.equality left t.kind.name (← expression depth))
        else pure left
      let _ ← expect .groupEnd
      return inner
    | _ => fail (.unexpected .expression t)

/-- Any chain of `.name` and `[index]` behind `owner`. -/
def memberTail : (depth : Nat) → (owner : Node) → Parser Node
  | 0, _ => unfinished
  | depth + 1, owner => do
    let t ← peek
    if t.kind = .dot then
      let _ ← advance
      let name ← expect .memberName
      memberTail depth (.member owner (.identifier name.value) false)
    else if t.kind = .leftBracket then
      let _ ← advance
      let index ← expression depth
      let _ ← expect .indexEnd
      memberTail depth (.member owner index true)
    else return owner

def member : (depth : Nat) → Parser Node
  | 0 => unfinished
  | depth + 1 => do memberTail depth (← primary depth)

def argumentList : (depth : Nat) → Parser (List (Token × Node))
  | 0 => unfinished
  | depth + 1 => do
    let start ← peek
    let arg ← expression depth
    if (← peek).kind = .comma then
      let _ ← advance
      return (start, arg) :: (← argumentList depth)
    else return [(start, arg)]

def locatedArguments : (depth : Nat) → Parser (List (Token × Node))
  | 0 => unfinished
  | depth + 1 => do
    let _ ← expect .argumentsStart
    let args ← if (← peek).kind = .rightParen then pure [] else argumentList depth
    let _ ← expect .argumentsEnd
    return args

/-- A call of `caller`, and whatever is called or accessed on its result in turn. -/
def call : (depth : Nat) → (caller : Node) → Parser Node
  | 0, _ => unfinished
  | depth + 1, caller => do
    let args ← locatedArguments depth
    let result ← memberTail depth (.call caller (args.map (·.2)))
    if (← peek).kind = .leftParen then call depth result else return result

def callOrMember : (depth : Nat) → Parser Node
  | 0 => unfinished
  | depth + 1 => do
    let callee ← member depth
    if (← peek).kind = .leftParen then call depth callee else return callee

def productTail : (depth : Nat) → (left : Node) → Parser Node
  | 0, _ => unfinished
  | depth + 1, left => do
    if ← atOperator multiplicativeOperators then
      let operator ← advance
      let right ← callOrMember depth
      productTail depth (.binary left right operator.value)
    else return left

/-- Products group to the left. -/
def product : (depth : Nat) → Parser Node
  | 0 => unfinished
  | depth + 1 => do productTail depth (← callOrMember depth)

def sumTail : (depth : Nat) → (left : Node) → Parser Node
  | 0, _ => unfinished
  | depth + 1, left => do
    if ← atOperator additiveOperators then
      let operator ← advance
      let right ← product depth
      sumTail depth (.binary left right operator.value)
    else return left

/-- Sums group to the left. -/
def sum : (depth : Nat) → Parser Node
  | 0 => unfinished
  | depth + 1 => do sumTail depth (← product depth)

/-- Entries `key` and `key: value`, with commas between them. -/
def properties : (depth : Nat) → Parser (List Node)
  | 0 => unfinished
  | depth + 1 => do
    if ← atListEnd then return []
    else
      let key ← expect .objectKey
      let t ← peek
      if t.kind = .comma then
        let _ ← advance
        return .property key.value none :: (← properties depth)
      else if t.kind = .rightBrace then return [.property key.value none]
      else
        let _ ← expect .objectColon
        let value ← expression depth
        if (← peek).kind = .rightBrace then return [.property key.value (some value)]
        else
          let _ ← expect .objectComma
          return .property key.value (some value) :: (← properties depth)

def object : (depth : Nat) → Parser Node
  | 0 => unfinished
  | depth + 1 => do
    if (← peek).kind = .leftBrace then
      let _ ← advance
      let entries ← properties depth
      let _ ← expect .objectEnd
      return .object entries
    else sum depth

/-- Assignments group to the right. The target may be any expression. -/
def expression : (depth : Nat) → Parser Node
  | 0 => unfinished
  | depth + 1 => do
    let target ← object depth
    if (← peek).kind = .equals then
      let _ ← advance
      return .assignment target (← expression depth)
    else return target

end

/-- `set name;`, `set name = value;` or `lock name = value;`. -/
def declaration (depth : Nat) : Parser Node := do
  let constant := (← advance).kind = .lockWord
  let name ← expect .declaredName
  if (← peek).kind = .semicolon then
    let _ ← advance
    if constant then fail (.constantWithoutValue name)
    else return .declaration name.value false none
  else
    let _ ← expect .declaredEquals
    let value ← expression depth
    let _ ← expect .declarationEnd
    return .declaration name.value constant (some value)

mutual

/-- Statements up to a closing brace or the end of the input. -/
def statements : (depth : Nat) → Parser (List Node)
  | 0 => unfinished
  | depth + 1 => do
    if ← atListEnd then return []
    else
      let first ← statement depth
      return first :: (← statements depth)

/-- Statements in braces; `name` is what messages call the block. -/
def block : (depth : Nat) → (name : String) → Parser (List Node)
  | 0, _ => unfinished
  | depth + 1, name => do
    let _ ← expect (.blockStart name)
    let body ← statements depth
    let _ ← expect (.blockEnd name)
    return body

/-- The parameters are checked before the body is looked at. -/
def function : (depth : Nat) → Parser Node
  | 0 => unfinished
  | depth + 1 => do
    let _ ← advance
    let name ← expect .functionName
    let parameters ← parameterNames (← locatedArguments depth)
    let body ← block depth "function body"
    return .function name.value parameters body

/-- What follows `else`, if it is there. Behind `else if` stands one nested statement. -/
def alternate : (depth : Nat) → Parser (Option (List Node))
  | 0 => unfinished
  | depth + 1 => do
    if (← peek).kind = .elseWord then
      let _ ← advance
      if (← peek).kind = .ifWord then return some [← conditional depth]
      else return some (← block depth "alternate block")
    else return none

def conditional : (depth : Nat) → Parser Node
  | 0 => unfinished
  | depth + 1 => do
    let _ ← expect .ifWord
    let condition ← expression depth
    let consequent ← block depth "consequent block"
    return .conditional condition consequent (← alternate depth)

/-- An expression that stands alone is a statement, and nothing ends it. -/
def statement : (depth : Nat) → Parser Node
  | 0 => unfinished
  | depth + 1 => do
    match (← peek).kind with
    | .setWord | .lockWord => declaration depth
    | .funWord => function depth
    | .ifWord => conditional depth
    | _ => expression depth

end

def program : (depth : Nat) → Parser (List Node)
  | 0 => unfinished
  | depth + 1 => do
    if (← peek).kind = .endOfInput then return []
    else
      let first ← statement depth
      return first :: (← program depth)

/-- A depth at which all productions finish on these tokens, if an end of input stands behind them:
between one token and the next, fewer than sixteen productions begin. -/
def depthFor (ahead : List Token) : Nat := 16 * (ahead.length + 2)

def full {α : Type} (production : Nat → Parser α) : Parser α := fun last ahead =>
  production (depthFor ahead) last ahead

end LocksetLang.Grammar
