import LocksetLang.Source.Fault
import LocksetLang.Token.Lexeme

/-! Expressions as source text, with parentheses only where an operand binds looser than its
position asks for. -/

namespace LocksetLang.Source

/-- A string is written between double quotes, unless it has one that is not escaped. -/
def quoteOf (value : String) : String :=
  if Lexeme.hasUnescaped '"' value.toList then "'" else "\""

def stringText (value : String) : String :=
  quoteOf value ++ value ++ quoteOf value

/-- Puts parentheses around a text whose level is below the one asked for. -/
def parenthesized (own asked : Nat) (text : String) : String :=
  if own < asked then "(" ++ text ++ ")" else text

mutual

def expression (asked : Nat) : Node → Except PrintFault String
  | .assignment target value => do
    let target ← expression 1 target
    let value ← expression 0 value
    return parenthesized 0 asked (target ++ " = " ++ value)
  | .object properties => do
    let entries ← entryTexts properties
    return parenthesized 1 asked <|
      if entries.isEmpty then "{}" else r"{ " ++ ", ".intercalate entries ++ r" }"
  | .binary left right operator => do
    let own := (Node.binary left right operator).level
    let left ← expression own left
    let right ← expression (own + 1) right
    return parenthesized own asked (left ++ " " ++ operator ++ " " ++ right)
  | .equality left operator right => do
    match equalityOperators.lookup operator with
    | none => throw (.unknownComparison operator)
    | some sign =>
      let left ← expression 0 left
      let right ← expression 0 right
      return parenthesized 5 asked ("(" ++ left ++ " " ++ sign ++ " " ++ right ++ ")")
  | .call caller args => do
    let caller ← expression 4 caller
    let args ← expressions args
    return parenthesized 4 asked (caller ++ "(" ++ ", ".intercalate args ++ ")")
  | .member owner name true => do
    let owner ← expression 4 owner
    let index ← expression 0 name
    return parenthesized 4 asked (owner ++ "[" ++ index ++ "]")
  | .member owner name false => do
    let text ← expression 4 owner
    match name with
    | .identifier symbol =>
      -- a number before the dot would take the dot for its own point
      let text := if owner.isNumber then "(" ++ text ++ ")" else text
      return parenthesized 4 asked (text ++ "." ++ symbol)
    | _ => throw .memberWithoutName
  | .identifier symbol => return parenthesized 5 asked symbol
  | .number value =>
    match value.literal? with
    | some text => return parenthesized 5 asked text
    | none => throw (.notFinite value)
  | .string value => return parenthesized 5 asked (stringText value)
  | node => throw (.notExpression node.kind)

def expressions : List Node → Except PrintFault (List String)
  | [] => return []
  | node :: rest => do
    let text ← expression 0 node
    return text :: (← expressions rest)

/-- An entry of an object literal. Of a node that is none, the value is looked for first. -/
def entryText : Node → Except PrintFault String
  | .property key none => return key
  | .property key (some value) => do
    let value ← expression 0 value
    return key ++ ": " ++ value
  | node => throw (.lacksPart node.typeName (if node.isValued then "key" else "value"))

def entryTexts : List Node → Except PrintFault (List String)
  | [] => return []
  | node :: rest => do
    let text ← entryText node
    return text :: (← entryTexts rest)

end

end LocksetLang.Source
