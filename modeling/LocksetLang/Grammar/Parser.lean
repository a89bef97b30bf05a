import LocksetLang.Grammar.Fault

/-! Parsers: readers of token lists. A list is seen as the tokens ahead and, behind them, a last
token that is never used up, so that there is always a next token. -/

namespace LocksetLang

/-- The outcome of a parser, with the tokens that are ahead afterwards. A parser that was not given
enough depth leaves its work unfinished. -/
inductive Reply (α : Type) where
  | value (a : α) (ahead : List Token)
  | fault (f : ParseFault) (ahead : List Token)
  | unfinished

def Parser (α : Type) : Type := (last : Token) → (ahead : List Token) → Reply α

namespace Parser

variable {α β : Type}

@[always_inline, inline]
protected def pure (a : α) : Parser α := fun _ ahead => .value a ahead

@[always_inline, inline]
protected def bind (p : Parser α) (f : α → Parser β) : Parser β := fun last ahead =>
  match p last ahead with
  | .value a ahead => f a last ahead
  | .fault e ahead => .fault e ahead
  | .unfinished => .unfinished

@[always_inline]
instance : Monad Parser where
  pure := Parser.pure
  bind := Parser.bind

def fail (e : ParseFault) : Parser α := fun _ ahead => .fault e ahead

def unfinished : Parser α := fun _ _ => .unfinished

def peek : Parser Token := fun last ahead => .value (ahead.headD last) ahead

/-- The next token, which is used up unless it is the last. -/
def advance : Parser Token := fun last ahead => .value (ahead.headD last) ahead.tail

/-- The next token, which is used up and must meet the demand. -/
def expect (d : Demand) : Parser Token := do
  let t ← advance
  if t.kind = d.kind then return t else fail (.unexpected d t)

/-- Whether a token that is one of the operators comes next. A string may have the same value. -/
def atOperator (operators : List String) : Parser Bool := do
  let t ← peek
  return t.kind = .operator && operators.contains t.value

def atListEnd : Parser Bool := do
  let t ← peek
  return t.kind = .endOfInput || t.kind = .rightBrace

end Parser
end LocksetLang
