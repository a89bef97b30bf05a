import LocksetLang.Grammar.Program

/-! A buffer of tokens with a position, on which single productions can be run. -/

namespace LocksetLang

/-- A position below zero counts from the end, and runs on into the whole list; one past the end
stays at the last token. -/
structure Buffer where
  tokens : List Token
  position : Int

namespace Buffer

def empty : Buffer := ⟨[], 0⟩

def ofTokens (tokens : List Token) : Buffer := ⟨tokens, 0⟩

def index (b : Buffer) (offset : Int) : Int := b.position + offset

/-- Why there is no token at an index. A list without tokens has none at any index. -/
def fault (b : Buffer) (i : Int) : ParseFault :=
  if isIndex i || b.tokens.length ≤ i then .noToken else .noIndex

def peek (b : Buffer) (offset : Int) : Except ParseFault Token :=
  let i := b.index offset
  let found :=
    if i < 0 then
      if 0 ≤ i + b.tokens.length then b.tokens[(i + b.tokens.length).toNat]? else none
    else (b.tokens[i.toNat]?).or b.tokens.getLast?
  match found with
  | some t => .ok t
  | none => .error (b.fault i)

/-- The tokens before the last one that are still ahead, and the last one; `none` if the position
leads to no token. -/
def ahead? (b : Buffer) : Option (List Token × Token) :=
  match b.tokens.getLast? with
  | none => none
  | some last =>
    if 0 ≤ b.position then some (b.tokens.dropLast.drop b.position.toNat, last)
    else if 0 ≤ b.position + b.tokens.length then
      some (b.tokens.drop (b.position + b.tokens.length).toNat ++ b.tokens.dropLast, last)
    else none

def leaving (b : Buffer) (ahead : List Token) : Buffer :=
  if b.position < b.tokens.length then
    ⟨b.tokens, (b.tokens.length : Int) - 1 - ahead.length⟩
  else b

/-- Runs a parser at the position, which moves also when the parser fails. -/
def run {α : Type} (b : Buffer) (p : Parser α) : Except ParseFault α × Buffer :=
  match b.ahead? with
  | none => (.error (b.fault b.position), b)
  | some (ahead, last) =>
    match p last ahead with
    | .value a ahead => (.ok a, b.leaving ahead)
    | .fault f ahead => (.error f, b.leaving ahead)
    | .unfinished => (.error .endless, b)

/-- Takes in a list of tokens and reads a program from it. A list without an end is not taken. -/
def parseTokens (b : Buffer) (tokens : List Token) : Except ParseFault Node × Buffer :=
  match tokens.getLast? with
  | none => (.error .noEnd, b)
  | some last =>
    if last.kind = .endOfInput then
      let (reply, b) := (ofTokens tokens).run (Grammar.full Grammar.program)
      (reply.map .program, b)
    else (.error .noEnd, b)

def load (b : Buffer) (source : String) : Except LexicalFault Nat × Buffer :=
  match tokenize source with
  | .error f => (.error f, b)
  | .ok tokens => (.ok tokens.length, ofTokens tokens)

def parse (b : Buffer) (source : String) : Except SourceFault Node × Buffer :=
  match tokenize source with
  | .error f => (.error (.lexical f), b)
  | .ok tokens =>
    let (reply, b) := b.parseTokens tokens
    (reply.mapError .grammatical, b)

end Buffer
end LocksetLang
