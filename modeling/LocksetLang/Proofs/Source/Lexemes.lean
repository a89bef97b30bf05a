import LocksetLang.Proofs.Grammar.Derivation
import LocksetLang.Proofs.Source.WellFormed
import LocksetLang.Source.Expression

/-! The lexemes of the source text of a tree, with parentheses where the text has them. -/

namespace LocksetLang.Source

def word (s : String) : Lexeme := ⟨(keywords.lookup s).getD .identifier, s⟩

def sign (s : String) : Lexeme := ⟨(symbols.lookup s).getD .unknown, s⟩

def wrapped (own asked : Nat) (ls : List Lexeme) : List Lexeme :=
  if own < asked then sign "(" :: (ls ++ [sign ")"]) else ls

def commaSeparated (lss : List (List Lexeme)) : List Lexeme := [sign ","].intercalate lss

mutual

def lexemes (asked : Nat) : Node → List Lexeme
  | .assignment target value => wrapped 0 asked (lexemes 1 target ++ sign "=" :: lexemes 0 value)
  | .object properties =>
    wrapped 1 asked (sign r"{" :: (commaSeparated (entriesLexemes properties) ++ [sign r"}"]))
  | .binary left right operator =>
    let own := (Node.binary left right operator).level
    wrapped own asked (lexemes own left ++ sign operator :: lexemes (own + 1) right)
  | .equality left operator right =>
    wrapped 5 asked (sign "(" :: (lexemes 0 left ++
      sign ((equalityOperators.lookup operator).getD "") :: (lexemes 0 right ++ [sign ")"])))
  | .call caller args =>
    wrapped 4 asked (lexemes 4 caller ++
      sign "(" :: (commaSeparated (expressionsLexemes args) ++ [sign ")"]))
  | .member owner name true =>
    wrapped 4 asked (lexemes 4 owner ++ sign "[" :: (lexemes 0 name ++ [sign "]"]))
  | .member owner (.identifier symbol) false =>
    -- a number before the dot stands in parentheses
    wrapped 4 asked (wrapped 0 (if owner.isNumber then 1 else 0) (lexemes 4 owner) ++
      [sign ".", word symbol])
  | .identifier symbol => wrapped 5 asked [word symbol]
  | .number value => wrapped 5 asked [⟨.number, value.literal?.getD ""⟩]
  | .string value => wrapped 5 asked [⟨.string, value⟩]
  | _ => []

def expressionsLexemes : List Node → List (List Lexeme)
  | [] => []
  | node :: rest => lexemes 0 node :: expressionsLexemes rest

def entryLexemes : Node → List Lexeme
  | .property key none => [word key]
  | .property key (some value) => word key :: sign ":" :: lexemes 0 value
  | _ => []

def entriesLexemes : List Node → List (List Lexeme)
  | [] => []
  | node :: rest => entryLexemes node :: entriesLexemes rest

end

mutual

def statementLexemes : Node → List Lexeme
  | .declaration name constant none =>
    [word (if constant then "lock" else "set"), word name, sign ";"]
  | .declaration name constant (some value) =>
    word (if constant then "lock" else "set") :: word name :: sign "=" ::
      (lexemes 0 value ++ [sign ";"])
  | .function name parameters body =>
    word "fun" :: word name :: sign "(" ::
      (commaSeparated (parameters.map fun p => [word p]) ++
        sign ")" :: sign r"{" :: (statementsLexemes body ++ [sign r"}"]))
  | .conditional condition consequent alternate =>
    word "if" :: (lexemes 0 condition ++
      (sign r"{" :: (statementsLexemes consequent ++ [sign r"}"]) ++ alternateLexemes alternate))
  | node => lexemes 0 node

def statementsLexemes : List Node → List Lexeme
  | [] => []
  | node :: rest => statementLexemes node ++ statementsLexemes rest

/-- What stands behind the closing brace of a conditional. -/
def alternateLexemes : Option (List Node) → List Lexeme
  | none => []
  | some [node] =>
    if node.isConditional then word "else" :: statementLexemes node
    else word "else" :: sign r"{" :: (statementLexemes node ++ [sign r"}"])
  | some body => word "else" :: sign r"{" :: (statementsLexemes body ++ [sign r"}"])

end

attribute [local simp] lexemes expressionsLexemes entryLexemes entriesLexemes statementLexemes
  statementsLexemes alternateLexemes

/-- Parameters are written as the arguments that name them. -/
theorem expressionsLexemes_identifiers (names : List String) :
    expressionsLexemes (names.map .identifier) = names.map fun name => [word name] := by
  induction names with
  | nil => simp
  | cons name names ih => simp [ih, wrapped]

theorem statementLexemes_of_isExpression {e : Node} (h : e.IsExpression) :
    statementLexemes e = lexemes 0 e := by
  cases h <;> simp

/-- A conditional alone goes on behind the word, and any other branch stands between braces. -/
theorem alternateLexemes_cases (ss : List Node) :
    (∃ s, ss = [s] ∧ s.isConditional ∧
      alternateLexemes (some ss) = word "else" :: statementLexemes s) ∨
    alternateLexemes (some ss) =
      word "else" :: sign r"{" :: (statementsLexemes ss ++ [sign r"}"]) := by
  rcases ss with - | ⟨s, - | ⟨t, ss⟩⟩
  · simp
  · by_cases hs : s.isConditional <;> simp [hs]
  · simp

end LocksetLang.Source
