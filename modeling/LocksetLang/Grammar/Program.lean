import LocksetLang.Grammar.Productions
import LocksetLang.Token.Reading

/-! Programs from tokens and from text. -/

namespace LocksetLang

/-- The program that a token list makes up. The list has to end with the token for the end of the
input; whatever is behind an earlier one is not looked at. -/
def parseTokens (tokens : List Token) : Except ParseFault Node :=
  match tokens.getLast? with
  | none => .error .noEnd
  | some last =>
    if last.kind = .endOfInput then
      match Grammar.full Grammar.program last tokens.dropLast with
      | .value body _ => .ok (.program body)
      | .fault f _ => .error f
      | .unfinished => .error .endless
    else .error .noEnd

def parse (source : String) : Except SourceFault Node :=
  match tokenize source with
  | .error f => .error (.lexical f)
  | .ok tokens => (parseTokens tokens).mapError .grammatical

end LocksetLang
