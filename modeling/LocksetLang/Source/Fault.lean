import LocksetLang.Binary64.Text
import LocksetLang.Limit
import LocksetLang.Node.Basic
import LocksetLang.Text.Quoted

/-! Why a tree cannot be written. -/

namespace LocksetLang

inductive PrintFault where
  /-- A node of this kind is no statement; a target is named if the writer was chosen by it. -/
  | notStatement (kind : String) (target : Option String)
  | notExpression (kind : String)
  | lacksPart (type part : String)
  | unknownComparison (operator : String)
  | memberWithoutName
  | notFinite (value : Binary64)
  | notProgram
  | unknownTarget (name : String)
  | unnamedTarget
  /-- No line can start with so many spaces. -/
  | tooWide

def PrintFault.message : PrintFault → String
  | notStatement kind none => "No emitter method for node kind '" ++ kind ++ "'"
  | notStatement kind (some target) =>
    "No emitter method for node kind '" ++ kind ++ "' (target " ++ target ++ ")"
  | notExpression kind => "No expression emitter for '" ++ kind ++ "'"
  | lacksPart type part => "'" ++ type ++ "' object has no attribute '" ++ part ++ "'"
  | unknownComparison operator => Text.quoted operator
  | memberWithoutName => "Non-computed member access requires an Identifier property"
  | notFinite value => "Cannot emit non-finite number: " ++ value.text Binary64.shortWords
  | notProgram => "Renderer expects a Program node."
  | unknownTarget name => "Unknown render target: " ++ Text.quoted name
  | unnamedTarget => "'list' object has no attribute 'lower'"
  | tooWide => noIndexMessage

def PrintFault.className : PrintFault → String
  | notStatement .. | notExpression _ => "NotImplementedError"
  | lacksPart .. | unnamedTarget => "AttributeError"
  | unknownComparison _ => "KeyError"
  | memberWithoutName | notProgram => "TypeError"
  | notFinite _ | unknownTarget _ => "ValueError"
  | tooWide => "OverflowError"

end LocksetLang
