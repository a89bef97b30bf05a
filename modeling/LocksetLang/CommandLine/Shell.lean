import LocksetLang.Text.Encoding
import LocksetLang.Text.Quoted

/-! What a command can do to the files and to the screen. Commands are written for any shell, so the
ones that run are those that results are about. -/

namespace LocksetLang

inductive PathFault where
  | missing
  | denied
  | notFolder
  | isFolder
  | nameTooLong
  | hasNull

def PathFault.message (path : String) : PathFault → String
  | missing => "[Errno 2] No such file or directory: " ++ Text.quoted path
  | denied => "[Errno 13] Permission denied: " ++ Text.quoted path
  | notFolder => "[Errno 20] Not a directory: " ++ Text.quoted path
  | isFolder => "[Errno 21] Is a directory: " ++ Text.quoted path
  | nameTooLong => "[Errno 36] File name too long: " ++ Text.quoted path
  | hasNull => "embedded null byte"

structure Shell (m : Type → Type) where
  Handle : Type
  read : String → ExceptT PathFault m ByteArray
  /-- Opens a file for writing. What it held before is gone then. -/
  create : String → ExceptT PathFault m Handle
  /-- Writes a text, or nothing of it. -/
  write : Handle → String → ExceptT EncodeFault m Unit
  /-- Shows a text, or nothing of it. -/
  print : String → ExceptT EncodeFault m Unit
  printError : String → m Unit
  /-- Holds a session, with a target and with the trees shown or not. -/
  converse : Option String → Bool → m Unit

end LocksetLang
