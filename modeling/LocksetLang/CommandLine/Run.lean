import LocksetLang.CommandLine.Arguments
import LocksetLang.CommandLine.Shell
import LocksetLang.Grammar.Program
import LocksetLang.Text.Newline

/-! Running a command: a source is read, rendered, and shown or written to a file; or a session is
started. -/

namespace LocksetLang.CommandLine

inductive RunFault where
  | wrongExtension
  | file (fault : PathFault) (path : String)
  | undecodable
  | unencodable (fault : EncodeFault)
  /-- An indentation was asked for, but not given. -/
  | indentMissing
  | source (fault : SourceFault)
  | print (fault : PrintFault)

def RunFault.isMalformed : RunFault → Bool
  | source fault => fault.faultClass.isMalformed
  | _ => false

def RunFault.message : RunFault → String
  | wrongExtension => "Only .lks files are supported."
  | file fault path => fault.message path
  | undecodable => ""
  | unencodable fault => fault.message
  | indentMissing => "'>' not supported between instances of 'list' and 'int'"
  | source fault => fault.message
  | print fault => fault.message

/-- A source to be rendered: a text, or the path of a file that holds one. -/
structure Job where
  source : String
  isText : Bool
  format : Option String
  out : Option String
  indent : Option Int

/-- The text of a file: UTF-8, with one spelling for the ends of lines. -/
def decodeFile (content : ByteArray) : Except RunFault String :=
  match String.fromUTF8? content with
  | none => .error .undecodable
  | some text => .ok (String.ofList (Text.unifyNewlines text.toList))

def extension : String := ".lks"

variable {m : Type → Type} [Monad m]

namespace Job

def path? (job : Job) : Except RunFault (Option String) :=
  if job.isText then .ok none
  else if extension.toList.isSuffixOf job.source.toList then .ok (some job.source)
  else .error .wrongExtension

def sourceText (shell : Shell m) (job : Job) : ExceptT RunFault m String := do
  match ← job.path? with
  | none => return job.source
  | some path => decodeFile (← (shell.read path).adapt (.file · path))

def rendered (job : Job) (source : String) : Except RunFault String := do
  let program ← (parse source).mapError .source
  (renderFor job.format job.indent program).mapError .print

def text (shell : Shell m) (job : Job) : ExceptT RunFault m String := do
  job.rendered (← job.sourceText shell)

/-- The path of the file that the text is written to. An empty path stands for none. -/
def destination? (job : Job) : Option String := job.out.filter (· != "")

def written (text : String) : String := text ++ "\n"

/-- Shows a text, or writes it to a file that is opened only now. -/
def deliver (shell : Shell m) (job : Job) (text : String) : ExceptT RunFault m Unit := do
  match job.destination? with
  | none => (shell.print (written text)).adapt .unencodable
  | some path =>
    let file ← (shell.create path).adapt (.file · path)
    (shell.write file (written text)).adapt .unencodable

def run (shell : Shell m) (job : Job) : ExceptT RunFault m String := do
  let text ← job.text shell
  job.deliver shell text
  return text

end Job

/-- How a command ends. A fault other than one in the source itself is not handled. -/
inductive Exit where
  | status (code : Nat)
  | refused (refusal : Refusal)
  | fault (fault : RunFault)

inductive Request where
  | session (target : Option String) (verbose : Bool)
  | render (job : Job)

/-- The request that options make. A session is started if one is asked for or if there is no
source. JSON is indented only by a positive number. -/
def Options.request (o : Options) : Except RunFault Request :=
  match o.source, o.repl with
  | some source, false =>
    match o.indent with
    | none => .error .indentMissing
    | some n => .ok (.render ⟨source, o.isText, o.format, o.out, if 0 < n then some n else none⟩)
  | _, _ => .ok (.session o.format o.verbose)

def request (args : List String) : Except Exit Request :=
  if args.isEmpty then .ok (.session (some "source") false)
  else match parseArguments args with
    | .error refusal => .error (.refused refusal)
    | .ok options => options.request.mapError .fault

def report (fault : RunFault) : String := "[error] >>> " ++ fault.message ++ "\n"

def Job.main (shell : Shell m) (job : Job) : m Exit := do
  match ← (job.run shell).run with
  | .ok _ => return .status 0
  | .error fault =>
    if fault.isMalformed then
      shell.printError (report fault)
      return .status 1
    else return .fault fault

def command (shell : Shell m) (args : List String) : m Exit := do
  match request args with
  | .error exit => return exit
  | .ok (.session target verbose) =>
    shell.converse target verbose
    return .status 0
  | .ok (.render job) => job.main shell

end LocksetLang.CommandLine
