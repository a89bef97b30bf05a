import LocksetLang.Rendering
import LocksetLang.Text.Numeral

/-! Command line arguments. Options may be shortened to what tells their long names apart, take a
value from the same argument or from the next, and be run together when their names are single
letters; the source stands anywhere between them. -/

namespace LocksetLang.CommandLine

inductive Opt where
  | help | string | format | out | indent | repl | verbose
  deriving DecidableEq

def Opt.takesValue : Opt → Bool
  | .format | .out | .indent => true
  | .help | .string | .repl | .verbose => false

def optionNames : List (String × Opt) :=
  [("-h", .help), ("--help", .help), ("-s", .string), ("--string", .string), ("-f", .format),
    ("--format", .format), ("-o", .out), ("--out", .out), ("--indent", .indent),
    ("--repl", .repl), ("--verbose", .verbose)]

/-- What is asked for. The format and the indentation are `none` if the option was given, but two
minus signs stood in place of its value. -/
structure Options where
  source : Option String
  isText : Bool
  format : Option String
  out : Option String
  indent : Option Int
  repl : Bool
  verbose : Bool
  deriving DecidableEq

def Options.default : Options := ⟨none, false, some "source", none, some 2, false, false⟩

/-- Why arguments give no options: help was asked for, or they are not understood. -/
inductive Refusal where
  | help
  | misuse
  deriving DecidableEq

def Refusal.status : Refusal → Nat
  | help => 0
  | misuse => 2

/-- What an argument is. An option that is not known has no name; one that is known may have text
behind it in the same argument. -/
inductive Role where
  | value
  | separator
  | option (name : String) (opt : Opt) (attached : Option (List Char))
  | unknownOption

def splitEquals (cs : List Char) : List Char × Option (List Char) :=
  match cs.span (· != '=') with
  | (before, _ :: behind) => (before, some behind)
  | (before, []) => (before, none)

/-- A minus with digits, and with a point before the last of them if there is one. -/
def isNegativeNumber : List Char → Bool
  | '-' :: cs =>
    let body := if cs.getLast? = some '\n' then cs.dropLast else cs
    let whole := body.takeWhile Text.isDecimalDigit
    match body.drop whole.length with
    | [] => !whole.isEmpty
    | '.' :: fraction => !fraction.isEmpty && fraction.all Text.isDecimalDigit
    | _ => false
  | _ => false

/-- The options that an argument can mean when it is not the whole name of one: long names may be
cut off, and a single letter may have text right behind it. -/
def candidates (cs : List Char) : List (String × Opt × Option (List Char)) :=
  match cs with
  | '-' :: '-' :: _ =>
    let (start, behind) := splitEquals cs
    optionNames.filterMap fun (name, opt) =>
      if start.isPrefixOf name.toList then some (name, opt, behind) else none
  | '-' :: c :: text =>
    optionNames.filterMap fun (name, opt) =>
      if name.toList = ['-', c] then some (name, opt, some text) else none
  | _ => []

/-- What an argument is, as long as no separator came before it. -/
def roleOf (arg : String) : Except Refusal Role :=
  let cs := arg.toList
  if arg = "--" then .ok .separator
  else if cs.head? ≠ some '-' then .ok .value
  else match optionNames.lookup arg with
    | some opt => .ok (.option arg opt none)
    | none =>
      if cs.length = 1 then .ok .value
      else
        let (start, behind) := splitEquals cs
        match optionNames.lookup (String.ofList start), behind with
        | some opt, some text => .ok (.option (String.ofList start) opt (some text))
        | _, _ =>
          match candidates cs with
          | [(name, opt, attached)] => .ok (.option name opt attached)
          | _ :: _ => .error .misuse
          | [] =>
            if isNegativeNumber cs || cs.contains ' ' then .ok .value else .ok .unknownOption

/-- All arguments with their roles. Behind a separator there are values only. -/
def roles : List String → Except Refusal (List (String × Role))
  | [] => .ok []
  | arg :: rest => do
    match ← roleOf arg with
    | .separator => return (arg, .separator) :: rest.map (·, .value)
    | role => return (arg, role) :: (← roles rest)

def Options.apply (o : Options) (opt : Opt) (value : Option String) : Except Refusal Options :=
  match opt with
  | .help => .error .help
  | .string => .ok { o with isText := true }
  | .repl => .ok { o with repl := true }
  | .verbose => .ok { o with verbose := true }
  | .out => .ok { o with out := value }
  | .format =>
    if value.all targetNames.contains then .ok { o with format := value } else .error .misuse
  | .indent =>
    match value.map Text.integer? with
    | none => .ok { o with indent := none }
    | some (some n) => .ok { o with indent := some n }
    | some none => .error .misuse

def Options.applyAll (o : Options) (given : List (Opt × Option String)) : Except Refusal Options :=
  given.foldlM (fun o (opt, value) => o.apply opt value) o

/-- What the options in one argument come to: those with their values in turn, and one that still
waits for the next argument. -/
structure Cluster where
  complete : List (Opt × Option String)
  waiting : Option Opt

/-- The value that stands right behind an option. Two minus signs are no value. -/
def attachedValue (text : List Char) : Option String :=
  if text = ['-', '-'] then none else some (String.ofList text)

/-- Options named by single letters: `opt`, and those that the text behind it names. All text behind
an option that takes a value is the value. -/
def lettersFrom (opt : Opt) (text : List Char) : Except Refusal Cluster :=
  if opt.takesValue then
    .ok (if text.isEmpty then ⟨[], some opt⟩ else ⟨[(opt, attachedValue text)], none⟩)
  else match text with
    | [] => .ok ⟨[(opt, none)], none⟩
    | c :: rest =>
      match optionNames.lookup (String.ofList ['-', c]) with
      | none => .error .misuse
      | some next => do
        let behind ← lettersFrom next rest
        return { behind with complete := (opt, none) :: behind.complete }

/-- The options in an argument, beginning with `opt`, which has a name of a single letter or not. -/
def clusterOf (single : Bool) (opt : Opt) : Option (List Char) → Except Refusal Cluster
  | none => lettersFrom opt []
  | some text =>
    if opt.takesValue then .ok ⟨[(opt, attachedValue text)], none⟩
    else if single && !text.isEmpty then lettersFrom opt text
    else .error .misuse

/-- Goes through the arguments from left to right. The source may be given once; `stray` tells
whether something came that has no meaning, which is an error only when all else was understood. -/
def interpret (o : Options) (sourceDone stray : Bool) :
    List (String × Role) → Except Refusal Options
  | [] => if stray then .error .misuse else .ok o
  | (_, .unknownOption) :: rest => interpret o sourceDone true rest
  | (arg, .value) :: rest =>
    if sourceDone then interpret o true true rest
    else
      let o := { o with source := some arg }
      match rest with
      | (_, .separator) :: rest => interpret o true stray rest
      | rest => interpret o true stray rest
  | (_, .separator) :: rest =>
    if sourceDone then interpret o true true rest
    else match rest with
      | (arg, .value) :: rest => interpret { o with source := some arg } true stray rest
      | rest => interpret o true stray rest
  | (_, .option name opt attached) :: rest => do
    let cluster ← clusterOf (name.length = 2) opt attached
    match cluster.waiting with
    | none => interpret (← o.applyAll cluster.complete) sourceDone stray rest
    | some opt =>
      match rest with
      | (value, .value) :: rest =>
        interpret (← o.applyAll (cluster.complete ++ [(opt, some value)])) sourceDone stray rest
      | _ => .error .misuse

def parseArguments (args : List String) : Except Refusal Options := do
  interpret .default false false (← roles args)

end LocksetLang.CommandLine
