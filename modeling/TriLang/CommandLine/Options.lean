/-!
# Command-line options

An invocation names a source and two output paths, `INPUT BINARY TEXT`, or asks with `--emit` for a dump
of the source instead, in which case the output paths may be left out. Options stand anywhere among the
paths, up to a lone `--`, behind which every argument is a path. `--format` and `--emit` take a value,
in the next argument or behind `=`, and are given at most once. The flags `v` and `q`, which may be
joined as in `-vv`, ask for more or for fewer progress messages, and exclude each other.

Main definitions: `Options`, `UsageError`, `Options.ofArguments`.
-/
namespace TriLang
set_option autoImplicit false

inductive ReportFormat where
  | human
  | json
deriving DecidableEq

inductive DumpForm where
  | tokens
  | tree
deriving DecidableEq

inductive Task where
  /-- Writes a dump to the standard output. -/
  | dump (form : DumpForm)
  /-- Compiles to a binary and a text file. -/
  | compile (binary text : String)
deriving DecidableEq

structure Options where
  input : String
  task : Task
  format : ReportFormat
  /-- How many more progress messages are wanted than usual. They are no part of a run's result. -/
  verbosity : Int
deriving DecidableEq

inductive UsageError where
  | unknownOption (argument : String)
  | missingValue (option : String)
  | invalidValue (option value : String)
  | repeatedOption (option : String)
  | emptyPath
  | surplusPath (path : String)
  | missingInput
  | missingOutput
  | verboseAndQuiet
  | tooVerbose
  | tooQuiet
deriving DecidableEq

/-- What is said of arguments that cannot be understood. -/
def UsageError.message : UsageError → String
  | unknownOption argument => "unexpected argument `" ++ argument ++ "`"
  | missingValue option => "a value is required for `" ++ option ++ "`"
  | invalidValue option value => "invalid value `" ++ value ++ "` for `" ++ option ++ "`"
  | repeatedOption option => "`" ++ option ++ "` cannot be used multiple times"
  | emptyPath => "a path cannot be empty"
  | surplusPath path => "unexpected argument `" ++ path ++ "`"
  | missingInput => "the path of the source is required"
  | missingOutput => "the paths of the binary and the text output are required"
  | verboseAndQuiet => "`-v` cannot be used with `-q`"
  | tooVerbose => "`-v` can be used at most three times"
  | tooQuiet => "`-q` can be used at most twice"

/-! ## Reading arguments one by one -/

inductive ValuedOption where
  | format
  | emit
deriving DecidableEq

def ValuedOption.spelling : ValuedOption → String
  | format => "--format"
  | emit => "--emit"

/-- The option that is written in a given way. -/
def ValuedOption.ofSpelling? (text : List Char) : Option ValuedOption :=
  [format, emit].find? fun option => option.spelling.toList = text

structure Invocation where
  paths : List String
  format? : Option ReportFormat
  emit? : Option DumpForm
  verbose : Nat
  quiet : Nat

namespace Invocation

def empty : Invocation := ⟨[], none, none, 0, 0⟩

def addPath (i : Invocation) (path : String) : Except UsageError Invocation :=
  if path.isEmpty then .error .emptyPath else .ok { i with paths := i.paths ++ [path] }

def addValue (i : Invocation) (option : ValuedOption) (value : String) :
    Except UsageError Invocation :=
  match option with
  | .format =>
    if i.format?.isSome then .error (.repeatedOption option.spelling)
    else if value = "human" then .ok { i with format? := some .human }
    else if value = "json" then .ok { i with format? := some .json }
    else .error (.invalidValue option.spelling value)
  | .emit =>
    if i.emit?.isSome then .error (.repeatedOption option.spelling)
    else if value = "tokens" then .ok { i with emit? := some .tokens }
    else if value = "ast" then .ok { i with emit? := some .tree }
    else .error (.invalidValue option.spelling value)

def addFlags (i : Invocation) (argument : String) : List Char → Except UsageError Invocation
  | [] => .ok i
  | 'v' :: flags => addFlags { i with verbose := i.verbose + 1 } argument flags
  | 'q' :: flags => addFlags { i with quiet := i.quiet + 1 } argument flags
  | _ :: _ => .error (.unknownOption argument)

end Invocation

inductive Argument where
  /-- The mark behind which every argument is a path. -/
  | separator
  | path (text : String)
  /-- An option whose value is the next argument. -/
  | option (option : ValuedOption)
  | optionWithValue (option : ValuedOption) (value : String)
  | flags (letters : List Char)
  | unknown
deriving DecidableEq

/-- Sorts out an argument. A lone `-` is a path. -/
def Argument.classify (argument : String) : Argument :=
  match argument.toList with
  | ['-'] => path argument
  | ['-', '-'] => separator
  | '-' :: '-' :: _ =>
    let name := argument.toList.takeWhile (· ≠ '=')
    match ValuedOption.ofSpelling? name, argument.toList.drop name.length with
    | some valued, [] => option valued
    | some valued, _ :: value => optionWithValue valued (String.ofList value)
    | none, _ => unknown
  | '-' :: letters => flags letters
  | _ => path argument

/-- Whether an argument can be the value of the option before it. -/
def isOptionValue (argument : String) : Bool := argument.toList.head? ≠ some '-'

namespace Invocation

def read (i : Invocation) : List String → Except UsageError Invocation
  | [] => .ok i
  | argument :: rest =>
    match Argument.classify argument, rest with
    | .separator, rest => rest.foldlM addPath i
    | .path text, rest => (i.addPath text).bind (·.read rest)
    | .flags letters, rest => (i.addFlags argument letters).bind (·.read rest)
    | .optionWithValue option value, rest => (i.addValue option value).bind (·.read rest)
    | .option option, [] => .error (.missingValue option.spelling)
    | .option option, value :: rest =>
      if isOptionValue value then (i.addValue option value).bind (·.read rest)
      else .error (.missingValue option.spelling)
    | .unknown, _ => .error (.unknownOption argument)

/-- Checks the numbers of flags and gives how many more messages than usual they ask for. -/
def verbosity (i : Invocation) : Except UsageError Int :=
  if 0 < i.verbose ∧ 0 < i.quiet then .error .verboseAndQuiet
  else if 3 < i.verbose then .error .tooVerbose
  else if 2 < i.quiet then .error .tooQuiet
  else .ok (i.verbose - i.quiet)

/-- The source and what is to be done with it. A dump needs no output paths, and takes no notice of
them. -/
def inputAndTask (i : Invocation) : Except UsageError (String × Task) :=
  match i.paths, i.emit? with
  | _ :: _ :: _ :: surplus :: _, _ => .error (.surplusPath surplus)
  | [], _ => .error .missingInput
  | input :: _, some form => .ok (input, .dump form)
  | [input, binary, text], none => .ok (input, .compile binary text)
  | _ :: _, none => .error .missingOutput

end Invocation

def Options.ofArguments (arguments : List String) : Except UsageError Options := do
  let invocation ← Invocation.empty.read arguments
  let verbosity ← invocation.verbosity
  let (input, task) ← invocation.inputAndTask
  return ⟨input, task, invocation.format?.getD .human, verbosity⟩

/-- Whether colours are wanted: refusing them counts more than asking for them. -/
def colourWanted (refused asked : Bool) : Bool := asked && !refused

end TriLang
