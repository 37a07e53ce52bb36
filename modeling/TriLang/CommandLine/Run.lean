import TriLang.CommandLine.Files
import TriLang.CommandLine.Options
import TriLang.Compilation.Listing
import TriLang.Diagnostic.Rendering
import TriLang.Diagnostic.Report
import TriLang.Syntax.Dump

/-!
# A run of the command

`Options.run` does what the options ask for: it reads the source, and either dumps it or compiles it and
writes the listing. Files are touched only when the whole analysis succeeded; the binary form is written
first, and the text form only if that succeeded.

What a run shows is collected in an `Outcome`. The exit code is 0 if there was nothing to complain about,
and 1 otherwise.

Main definitions: `Outcome`, `dumpSource`, `compileSource`, `Options.run`.
-/
namespace TriLang
set_option autoImplicit false

/-- What a run leaves behind besides files. -/
structure Outcome where
  exitCode : Nat
  stdout : String
  stderr : String
deriving DecidableEq

/-! ## What a run shows -/

def headline (colour : Bool) (style : Style) (text : String) : String :=
  let rule := paint colour .dimmed "==="
  rule ++ " " ++ paint colour style text ++ " " ++ rule ++ "\n"

def successHeadline (colour : Bool) (phase : String) : String :=
  headline colour .greenBold (phase ++ " OK")

def failureHeadline (colour : Bool) (phase : String) (errors : Nat) : String :=
  headline colour .redBold
    (phase ++ " FAILED: " ++ toString errors ++ if errors = 1 then " error" else " errors")

/-- Diagnostics for people, followed by the headline of the failure. -/
def showDiagnostics (colour : Bool) (source : SourceFile) (sink : Sink) (phase : Phase) : String :=
  String.join (sink.items.map fun d => d.render colour source.text (some source.name) ++ "\n") ++
    failureHeadline colour phase.name sink.errorCount

/-- The name of compilation as a whole, which stands for a phase where all phases succeeded. -/
def compilationName : String := "compile"

namespace Outcome

/-- A failed action on a file ends the run. -/
def ofFault (colour : Bool) (fault : FileFault) : Outcome :=
  ⟨1, "", paint colour .redBold "error" ++ ": " ++ fault.message ++ "\n"⟩

def ofHalted (colour : Bool) (format : ReportFormat) (source : SourceFile) (sink : Sink)
    (halted : Halted) : Outcome :=
  match format with
  | .human => ⟨1, "", showDiagnostics colour source sink halted.phase⟩
  | .json =>
    ⟨1, (Report.ofDiagnostics sink.items source.text source.name halted.phase.name).toText ++ "\n", ""⟩

/-- The outcome of a compilation whose listing was written. -/
def ofWritten (colour : Bool) (format : ReportFormat) (source : SourceFile) (binary text : String) :
    Outcome :=
  match format with
  | .human =>
    ⟨0, successHeadline colour compilationName ++ "wrote " ++ paint colour .cyan binary ++ " and " ++
      paint colour .cyan text ++ "\n", ""⟩
  | .json => ⟨0, (Report.ofDiagnostics [] source.text source.name compilationName).toText ++ "\n", ""⟩

end Outcome

/-! ## Dumps -/

/-- The dump of a source, and the errors found on the way. The tree is dumped even if there were
errors. -/
def dumpText (form : DumpForm) (lexed : Lexed) : String × Phase × Sink :=
  let lexical := Sink.empty.reportAll (lexed.errors.map LexError.toDiagnostic)
  match form with
  | .tokens => (String.join (lexed.tokens.map fun token => token.dump ++ "\n"), .lexing, lexical)
  | .tree =>
    let parsed := parse lexed.tokens
    (parsed.program.dump.pretty ++ "\n", .parsing,
      lexical.reportAll (parsed.errors.map ParseError.toDiagnostic))

def dumpSource (colour : Bool) (source : SourceFile) (form : DumpForm) : Outcome :=
  let (shown, phase, sink) := dumpText form (tokenize source.text)
  if sink.hasErrors then ⟨1, shown, showDiagnostics colour source sink phase⟩ else ⟨0, shown, ""⟩

/-! ## Compilation -/

section

variable {m : Type → Type} [Monad m] [Files m]

/-- Reads a source. It goes by the path as it was given. -/
def SourceFile.read (path : String) : m (Except FileFault SourceFile) := do
  match ← Files.read path with
  | .ok text => return .ok ⟨path, text.toList⟩
  | .error cause => return .error ⟨.read, path, cause⟩

def writeFile (path text : String) : m (Except FileFault Unit) := do
  match ← Files.write path text with
  | .ok _ => return .ok ()
  | .error cause => return .error ⟨.write, path, cause⟩

/-- Writes both forms of a listing, the binary one first. -/
def Listing.write (l : Listing) (binary text : String) : m (Except FileFault Unit) := do
  match ← writeFile binary l.toBinary with
  | .ok _ => writeFile text (String.ofList l.toText)
  | .error fault => return .error fault

def compileSource (colour : Bool) (format : ReportFormat) (source : SourceFile)
    (binary text : String) : m Outcome := do
  let analysis := analyze source.text .empty
  match analysis.outcome with
  | .error halted => return .ofHalted colour format source analysis.sink halted
  | .ok analyzed =>
    match ← (Listing.generate source.text standardIndent analyzed).write binary text with
    | .ok _ => return .ofWritten colour format source binary text
    | .error fault => return .ofFault colour fault

def Options.run (colour : Bool) (o : Options) : m Outcome := do
  match ← SourceFile.read o.input with
  | .error fault => return .ofFault colour fault
  | .ok source =>
    match o.task with
    | .dump form => return dumpSource colour source form
    | .compile binary text => compileSource colour o.format source binary text

end

end TriLang
