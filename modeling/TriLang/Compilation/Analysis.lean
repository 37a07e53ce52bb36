import TriLang.Syntax.Parser
import TriLang.Typing.Checker
import TriLang.Diagnostic.OfError

/-!
# Analysis of a source

`analyze` takes a source text through the four phases, one after the other: lexing, parsing, resolution
of names, type checking. Each phase reports all its errors. The first phase after which the sink holds
any error is the last one, be the error its own or an older one.

Main definitions: `SourceFile`, `Phase`, `Analyzed`, `analyze`.
-/
namespace TriLang
set_option autoImplicit false

/-- A source text and the name it goes by. -/
structure SourceFile where
  name : String
  text : List Char

inductive Phase where
  | lexing
  | parsing
  | identification
  | typing
deriving DecidableEq

def Phase.name : Phase → String
  | lexing => "lex"
  | parsing => "parse"
  | identification => "resolve"
  | typing => "typecheck"

/-- A program that passed every phase, with what was found out about it. -/
structure Analyzed where
  program : Program
  resolution : Resolution
  typing : Typing

/-- The type of a symbol of an analysed program. -/
def Analyzed.symbolType? (a : Analyzed) (symbol : Nat) : Option Ty := a.typing.symbolTypes[symbol]?

/-- After which phase an analysis stopped, and how many errors the sink held then. -/
structure Halted where
  phase : Phase
  errors : Nat
deriving DecidableEq

def Halted.message (h : Halted) : String :=
  "compilation stopped after " ++ h.phase.name ++ " with " ++ toString h.errors ++ " error(s)"

/-- What came of an analysis, and the sink after it. -/
structure Analysis where
  outcome : Except Halted Analyzed
  sink : Sink

/-- Reports the errors of a phase, and goes on only if the sink holds no error then. -/
def Sink.afterPhase (sink : Sink) (phase : Phase) (errors : List Diagnostic)
    (next : Sink → Analysis) : Analysis :=
  let reported := sink.reportAll errors
  if reported.hasErrors then ⟨.error ⟨phase, reported.errorCount⟩, reported⟩ else next reported

/-- Takes a source text through all phases. -/
def analyze (text : List Char) (sink : Sink) : Analysis :=
  let lexed := tokenize text
  sink.afterPhase .lexing (lexed.errors.map LexError.toDiagnostic) fun sink =>
    let parsed := parse lexed.tokens
    sink.afterPhase .parsing (parsed.errors.map ParseError.toDiagnostic) fun sink =>
      let resolution := resolve parsed.program
      sink.afterPhase .identification (resolution.errors.map ResolveError.toDiagnostic) fun sink =>
        let typing := typecheck resolution parsed.program
        sink.afterPhase .typing (typing.errors.map TypeError.toDiagnostic) fun sink =>
          ⟨.ok ⟨parsed.program, resolution, typing⟩, sink⟩

end TriLang
