import TriLang.Diagnostic.Basic
import TriLang.Token.Lexer
import TriLang.Syntax.Error
import TriLang.Scope.Resolution
import TriLang.Typing.Error

/-!
# Errors as diagnostics

How the errors of each phase are put to the user: the code, the wording, the labels and the remarks.
-/
namespace TriLang
set_option autoImplicit false

def LexError.toDiagnostic (e : LexError) : Diagnostic :=
  match e.cause with
  | .unexpectedCharacter _ =>
    (Diagnostic.errorAt "E0001" e.cause.message e.span "unexpected character").withHelp? e.cause.hint?
  | .malformedCharLiteral =>
    (Diagnostic.errorAt "E0002" e.cause.message e.span "malformed literal").withHelp? e.cause.hint?

def ParseError.Kind.code : ParseError.Kind → String
  | expectedToken => "E0100"
  | unexpectedToken => "E0101"
  | tooDeep => "E0102"

def ParseError.toDiagnostic (e : ParseError) : Diagnostic :=
  (Diagnostic.errorAt e.cause.kind.code e.cause.message e.span "here").withHelp? e.cause.hint?

def ResolveError.toDiagnostic (e : ResolveError) : Diagnostic :=
  match e.cause with
  | .undefined name =>
    .errorAt "E0200" ("undefined symbol: `" ++ name ++ "`") e.span "not found in this scope"
  | .duplicate name previous =>
    ((Diagnostic.errorAt "E0201" ("duplicate declaration: `" ++ name ++ "`") e.span
      "redeclared here").withSecondary previous "previously declared here").withNote
      "names must be unique within one `let` declaration"

def TypeError.toDiagnostic (e : TypeError) : Diagnostic :=
  match e.cause with
  | .mismatch expected found =>
    .errorAt "E0308" "mismatched types" e.span
      ("expected `" ++ expected.name ++ "`, found `" ++ found.name ++ "`")
  | .operandMismatch op lhs rhs =>
    .errorAt "E0309" ("operands of `" ++ op ++ "` have different types") e.span
      ("`" ++ lhs.name ++ "` compared with `" ++ rhs.name ++ "`")
  | .notAValue name kind =>
    .errorAt "E0310" ("`" ++ name ++ "` is not a value") e.span ("this is a " ++ kind.describe)
  | .notAVariable name =>
    (Diagnostic.errorAt "E0311" ("`" ++ name ++ "` is not a variable") e.span
      "expected a variable").withHelp
      "only names declared with `var` can be assigned or passed by reference"
  | .notAType name =>
    (Diagnostic.errorAt "E0312" ("`" ++ name ++ "` is not a type") e.span
      "expected a type name").withHelp "the built-in types are Boolean, Char and Integer"
  | .notAnOperator name arity =>
    .errorAt "E0313"
      ("`" ++ name ++ "` is not a " ++ TypeError.Cause.arityWord arity ++ " operator") e.span
      ("used as a " ++ TypeError.Cause.arityWord arity ++ " operator here")
  | .notAProcedure name =>
    .errorAt "E0314" ("`" ++ name ++ "` is not a procedure") e.span "cannot be called"
  | .arityMismatch name expected found =>
    .errorAt "E0315"
      ("`" ++ name ++ "` expects " ++ toString expected ++
        (if expected = 1 then " argument" else " arguments") ++ ", found " ++ toString found)
      e.span "wrong number of arguments"
  | .parameterMode name .value =>
    (Diagnostic.errorAt "E0316" ("wrong parameter mode in call to `" ++ name ++ "`") e.span
      "expected a value").withHelp "remove `var`"
  | .parameterMode name .reference =>
    (Diagnostic.errorAt "E0316" ("wrong parameter mode in call to `" ++ name ++ "`") e.span
      "expected a variable").withHelp "pass a variable with `var name`"
  | .recursiveConstant name =>
    .errorAt "E0317" ("constant `" ++ name ++ "` is defined in terms of itself") e.span
      "used before it has a value"
  | .literalOutOfRange literal =>
    (Diagnostic.errorAt "E0320" ("literal " ++ literal ++ " is out of range") e.span
      "does not fit in 16 bits").withNote
      ("values must lie between " ++ toString minInt ++ " and " ++ toString maxInt)

end TriLang
