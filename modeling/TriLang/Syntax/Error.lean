import TriLang.Token.Basic

/-!
# Syntax errors

A `ParseError` records what the grammar asked for and what stood there instead. The wording of the
message and the suggestion that goes with it are functions of that cause.
-/
namespace TriLang
set_option autoImplicit false

/-- How deep commands and expressions may nest inside one another. -/
def maxDepth : Nat := 256

/-- What the grammar asks for at some place. -/
inductive Expectation where
  | token (kind : Token.Kind)
  /-- A name to be declared or passed. -/
  | name
  | typeName
  | expression
  | declaration
deriving DecidableEq

def Expectation.describe : Expectation → String
  | token kind => kind.describe
  | name => "a name"
  | typeName => "a type name"
  | expression => "expression"
  | declaration => "declaration ('const' or 'var')"

/-- Why a program could not be read at some place. -/
inductive ParseError.Cause where
  /-- Something required is missing, and another token stands there. -/
  | expected (what : Expectation) (found : Token.Kind)
  /-- A command starts with a name, and goes on neither as a call nor as an assignment. -/
  | afterName (name : String) (found : Token.Kind)
  /-- Commands and expressions nest deeper than `maxDepth`. -/
  | tooDeep
deriving DecidableEq

inductive ParseError.Kind where
  /-- A required token is missing. -/
  | expectedToken
  /-- The token cannot start what is required. -/
  | unexpectedToken
  | tooDeep
deriving DecidableEq

/-- A place where a program could not be read, and why. -/
structure ParseError where
  cause : ParseError.Cause
  span : Span
deriving DecidableEq

namespace ParseError.Cause

def kind : Cause → Kind
  | expected .expression _ => .unexpectedToken
  | expected .declaration _ => .unexpectedToken
  | expected _ _ => .expectedToken
  | afterName _ _ => .unexpectedToken
  | tooDeep => .tooDeep

def message : Cause → String
  | expected what found => "expected " ++ what.describe ++ ", found " ++ found.describe
  | afterName name found =>
    "expected '(' or '=' after `" ++ name ++ "`, found " ++ found.describe
  | tooDeep => "program nests deeper than " ++ toString maxDepth ++ " levels"

/-- The suggestion for a missing token, by the kind that is missing and the kind found. -/
def missingTokenHint? : Token.Kind → Token.Kind → Option String
  | .rightBracket, .endOfText => some "add ')' to close the parenthesis"
  | .keyword .endKw, _ => some "every 'begin' needs a matching 'end'"
  | .keyword .endletKw, _ => some "a let command is closed by 'endlet'"
  | .keyword .wendKw, _ => some "a while loop body is closed by 'wend'"
  | .keyword .wendwhileKw, _ => some "syntax: do command wendwhile condition"
  | .keyword .thenKw, _ => some "syntax: if condition then command else command"
  | .keyword .elseKw, _ =>
    some "every 'if' needs an 'else' branch; use 'pass' for an empty one"
  | .keyword .inKw, .semicolon => none
  | .keyword .inKw, _ => some "declarations in a let are separated by ';' and followed by 'in'"
  | .is, .becomes => some "constants are declared with '~', not '='"
  | .is, _ => some "syntax: const name ~ value"
  | .endOfText, .semicolon => none
  | .endOfText, _ => some "separate commands with ';'"
  | _, _ => none

def hint? : Cause → Option String
  | expected (.token kind) found => missingTokenHint? kind found
  | expected .name .intLiteral => some "names can't start with a digit"
  | expected .name _ => some "names start with a letter"
  | expected .typeName _ => some "try a type like 'Integer', 'Char' or 'Boolean'"
  | expected .expression .becomes => some "put the value after '='"
  | expected .expression _ => some "try a literal, a name, or an operator application"
  | expected .declaration _ => none
  | afterName _ _ =>
    some "a command starting with a name is a call `p(...)` or an assignment `x = ...`"
  | tooDeep => some "split deeply nested expressions or commands into smaller pieces"

end ParseError.Cause

end TriLang
