import TriLang.Scope.Symbol

/-!
# Type errors

A `TypeError` says which rule of typing an occurrence breaks.
-/
namespace TriLang
set_option autoImplicit false

/-- Which rule of typing is broken. -/
inductive TypeError.Cause where
  | mismatch (expected found : Ty)
  /-- The operands of an operator that takes any type differ. -/
  | operandMismatch (op : String) (lhs rhs : Ty)
  | notAValue (name : String) (kind : Symbol.Kind)
  | notAVariable (name : String)
  | notAType (name : String)
  | notAnOperator (name : String) (arity : Nat)
  | notAProcedure (name : String)
  | arityMismatch (name : String) (expected found : Nat)
  | parameterMode (name : String) (expected : ParamMode)
  | recursiveConstant (name : String)
  | literalOutOfRange (literal : String)
deriving DecidableEq

structure TypeError where
  cause : TypeError.Cause
  span : Span
deriving DecidableEq

namespace TypeError.Cause

/-- The word for an operator by the number of its operands. -/
def arityWord (arity : Nat) : String := if arity = 1 then "unary" else "binary"

def message : Cause → String
  | mismatch expected found =>
    "type mismatch: expected " ++ expected.name ++ ", found " ++ found.name
  | operandMismatch op lhs rhs =>
    "operands of `" ++ op ++ "` differ: " ++ lhs.name ++ " and " ++ rhs.name
  | notAValue name kind => "`" ++ name ++ "` is a " ++ kind.describe ++ ", not a value"
  | notAVariable name => "`" ++ name ++ "` is not a variable"
  | notAType name => "`" ++ name ++ "` is not a type"
  | notAnOperator name arity => "`" ++ name ++ "` is not a " ++ arityWord arity ++ " operator"
  | notAProcedure name => "`" ++ name ++ "` is not a procedure"
  | arityMismatch name expected found =>
    "arity mismatch: `" ++ name ++ "` expects " ++ toString expected ++ " arguments, found " ++
      toString found
  | parameterMode name .value => "parameter of `" ++ name ++ "` must be passed by value"
  | parameterMode name .reference => "parameter of `" ++ name ++ "` must be passed with `var`"
  | recursiveConstant name => "constant `" ++ name ++ "` is used in its own definition"
  | literalOutOfRange literal => "literal " ++ literal ++ " is out of range"

end TypeError.Cause

end TriLang
