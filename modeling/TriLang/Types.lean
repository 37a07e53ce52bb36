/-!
# Types and signatures

The types of the language, the signatures of its operators and the formal parameters of its procedures,
and the names that are there before any program declares one: `standardEnvironment`.

Numbers and character codes are words of 16 bits with a sign: `minInt` to `maxInt`.
-/
namespace TriLang
set_option autoImplicit false

inductive Ty where
  | boolean
  | char
  | integer
  /-- The type of an operand that may be of any type, so long as both operands agree. -/
  | any
  /-- The type of what is wrong already, and is not reported again. -/
  | error
deriving DecidableEq

def Ty.name : Ty → String
  | boolean => "Boolean"
  | char => "Char"
  | integer => "Integer"
  | any => "any"
  | error => "<error>"

inductive ParamMode where
  /-- The value of an expression is passed. -/
  | value
  /-- A variable is passed with `var`. -/
  | reference
deriving DecidableEq

structure FormalParam where
  mode : ParamMode
  type : Ty
deriving DecidableEq

def FormalParam.toText (p : FormalParam) : String :=
  match p.mode with
  | .value => p.type.name
  | .reference => "var " ++ p.type.name

/-- The operand and result types of an operator. -/
inductive Signature where
  | unary (operand result : Ty)
  | binary (lhs rhs result : Ty)
deriving DecidableEq

/-- What a name of the standard environment denotes. -/
inductive StandardEntity where
  | type (type : Ty)
  | constant (type : Ty)
  | operator (signature : Signature)
  | procedure (params : List FormalParam)
deriving DecidableEq

def maxInt : Int := 32767

def minInt : Int := -32768

/-- Every name of the standard environment, with what it denotes. -/
def standardEnvironment : List (String × StandardEntity) :=
  [("Boolean", .type .boolean),
   ("Char", .type .char),
   ("Integer", .type .integer),
   ("false", .constant .boolean),
   ("true", .constant .boolean),
   ("maxint", .constant .integer),
   ("\\", .operator (.unary .boolean .boolean)),
   ("/\\", .operator (.binary .boolean .boolean .boolean)),
   ("\\/", .operator (.binary .boolean .boolean .boolean)),
   ("+", .operator (.binary .integer .integer .integer)),
   ("-", .operator (.binary .integer .integer .integer)),
   ("*", .operator (.binary .integer .integer .integer)),
   ("/", .operator (.binary .integer .integer .integer)),
   ("//", .operator (.binary .integer .integer .integer)),
   ("<", .operator (.binary .integer .integer .boolean)),
   ("<=", .operator (.binary .integer .integer .boolean)),
   (">", .operator (.binary .integer .integer .boolean)),
   (">=", .operator (.binary .integer .integer .boolean)),
   ("\\=", .operator (.binary .any .any .boolean)),
   ("put", .procedure [⟨.value, .char⟩]),
   ("putint", .procedure [⟨.value, .integer⟩]),
   ("puteol", .procedure []),
   ("get", .procedure [⟨.reference, .char⟩]),
   ("getint", .procedure [⟨.reference, .integer⟩]),
   ("geteol", .procedure [])]

end TriLang
