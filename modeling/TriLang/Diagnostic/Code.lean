/-!
# Error codes

Every error has a code, under which a title and the family of errors it belongs to are registered.
-/
namespace TriLang
set_option autoImplicit false

inductive ErrorCategory where
  | lexical
  | syntactic
  | identification
  | typing
deriving DecidableEq

def ErrorCategory.name : ErrorCategory → String
  | lexical => "Lexical"
  | syntactic => "Syntax"
  | identification => "Identification"
  | typing => "Type"

structure ErrorCode where
  code : String
  title : String
  category : ErrorCategory
deriving DecidableEq

namespace ErrorCode

def all : List ErrorCode :=
  [⟨"E0001", "unexpected character", .lexical⟩,
   ⟨"E0002", "malformed character literal", .lexical⟩,
   ⟨"E0100", "expected token not found", .syntactic⟩,
   ⟨"E0101", "unexpected token", .syntactic⟩,
   ⟨"E0102", "nesting too deep", .syntactic⟩,
   ⟨"E0200", "undefined symbol", .identification⟩,
   ⟨"E0201", "duplicate declaration", .identification⟩,
   ⟨"E0308", "mismatched types", .typing⟩,
   ⟨"E0309", "mismatched operand types", .typing⟩,
   ⟨"E0310", "not a value", .typing⟩,
   ⟨"E0311", "not a variable", .typing⟩,
   ⟨"E0312", "not a type", .typing⟩,
   ⟨"E0313", "not an operator", .typing⟩,
   ⟨"E0314", "not a procedure", .typing⟩,
   ⟨"E0315", "arity mismatch", .typing⟩,
   ⟨"E0316", "wrong parameter mode", .typing⟩,
   ⟨"E0317", "recursive constant", .typing⟩,
   ⟨"E0320", "literal out of range", .typing⟩]

def find? (code : String) : Option ErrorCode := all.find? (·.code = code)

end ErrorCode

end TriLang
