import TriLang.Source.Span
import TriLang.Types

/-!
# Symbols

Everything a name can stand for is a symbol, and the `SymbolTable` numbers the symbols in the order in
which they came. Symbol 0 stands for what is unknown; the names of the standard environment come next,
and the names a program declares after those.

Main definitions: `Symbol`, `SymbolTable`.
-/
namespace TriLang
set_option autoImplicit false

inductive Symbol.Kind where
  /-- A constant. One of the standard environment comes with its type. -/
  | const (builtin? : Option Ty)
  | var
  | type (type : Ty)
  | operator (signature : Signature)
  | procedure (params : List FormalParam)
  /-- What a name that is not declared is taken for. -/
  | unknown
deriving DecidableEq

def Symbol.Kind.describe : Symbol.Kind → String
  | const _ => "constant"
  | var => "variable"
  | type _ => "type"
  | operator _ => "operator"
  | procedure _ => "procedure"
  | unknown => "unknown"

/-- What an entity of the standard environment is as a symbol. -/
def StandardEntity.kind : StandardEntity → Symbol.Kind
  | type t => .type t
  | constant t => .const (some t)
  | operator signature => .operator signature
  | procedure params => .procedure params

structure Symbol where
  id : Nat
  name : String
  kind : Symbol.Kind
  /-- The span of the declared name, if a program declares the symbol. -/
  span? : Option Span
  /-- The number of the declaration, if a program declares the symbol. -/
  decl? : Option Nat
deriving DecidableEq

def Symbol.isBuiltin (s : Symbol) : Bool := s.decl?.isNone

/-- All symbols; each stands at the place its number gives. -/
structure SymbolTable where
  symbols : Array Symbol

namespace SymbolTable

/-- The number of the symbol for what is unknown. -/
def unknown : Nat := 0

/-- The table that holds only the symbol for what is unknown. -/
def initial : SymbolTable := ⟨#[⟨unknown, "<unknown>", .unknown, none, none⟩]⟩

def size (t : SymbolTable) : Nat := t.symbols.size

def get? (t : SymbolTable) (id : Nat) : Option Symbol := t.symbols[id]?

def insert (t : SymbolTable) (name : String) (kind : Symbol.Kind) (span? : Option Span)
    (decl? : Option Nat) : SymbolTable :=
  ⟨t.symbols.push ⟨t.size, name, kind, span?, decl?⟩⟩

def toList (t : SymbolTable) : List Symbol := t.symbols.toList

def declared (t : SymbolTable) : List Symbol := t.toList.filter (!·.isBuiltin)

end SymbolTable

end TriLang
