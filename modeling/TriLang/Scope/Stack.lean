/-!
# Scopes

Names are bound to symbol numbers in scopes that nest. A `ScopeStack` holds the open scopes, the one
opened last in front; within a scope the binding made last comes first. A name is bound at most once in
a scope, and a look-up takes the binding of the innermost scope that has one.

An operation that can fail answers whether it has succeeded, together with the stack behind it.

Main definitions: `ScopeStack`, `ScopeStack.enter`, `ScopeStack.retrieve?`.
-/
namespace TriLang
set_option autoImplicit false

abbrev Bindings := List (String × Nat)

/-- What is wrong with an operation on scopes. -/
inductive ScopeError where
  | noOpenScope
deriving DecidableEq

def ScopeError.message : ScopeError → String
  | noOpenScope => "attempted to close a scope when none is open"

/-- The open scopes, innermost first. -/
structure ScopeStack where
  scopes : List Bindings

namespace ScopeStack

def empty : ScopeStack := ⟨[]⟩

def depth (s : ScopeStack) : Nat := s.scopes.length

def openScope (s : ScopeStack) : ScopeStack := ⟨[] :: s.scopes⟩

/-- Closes the innermost scope. -/
def closeScope (s : ScopeStack) : Except ScopeError Unit × ScopeStack :=
  match s.scopes with
  | [] => (.error .noOpenScope, s)
  | _ :: outer => (.ok (), ⟨outer⟩)

/-- The symbol a name is bound to in the innermost scope. -/
def retrieveLocal? (s : ScopeStack) (name : String) : Option Nat :=
  match s.scopes with
  | [] => none
  | scope :: _ => scope.lookup name

/-- The symbol a name is bound to, from the innermost scope outwards. -/
def retrieve? (s : ScopeStack) (name : String) : Option Nat :=
  s.scopes.findSome? (·.lookup name)

/-- Binds a name in the innermost scope. That fails when no scope is open, or when the name is bound in
that scope already. -/
def enter (s : ScopeStack) (name : String) (symbol : Nat) : Bool × ScopeStack :=
  match s.scopes with
  | [] => (false, s)
  | scope :: outer =>
    if (scope.lookup name).isSome then (false, s)
    else (true, ⟨((name, symbol) :: scope) :: outer⟩)

/-- The lines that show one scope: its level, and its bindings by symbol number. -/
def dumpScope (level : Nat) (scope : Bindings) : String :=
  let sorted := scope.mergeSort fun a b => a.2 ≤ b.2
  "scope " ++ toString level ++ ":\n" ++
    String.join (sorted.map fun (name, symbol) => "  " ++ name ++ " -> #" ++ toString symbol ++ "\n")

/-- The lines that show all scopes, from the outermost one inwards. -/
def dump (s : ScopeStack) : String :=
  String.join (s.scopes.reverse.zipIdx.map fun (scope, level) => dumpScope level scope)

end ScopeStack

end TriLang
