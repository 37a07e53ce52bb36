import TriLang.Syntax.Tree
import TriLang.Token.Basic
import TriLang.Text.Quoted

/-!
# Dumps

For inspection, tokens are written one to a line and trees over many lines. A dump of a tree names every
record and field: a record is `Name { … }` with one `field: value,` to a line, a wrapped value is
`Name( … )`, and each level is indented by four spaces.

Main definitions: `Token.dump`, `Dump`, `Program.dump`.
-/
namespace TriLang
set_option autoImplicit false

/-- A token on one line: kind, quoted spelling and position. -/
def Token.dump (t : Token) : String :=
  t.kind.name ++ " " ++ Text.quoteString t.spelling ++ " @ " ++ t.position.toText

inductive Dump where
  | atom (text : String)
  | record (name : String) (fields : List (String × Dump))
  | wrapped (name : String) (value : Dump)

namespace Dump

def newline (level : Nat) : String := "\n" ++ String.ofList (List.replicate (4 * level) ' ')

mutual

/-- The text of a value whose last line stands at the given level. -/
def prettyAt (level : Nat) : Dump → String
  | atom text => text
  | record name fields =>
    name ++ " \x7b" ++ prettyFields (level + 1) fields ++ newline level ++ "\x7d"
  | wrapped name value =>
    name ++ "(" ++ newline (level + 1) ++ value.prettyAt (level + 1) ++ "," ++ newline level ++ ")"

/-- The fields of a record, each on lines of its own. -/
def prettyFields (level : Nat) : List (String × Dump) → String
  | [] => ""
  | (field, value) :: fields =>
    newline level ++ field ++ ": " ++ value.prettyAt level ++ "," ++ prettyFields level fields

end

def pretty (d : Dump) : String := d.prettyAt 0

def ofNat (n : Nat) : Dump := atom (toString n)

def ofString (s : String) : Dump := atom (Text.quoteString s)

def ofSpan (s : Span) : Dump := record "Span" [("start", ofNat s.start), ("end", ofNat s.stop)]

def ofId (id : Nat) : Dump := wrapped "NodeId" (ofNat id)

/-- A node that says what it is in a field of its own. -/
def node (name : String) (mark : Mark) (kind : Dump) : Dump :=
  record name [("id", ofId mark.id), ("kind", kind), ("span", ofSpan mark.span)]

end Dump

def Ident.dump (i : Ident) : Dump :=
  .record "Ident" [("id", .ofId i.id), ("name", .ofString i.name), ("span", .ofSpan i.span)]

def Operator.dump (o : Operator) : Dump :=
  .record "Operator"
    [("id", .ofId o.id), ("spelling", .ofString o.spelling), ("span", .ofSpan o.span)]

def TypeDenoter.dump (t : TypeDenoter) : Dump :=
  .record "TypeDenoter" [("id", .ofId t.id), ("name", t.name.dump), ("span", .ofSpan t.span)]

def Expr.dump : Expr → Dump
  | binary m op lhs rhs =>
    .node "Expr" m (.record "Binary" [("op", op.dump), ("lhs", lhs.dump), ("rhs", rhs.dump)])
  | unary m op operand =>
    .node "Expr" m (.record "Unary" [("op", op.dump), ("operand", operand.dump)])
  | int m spelling => .node "Expr" m (.wrapped "Int" (.ofString spelling))
  | char m value => .node "Expr" m (.wrapped "Char" (.atom (Text.quoteChar value)))
  | name m ident => .node "Expr" m (.wrapped "Ident" ident.dump)
  | error m => .node "Expr" m (.atom "Error")

def Param.dump : Param → Dump
  | value m expr => .node "Param" m (.wrapped "Expr" expr.dump)
  | reference m ident => .node "Param" m (.wrapped "Var" ident.dump)
  | blank m => .node "Param" m (.atom "Blank")
  | error m => .node "Param" m (.atom "Error")

def Decl.dump : Decl → Dump
  | const m name value =>
    .node "Decl" m (.record "Const" [("name", name.dump), ("value", value.dump)])
  | var m name type => .node "Decl" m (.record "Var" [("name", name.dump), ("ty", type.dump)])
  | seq m first second =>
    .node "Decl" m (.record "Sequential" [("first", first.dump), ("second", second.dump)])
  | error m => .node "Decl" m (.atom "Error")

def Command.dump : Command → Dump
  | assign m target value =>
    .node "Command" m (.record "Assign" [("target", target.dump), ("value", value.dump)])
  | call m callee param =>
    .node "Command" m (.record "Call" [("callee", callee.dump), ("param", param.dump)])
  | cond m c thenBranch elseBranch =>
    .node "Command" m (.record "If"
      [("cond", c.dump), ("then_branch", thenBranch.dump), ("else_branch", elseBranch.dump)])
  | whileDo m c body rest =>
    .node "Command" m (.record "While"
      [("cond", c.dump), ("body", body.dump), ("rest", rest.dump)])
  | doWhile m body c =>
    .node "Command" m (.record "DoWhile" [("body", body.dump), ("cond", c.dump)])
  | letIn m decl body rest =>
    .node "Command" m (.record "Let"
      [("decl", decl.dump), ("body", body.dump), ("rest", rest.dump)])
  | seq m first second =>
    .node "Command" m (.record "Sequential" [("first", first.dump), ("second", second.dump)])
  | blank m => .node "Command" m (.atom "Blank")
  | error m => .node "Command" m (.atom "Error")

def Program.dump (p : Program) : Dump :=
  .record "Program" [("command", p.command.dump), ("span", .ofSpan p.span)]

end TriLang
