import TriLang.Syntax.Parser

/-!
# Canonical layout

`Program.layout` writes a tree as a list of pieces: line starts with their level of indentation, gaps,
tokens, and a placeholder for each error node. `Layout.render` turns pieces into text, and
`Layout.tokens` drops everything but the tokens, so that what the printer says can be told apart from
how it is spaced.

A command goes on as far as it can: the command behind `endlet` or `wend` takes all that follows it.
So before a `;` such an open-ended command is put between `begin` and `end`, and so is a list of
commands where the grammar admits a single one.

`format` reads a text and writes it again in this layout; a text with errors is left as it is.

Main definitions: `Layout.Piece`, `Command.layout`, `Layout.render`, `format`.
-/
namespace TriLang
set_option autoImplicit false

namespace Layout

/-- What a printed program is made of. -/
inductive Piece where
  /-- The start of a line at a level of indentation. -/
  | line (level : Nat)
  | gap
  | token (kind : Token.Kind) (spelling : String)
  /-- What stands for a node that could not be read. -/
  | placeholder
deriving DecidableEq

def word (k : Keyword) : Piece := .token (.keyword k) k.spelling

def name (spelling : String) : Piece := .token .identifier spelling

def semicolon : Piece := .token .semicolon ";"

/-- Puts lines between `begin` and `end`, one level further in, if asked to. -/
def enclosedIf (enclosed : Bool) (lines : Nat → List Piece) (level : Nat) : List Piece :=
  if enclosed then
    [.line level, word .beginKw] ++ lines (level + 1) ++ [.line level, word .endKw]
  else lines level

/-! ## Pieces and text -/

/-- The tokens among the pieces, by kind and spelling. -/
def tokens : List Piece → List (Token.Kind × String)
  | [] => []
  | .token kind spelling :: rest => (kind, spelling) :: tokens rest
  | _ :: rest => tokens rest

/-- The text of a piece that is not a line start. -/
def Piece.text : Piece → List Char
  | .line _ => []
  | .gap => [' ']
  | .token _ spelling => spelling.toList
  | .placeholder => "<error>".toList

/-- The text of pieces, given whether something stands before them. A line start breaks the line unless
nothing has been written yet. -/
def renderFrom (width : Nat) : Bool → List Piece → List Char
  | _, [] => []
  | begun, .line level :: rest =>
    let indent := List.replicate (level * width) ' '
    (if begun then ['\n'] else []) ++ indent ++ renderFrom width (begun || !indent.isEmpty) rest
  | begun, piece :: rest => piece.text ++ renderFrom width (begun || !piece.text.isEmpty) rest

/-- The text of pieces, with `width` spaces to a level. It ends with a newline. -/
def render (width : Nat) (pieces : List Piece) : List Char :=
  let text := renderFrom width false pieces
  if text.getLast? = some '\n' then text else text ++ ['\n']

end Layout

open Layout

/-! ## Expressions -/

/-- Whether an expression has to be put in brackets to stand as an operand. -/
def Expr.isBinary : Expr → Bool
  | binary .. => true
  | _ => false

/-- The pieces of an expression. The right operand of a binary operator and the operand of a unary one
are bracketed if they are binary themselves. -/
def Expr.layout : Expr → List Piece
  | binary _ op lhs rhs =>
    let inner := rhs.layout
    lhs.layout ++ [.gap, .token .operator op.spelling, .gap] ++ bracketedIf rhs.isBinary inner
  | unary _ op operand =>
    let inner := operand.layout
    [.token .operator op.spelling, .gap] ++ bracketedIf operand.isBinary inner
  | int _ spelling => [.token .intLiteral spelling]
  | char _ value => [.token .charLiteral (String.ofList ['\'', value, '\''])]
  | name _ ident => [Layout.name ident.name]
  | error _ => [.placeholder]
where
  /-- Puts pieces in brackets, if asked to. -/
  bracketedIf (bracketed : Bool) (pieces : List Piece) : List Piece :=
    if bracketed then [.token .leftBracket "("] ++ pieces ++ [.token .rightBracket ")"] else pieces

def Param.layout : Param → List Piece
  | value _ expr => expr.layout
  | reference _ ident => [word .varKw, .gap, Layout.name ident.name]
  | blank _ => []
  | error _ => [.placeholder]

/-! ## Declarations and commands -/

def Decl.layout (level : Nat) : Decl → List Piece
  | const _ name value =>
    [.line level, word .constKw, .gap, Layout.name name.name, .gap, .token .is "~", .gap] ++
      value.layout
  | var _ name type =>
    [.line level, word .varKw, .gap, Layout.name name.name, .gap, Layout.name type.name.name]
  | seq _ first second => first.layout level ++ [semicolon] ++ second.layout level
  | error _ => [.line level, .placeholder]

/-- Whether a command is several joined by `;`. -/
def Command.isSequence : Command → Bool
  | seq .. => true
  | _ => false

/-- Whether a command ends in another one that would take up what follows it. -/
def Command.isOpenEnded : Command → Bool
  | letIn .. => true
  | whileDo .. => true
  | cond _ _ _ elseBranch => elseBranch.isOpenEnded
  | _ => false

/-- The lines of a command at a level, given whether a `;` follows. -/
def Command.layout : Command → Bool → Nat → List Piece
  | assign _ target value, _, level =>
    [.line level, Layout.name target.name, .gap, .token .becomes "=", .gap] ++ value.layout
  | call _ callee param, _, level =>
    [.line level, Layout.name callee.name, .token .leftBracket "("] ++ param.layout ++
      [.token .rightBracket ")"]
  | cond _ c thenBranch elseBranch, followed, level =>
    enclosedIf (followed && elseBranch.isOpenEnded) (fun level =>
      [.line level, word .ifKw, .gap] ++ c.layout ++ [.gap, word .thenKw] ++
        enclosedIf thenBranch.isSequence (thenBranch.layout false) (level + 1) ++
        [.line level, word .elseKw] ++
        enclosedIf elseBranch.isSequence (elseBranch.layout false) (level + 1)) level
  | whileDo _ c body rest, followed, level =>
    enclosedIf followed (fun level =>
      [.line level, word .whileKw, .gap] ++ c.layout ++ [.gap, word .doKw] ++
        body.layout false (level + 1) ++ [.line level, word .wendKw] ++
        rest.layout false level) level
  | doWhile _ body c, _, level =>
    [.line level, word .doKw] ++ enclosedIf body.isSequence (body.layout false) (level + 1) ++
      [.line level, word .wendwhileKw, .gap] ++ c.layout
  | letIn _ decl body rest, followed, level =>
    enclosedIf followed (fun level =>
      [.line level, word .letKw] ++ decl.layout (level + 1) ++ [.line level, word .inKw] ++
        enclosedIf body.isSequence (body.layout false) (level + 1) ++
        [.line level, word .endletKw] ++ rest.layout false level) level
  | seq _ first second, followed, level =>
    first.layout true level ++ [semicolon] ++
      enclosedIf (second.isSequence || (followed && second.isOpenEnded)) (second.layout false) level
  | blank _, _, level => [.line level, word .passKw]
  | error _, _, level => [.line level, .placeholder]

def Program.layout (p : Program) : List Piece := p.command.layout false 0

/-- The text of a program in canonical layout, with `width` spaces to a level. -/
def Program.print (width : Nat) (p : Program) : List Char := render width p.layout

/-! ## Formatting -/

def standardIndent : Nat := 4

/-- Writes a program text in canonical layout. A text with lexical or syntax errors is left alone. -/
def format (width : Nat) (text : List Char) : List Char :=
  let lexed := tokenize text
  if lexed.errors.isEmpty then
    let parsed := parse lexed.tokens
    if parsed.errors.isEmpty then parsed.program.print width else text
  else text

end TriLang
