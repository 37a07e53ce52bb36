import TriLang.Syntax.Tree
import TriLang.Syntax.Error
import TriLang.Token.Lexer

/-!
# From tokens to trees

The parser reads the tokens before the end of the text from left to right, looks at one token at a time
and never goes back. Where the grammar asks for a token that is not there, it records an error, leaves
the token in place and carries on; where no node can be built, an `error` node stands in. At most
`maxErrors` errors are kept.

Single commands and primary expressions may nest `maxDepth` levels deep, and both count on the same
scale; `;` and binary operators are read by loops and add no depth. The reading functions take the
number of levels that are left. When none is left, one `tooDeep` error is recorded, the rest of the
tokens is skipped, and from then on no further error is kept.

Nodes are numbered in the order in which they are finished: a leaf when its token is read, any other
node after its children.

Main definitions: `Parser.State`, `Parser.primary`, `Parser.single`, `parse`.
-/
namespace TriLang
set_option autoImplicit false

/-- How many syntax errors are kept. -/
def maxErrors : Nat := 20

namespace Parser

/-- How far reading has come. -/
structure State where
  /-- The tokens still to be read, up to the end of the text. -/
  rest : List Token
  /-- The token that stands for the end of the text. -/
  stop : Token
  /-- The end of the last token read, or 0. -/
  readTo : Nat
  /-- The number the next finished node gets. -/
  nextId : Nat
  /-- The errors so far, first one first. -/
  errors : List ParseError
  /-- Whether the nesting limit was passed. -/
  abandoned : Bool

/-- A piece of tree and the state after reading it. -/
structure Parsed (α : Type) where
  node : α
  after : State

namespace State

/-! ## Looking at tokens and passing over them -/

def current (s : State) : Token := s.rest.headD s.stop

/-- The kind of the token to be read next. -/
def kind (s : State) : Token.Kind := s.current.kind

def start (s : State) : Nat := s.current.span.start

/-- Passes over one token. The end of the text is never passed. -/
def advance (s : State) : State :=
  match s.rest with
  | [] => s
  | t :: rest => { s with rest := rest, readTo := t.span.stop }

def skipAll (s : State) : State :=
  { s with
    rest := []
    readTo := (s.rest.getLast?.map (·.span.stop)).getD s.readTo }

/-- Records an error at the current token, if errors are still kept. -/
def report (s : State) (cause : ParseError.Cause) : State :=
  if !s.abandoned && s.errors.length < maxErrors then
    { s with errors := s.errors ++ [⟨cause, s.current.span⟩] }
  else s

/-- Passes over a token of the given kind, or records that it is missing. -/
def expect (s : State) (kind : Token.Kind) : State :=
  if s.kind = kind then s.advance else s.report (.expected (.token kind) s.kind)

/-! ## Finishing nodes -/

/-- The span from an offset to the end of the last token read. -/
def spanFrom (s : State) (start : Nat) : Span := ⟨start, max s.readTo start⟩

/-- Finishes a node with a given span: it gets the next number. -/
def finishAt {α : Type} (s : State) (span : Span) (build : Mark → α) : Parsed α :=
  ⟨build ⟨s.nextId, span⟩, { s with nextId := s.nextId + 1 }⟩

/-- Finishes a node that starts at the given offset. -/
def finish {α : Type} (s : State) (start : Nat) (build : Mark → α) : Parsed α :=
  s.finishAt (s.spanFrom start) build

/-- Gives up at the nesting limit: records that once, skips what is left, and leaves an empty node. -/
def giveUp {α : Type} (s : State) (build : Mark → α) : Parsed α :=
  let skipped := { (s.report .tooDeep).skipAll with abandoned := true }
  skipped.finishAt skipped.current.span build

/-! ## Leaves -/

def readIdent (s : State) : Parsed Ident :=
  s.advance.finishAt s.current.span fun m => { m with name := s.current.spelling }

def readOperator (s : State) : Parsed Operator :=
  s.advance.finishAt s.current.span fun m => { m with spelling := s.current.spelling }

/-- Reads a name where one is required, or records that it is missing. -/
def expectIdent (s : State) (what : Expectation) : Parsed (Option Ident) :=
  if s.kind = .identifier then ⟨some s.readIdent.node, s.readIdent.after⟩
  else ⟨none, s.report (.expected what s.kind)⟩

end State

/-! ## Expressions -/

/-- The operators and operands that follow an expression, joined to it from the left. Every round reads
a token, so as many rounds as there are tokens left are enough. -/
def operatorTail (operand : State → Parsed Expr) (start : Nat) : Nat → Expr → State → Parsed Expr
  | 0, lhs, s => ⟨lhs, s⟩
  | rounds + 1, lhs, s =>
    if s.kind = .operator then
      let op := s.readOperator
      let rhs := operand op.after
      let whole := rhs.after.finish start (.binary · op.node lhs rhs.node)
      operatorTail operand start rounds whole.node whole.after
    else ⟨lhs, s⟩

/-- Reads an expression, given how to read an operand. -/
def expressionOf (operand : State → Parsed Expr) (s : State) : Parsed Expr :=
  let first := operand s
  operatorTail operand s.start first.after.rest.length first.node first.after

/-- The character a literal stands for: the second one of its spelling. -/
def literalChar (spelling : String) : Char := (spelling.toList[1]?).getD '\x00'

/-- Reads a primary expression, with the given number of levels left. -/
def primary : Nat → State → Parsed Expr
  | 0, s => s.giveUp .error
  | levels + 1, s =>
    match s.kind with
    | .intLiteral => s.advance.finish s.start (.int · s.current.spelling)
    | .charLiteral => s.advance.finish s.start (.char · (literalChar s.current.spelling))
    | .identifier =>
      let ident := s.readIdent
      ident.after.finish s.start (.name · ident.node)
    | .operator =>
      let op := s.readOperator
      let operand := primary levels op.after
      operand.after.finish s.start (.unary · op.node operand.node)
    | .leftBracket =>
      let inner := expressionOf (primary levels) s.advance
      ⟨inner.node, inner.after.expect .rightBracket⟩
    | found => (s.report (.expected .expression found)).finish s.start .error

/-- Reads an expression, with the given number of levels left. -/
def expression (levels : Nat) : State → Parsed Expr := expressionOf (primary levels)

/-- Whether an expression can start with a token of this kind. -/
def startsExpression : Token.Kind → Bool
  | .intLiteral | .charLiteral | .identifier | .operator | .leftBracket => true
  | _ => false

/-- Reads what stands between the brackets of a call. -/
def parameter (levels : Nat) (s : State) : Parsed Param :=
  if startsExpression s.kind then
    let value := expression levels s
    value.after.finish s.start (.value · value.node)
  else if s.kind = .keyword .varKw then
    let name := s.advance.expectIdent .name
    match name.node with
    | some ident => name.after.finish s.start (.reference · ident)
    | none => name.after.finish s.start .error
  else s.finish s.start .blank

/-! ## Declarations -/

/-- Reads the name of a type, or records that it is missing. -/
def typeDenoter (s : State) : Parsed (Option TypeDenoter) :=
  let name := s.expectIdent .typeName
  match name.node with
  | some ident =>
    let whole := name.after.finishAt ident.span fun m => { m with name := ident }
    ⟨some whole.node, whole.after⟩
  | none => ⟨none, name.after⟩

def singleDeclaration (levels : Nat) (s : State) : Parsed Decl :=
  match s.kind with
  | .keyword .constKw =>
    let name := s.advance.expectIdent .name
    let value := expression levels (name.after.expect .is)
    match name.node with
    | some ident => value.after.finish s.start (.const · ident value.node)
    | none => value.after.finish s.start .error
  | .keyword .varKw =>
    let name := s.advance.expectIdent .name
    let type := typeDenoter name.after
    match name.node, type.node with
    | some ident, some denoter => type.after.finish s.start (.var · ident denoter)
    | _, _ => type.after.finish s.start .error
  | found => (s.report (.expected .declaration found)).finish s.start .error

/-- The declarations that follow one, each after a `;`, joined to it from the left. -/
def declarationTail (levels start : Nat) : Nat → Decl → State → Parsed Decl
  | 0, first, s => ⟨first, s⟩
  | rounds + 1, first, s =>
    if s.kind = .semicolon then
      let second := singleDeclaration levels s.advance
      let whole := second.after.finish start (.seq · first second.node)
      declarationTail levels start rounds whole.node whole.after
    else ⟨first, s⟩

def declaration (levels : Nat) (s : State) : Parsed Decl :=
  let first := singleDeclaration levels s
  declarationTail levels s.start first.after.rest.length first.node first.after

/-! ## Commands -/

/-- The commands that follow one, each after a `;`, joined to it from the left. -/
def commandTail (single : State → Parsed Command) (start : Nat) :
    Nat → Command → State → Parsed Command
  | 0, first, s => ⟨first, s⟩
  | rounds + 1, first, s =>
    if s.kind = .semicolon then
      let second := single s.advance
      let whole := second.after.finish start (.seq · first second.node)
      commandTail single start rounds whole.node whole.after
    else ⟨first, s⟩

/-- Reads commands joined by `;`, given how to read a single one. -/
def commandOf (single : State → Parsed Command) (s : State) : Parsed Command :=
  let first := single s
  commandTail single s.start first.after.rest.length first.node first.after

/-- Reads a command that starts with a name: a call or an assignment. -/
def namedCommand (levels : Nat) (s : State) : Parsed Command :=
  let name := s.readIdent
  match name.after.kind with
  | .leftBracket =>
    let param := parameter levels name.after.advance
    (param.after.expect .rightBracket).finish s.start (.call · name.node param.node)
  | .becomes =>
    let value := expression levels name.after.advance
    value.after.finish s.start (.assign · name.node value.node)
  | found => (name.after.report (.afterName name.node.name found)).finish s.start .error

/-- Reads a single command, with the given number of levels left. -/
def single : Nat → State → Parsed Command
  | 0, s => s.giveUp .error
  | levels + 1, s =>
    match s.kind with
    | .identifier => namedCommand levels s
    | .keyword .beginKw =>
      let inner := commandOf (single levels) s.advance
      ⟨inner.node, inner.after.expect (.keyword .endKw)⟩
    | .keyword .letKw =>
      let decl := declaration levels s.advance
      let body := single levels (decl.after.expect (.keyword .inKw))
      let rest := commandOf (single levels) (body.after.expect (.keyword .endletKw))
      rest.after.finish s.start (.letIn · decl.node body.node rest.node)
    | .keyword .ifKw =>
      let cond := expression levels s.advance
      let thenBranch := single levels (cond.after.expect (.keyword .thenKw))
      let elseBranch := single levels (thenBranch.after.expect (.keyword .elseKw))
      elseBranch.after.finish s.start (.cond · cond.node thenBranch.node elseBranch.node)
    | .keyword .whileKw =>
      let cond := expression levels s.advance
      let body := commandOf (single levels) (cond.after.expect (.keyword .doKw))
      let rest := commandOf (single levels) (body.after.expect (.keyword .wendKw))
      rest.after.finish s.start (.whileDo · cond.node body.node rest.node)
    | .keyword .doKw =>
      let body := single levels s.advance
      let cond := expression levels (body.after.expect (.keyword .wendwhileKw))
      cond.after.finish s.start (.doWhile · body.node cond.node)
    | .keyword .passKw => s.advance.finish s.start .blank
    | _ => s.finish s.start .blank

/-- Reads commands joined by `;`, with the given number of levels left. -/
def command (levels : Nat) : State → Parsed Command := commandOf (single levels)

/-! ## Whole programs -/

/-- The token that ends a list of tokens: the first one for the end of the text, or else one that stands
just behind the last token. -/
def stopToken (tokens : List Token) : Token :=
  match tokens.find? (·.kind = .endOfText) with
  | some stop => stop
  | none =>
    match tokens.getLast? with
    | some last => ⟨.endOfText, "", .point last.span.stop, last.position⟩
    | none => ⟨.endOfText, "", .point 0, ⟨0, 0⟩⟩

/-- The state before anything is read. Tokens behind the end of the text are left out. -/
def initial (tokens : List Token) : State where
  rest := tokens.takeWhile (·.kind ≠ .endOfText)
  stop := stopToken tokens
  readTo := 0
  nextId := 0
  errors := []
  abandoned := false

/-- The offset at which a list of tokens ends, whatever its last token is. -/
def lastOffset (tokens : List Token) : Nat := (tokens.getLast?.map (·.span.stop)).getD 0

end Parser

/-- A program and the errors met while reading it. -/
structure ParseResult where
  program : Program
  errors : List ParseError

/-- Reads a list of tokens as a program. The tree is always there, whatever the errors. -/
def parse (tokens : List Token) : ParseResult :=
  let start := Parser.initial tokens
  let command := Parser.command maxDepth start
  let final := command.after
  let final :=
    if final.kind = .endOfText then final
    else final.report (.expected (.token .endOfText) final.kind)
  { program := ⟨command.node, ⟨start.start, Parser.lastOffset tokens⟩⟩
    errors := final.errors }

/-- Reads a text as a program. What in it is no token stays in the list of tokens as it is. -/
def parseText (text : List Char) : ParseResult := parse (tokenize text).tokens

end TriLang
