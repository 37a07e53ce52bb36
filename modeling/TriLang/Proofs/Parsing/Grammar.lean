import TriLang.Proofs.Syntax.Marks
import TriLang.Syntax.Parser

/-! # The grammar

A derivation is a tree of applications of grammar rules:

    Command           := SingleCommand | Command ';' SingleCommand
    SingleCommand     := Identifier '(' Parameter ')' | Identifier '=' Expression
                       | 'begin' Command 'end'
                       | 'let' Declaration 'in' SingleCommand 'endlet' Command
                       | 'if' Expression 'then' SingleCommand 'else' SingleCommand
                       | 'while' Expression 'do' Command 'wend' Command
                       | 'do' SingleCommand 'wendwhile' Expression
                       | 'pass' | ε
    Parameter         := Expression | 'var' Identifier | ε
    Declaration       := SingleDeclaration | Declaration ';' SingleDeclaration
    SingleDeclaration := 'const' Identifier '~' Expression | 'var' Identifier TypeDenoter
    TypeDenoter       := Identifier
    Expression        := PrimaryExpr | Expression Operator PrimaryExpr
    PrimaryExpr       := IntLiteral | CharLiteral | Identifier | Operator PrimaryExpr
                       | '(' Expression ')'

The rules that join items by `;` or by operators are written with the joined part in front. The word that
a derivation derives is its `yield`, the tree it stands for its `tree`, and its `depth` is how deep single
commands and primary expressions nest in it.

The grammar is ambiguous: a `;` behind the command that follows `endlet` or `wend` may belong to that
command or to the list around the whole `let` or `while`. A derivation is `Innermost` if every `;` belongs
to the innermost list of commands that is still open where it stands. -/
namespace TriLang
set_option autoImplicit false

/-! ## Terminals -/

/-- What the grammar sees of a token: its kind and, if it is a name, an operator or a literal, what it
says. -/
inductive Terminal where
  | int (spelling : String)
  | char (value : Char)
  | name (spelling : String)
  | operator (spelling : String)
  /-- A token about which its kind says everything. -/
  | fixed (kind : Token.Kind)
deriving DecidableEq

namespace Terminal

def kind : Terminal → Token.Kind
  | int _ => .intLiteral
  | char _ => .charLiteral
  | name _ => .identifier
  | operator _ => .operator
  | fixed kind => kind

def word (k : Keyword) : Terminal := .fixed (.keyword k)

/-- What the grammar sees of a token of the given kind and spelling. -/
def ofSpelling (kind : Token.Kind) (spelling : String) : Terminal :=
  match kind with
  | .intLiteral => .int spelling
  | .charLiteral => .char (Parser.literalChar spelling)
  | .identifier => .name spelling
  | .operator => .operator spelling
  | kind => .fixed kind

def ofToken (t : Token) : Terminal := ofSpelling t.kind t.spelling

theorem kind_ofToken (t : Token) : (ofToken t).kind = t.kind := by
  unfold ofToken ofSpelling
  split
  all_goals first | exact Eq.symm ‹_› | rfl

end Terminal

/-! ## Derivations -/

/-- Whether a nonterminal derives a single item, or items joined in a chain. -/
inductive Extent where
  | item
  | chain

/-- The derivations from `PrimaryExpr` and from `Expression`. -/
inductive ExprDerivation : Extent → Type where
  | int (spelling : String) : ExprDerivation .item
  | char (value : Char) : ExprDerivation .item
  | name (spelling : String) : ExprDerivation .item
  | unary (op : String) (operand : ExprDerivation .item) : ExprDerivation .item
  | brackets (inner : ExprDerivation .chain) : ExprDerivation .item
  | single (first : ExprDerivation .item) : ExprDerivation .chain
  | binary (lhs : ExprDerivation .chain) (op : String) (rhs : ExprDerivation .item) :
    ExprDerivation .chain

/-- The derivations from `Parameter`. -/
inductive ParamDerivation where
  | value (expr : ExprDerivation .chain)
  | reference (name : String)
  | empty

/-- The derivations from `SingleDeclaration` and from `Declaration`. -/
inductive DeclDerivation : Extent → Type where
  | const (name : String) (value : ExprDerivation .chain) : DeclDerivation .item
  | var (name type : String) : DeclDerivation .item
  | single (first : DeclDerivation .item) : DeclDerivation .chain
  | seq (front : DeclDerivation .chain) (last : DeclDerivation .item) : DeclDerivation .chain

/-- The derivations from `SingleCommand` and from `Command`. -/
inductive CommandDerivation : Extent → Type where
  | assign (target : String) (value : ExprDerivation .chain) : CommandDerivation .item
  | call (callee : String) (param : ParamDerivation) : CommandDerivation .item
  | block (inner : CommandDerivation .chain) : CommandDerivation .item
  | letIn (decl : DeclDerivation .chain) (body : CommandDerivation .item)
    (rest : CommandDerivation .chain) : CommandDerivation .item
  | cond (c : ExprDerivation .chain) (thenBranch elseBranch : CommandDerivation .item) :
    CommandDerivation .item
  | whileDo (c : ExprDerivation .chain) (body rest : CommandDerivation .chain) :
    CommandDerivation .item
  | doWhile (body : CommandDerivation .item) (c : ExprDerivation .chain) : CommandDerivation .item
  | pass : CommandDerivation .item
  | empty : CommandDerivation .item
  | single (first : CommandDerivation .item) : CommandDerivation .chain
  | seq (front : CommandDerivation .chain) (last : CommandDerivation .item) :
    CommandDerivation .chain

/-! ## Expressions -/

namespace ExprDerivation

/-- The word that is derived. -/
def yield {x : Extent} : ExprDerivation x → List Terminal
  | int spelling => [.int spelling]
  | char value => [.char value]
  | name spelling => [.name spelling]
  | unary op operand => .operator op :: operand.yield
  | brackets inner => .fixed .leftBracket :: (inner.yield ++ [.fixed .rightBracket])
  | single first => first.yield
  | binary lhs op rhs => lhs.yield ++ .operator op :: rhs.yield

/-- How deep primary expressions nest. -/
def depth {x : Extent} : ExprDerivation x → Nat
  | int _ => 1
  | char _ => 1
  | name _ => 1
  | unary _ operand => operand.depth + 1
  | brackets inner => inner.depth + 1
  | single first => first.depth
  | binary lhs _ rhs => max lhs.depth rhs.depth

/-- The tree that is derived. Brackets leave no trace in it. -/
def tree {x : Extent} : ExprDerivation x → Expr
  | int spelling => .int default spelling
  | char value => .char default value
  | name spelling => .name default ⟨default, spelling⟩
  | unary op operand => .unary default ⟨default, op⟩ operand.tree
  | brackets inner => inner.tree
  | single first => first.tree
  | binary lhs op rhs => .binary default ⟨default, op⟩ lhs.tree rhs.tree

end ExprDerivation

/-! ## Parameters and declarations -/

namespace ParamDerivation

def yield : ParamDerivation → List Terminal
  | value expr => expr.yield
  | reference name => [.word .varKw, .name name]
  | empty => []

def depth : ParamDerivation → Nat
  | value expr => expr.depth
  | reference _ => 0
  | empty => 0

def tree : ParamDerivation → Param
  | value expr => .value default expr.tree
  | reference name => .reference default ⟨default, name⟩
  | empty => .blank default

end ParamDerivation

namespace DeclDerivation

def yield {x : Extent} : DeclDerivation x → List Terminal
  | const name value => .word .constKw :: .name name :: .fixed .is :: value.yield
  | var name type => [.word .varKw, .name name, .name type]
  | single first => first.yield
  | seq front last => front.yield ++ .fixed .semicolon :: last.yield

def depth {x : Extent} : DeclDerivation x → Nat
  | const _ value => value.depth
  | var _ _ => 0
  | single first => first.depth
  | seq front last => max front.depth last.depth

/-- The tree that is derived, chains nested to the left. -/
def tree {x : Extent} : DeclDerivation x → Decl
  | const name value => .const default ⟨default, name⟩ value.tree
  | var name type => .var default ⟨default, name⟩ ⟨default, ⟨default, type⟩⟩
  | single first => first.tree
  | seq front last => .seq default front.tree last.tree

end DeclDerivation

/-! ## Commands -/

namespace CommandDerivation

def yield {x : Extent} : CommandDerivation x → List Terminal
  | assign target value => .name target :: .fixed .becomes :: value.yield
  | call callee param =>
    .name callee :: .fixed .leftBracket :: (param.yield ++ [.fixed .rightBracket])
  | block inner => .word .beginKw :: (inner.yield ++ [.word .endKw])
  | letIn decl body rest =>
    .word .letKw :: (decl.yield ++ .word .inKw :: (body.yield ++ .word .endletKw :: rest.yield))
  | cond c thenBranch elseBranch =>
    .word .ifKw :: (c.yield ++ .word .thenKw ::
      (thenBranch.yield ++ .word .elseKw :: elseBranch.yield))
  | whileDo c body rest =>
    .word .whileKw :: (c.yield ++ .word .doKw :: (body.yield ++ .word .wendKw :: rest.yield))
  | doWhile body c => .word .doKw :: (body.yield ++ .word .wendwhileKw :: c.yield)
  | pass => [.word .passKw]
  | empty => []
  | single first => first.yield
  | seq front last => front.yield ++ .fixed .semicolon :: last.yield

/-- How deep single commands and primary expressions nest. -/
def depth {x : Extent} : CommandDerivation x → Nat
  | assign _ value => value.depth + 1
  | call _ param => param.depth + 1
  | block inner => inner.depth + 1
  | letIn decl body rest => max decl.depth (max body.depth rest.depth) + 1
  | cond c thenBranch elseBranch => max c.depth (max thenBranch.depth elseBranch.depth) + 1
  | whileDo c body rest => max c.depth (max body.depth rest.depth) + 1
  | doWhile body c => max body.depth c.depth + 1
  | pass => 1
  | empty => 1
  | single first => first.depth
  | seq front last => max front.depth last.depth

/-- The tree that is derived, chains nested to the left. Blocks leave no trace in it. -/
def tree {x : Extent} : CommandDerivation x → Command
  | assign target value => .assign default ⟨default, target⟩ value.tree
  | call callee param => .call default ⟨default, callee⟩ param.tree
  | block inner => inner.tree
  | letIn decl body rest => .letIn default decl.tree body.tree rest.tree
  | cond c thenBranch elseBranch => .cond default c.tree thenBranch.tree elseBranch.tree
  | whileDo c body rest => .whileDo default c.tree body.tree rest.tree
  | doWhile body c => .doWhile default body.tree c.tree
  | pass => .blank default
  | empty => .blank default
  | single first => first.tree
  | seq front last => .seq default front.tree last.tree

/-- Whether a list of commands is still open at the end of what is derived, so that a `;` could go on
with it. -/
def openEnded {x : Extent} : CommandDerivation x → Bool
  | letIn _ _ _ => true
  | whileDo _ _ _ => true
  | cond _ _ elseBranch => elseBranch.openEnded
  | single first => first.openEnded
  | seq _ last => last.openEnded
  | _ => false

/-- Every `;` belongs to the innermost list of commands that is open where it stands: no list that ends
in front of it is open. -/
def Innermost {x : Extent} : CommandDerivation x → Prop
  | assign _ _ => True
  | call _ _ => True
  | block inner => inner.Innermost
  | letIn _ body rest => body.Innermost ∧ rest.Innermost
  | cond _ thenBranch elseBranch => thenBranch.Innermost ∧ elseBranch.Innermost
  | whileDo _ body rest => body.Innermost ∧ rest.Innermost
  | doWhile body _ => body.Innermost
  | pass => True
  | empty => True
  | single first => first.Innermost
  | seq front last => front.openEnded = false ∧ front.Innermost ∧ last.Innermost

end CommandDerivation

/-! ## Derived trees have no error nodes -/

theorem ExprDerivation.errorFree_tree {x : Extent} (D : ExprDerivation x) : D.tree.ErrorFree := by
  induction D with
  | int spelling => trivial
  | char value => trivial
  | name spelling => trivial
  | unary op operand ih => exact ih
  | brackets inner ih => exact ih
  | single first ih => exact ih
  | binary lhs op rhs ihl ihr => exact ⟨ihl, ihr⟩

theorem ParamDerivation.errorFree_tree (D : ParamDerivation) : D.tree.ErrorFree := by
  cases D with
  | value expr => exact expr.errorFree_tree
  | reference name => trivial
  | empty => trivial

theorem DeclDerivation.errorFree_tree {x : Extent} (D : DeclDerivation x) : D.tree.ErrorFree := by
  induction D with
  | const name value => exact value.errorFree_tree
  | var name type => trivial
  | single first ih => exact ih
  | seq front last ihf ihl => exact ⟨ihf, ihl⟩

theorem CommandDerivation.errorFree_tree {x : Extent} (D : CommandDerivation x) :
    D.tree.ErrorFree := by
  induction D with
  | assign target value => exact value.errorFree_tree
  | call callee param => exact param.errorFree_tree
  | block inner ih => exact ih
  | letIn decl body rest ihb ihr => exact ⟨decl.errorFree_tree, ihb, ihr⟩
  | cond c thenBranch elseBranch iht ihe => exact ⟨c.errorFree_tree, iht, ihe⟩
  | whileDo c body rest ihb ihr => exact ⟨c.errorFree_tree, ihb, ihr⟩
  | doWhile body c ih => exact ⟨ih, c.errorFree_tree⟩
  | pass => trivial
  | empty => trivial
  | single first ih => exact ih
  | seq front last ihf ihl => exact ⟨ihf, ihl⟩

/-! ## Derived trees have bare marks -/

theorem ExprDerivation.bare_tree {x : Extent} (D : ExprDerivation x) :
    D.tree.mapMarks .bare = D.tree := by
  induction D with
  | int spelling => rfl
  | char value => rfl
  | name spelling => rfl
  | unary op operand ih => simp only [tree, Expr.mapMarks, ih]; rfl
  | brackets inner ih => exact ih
  | single first ih => exact ih
  | binary lhs op rhs ihl ihr => simp only [tree, Expr.mapMarks, ihl, ihr]; rfl

theorem ParamDerivation.bare_tree (D : ParamDerivation) : D.tree.mapMarks .bare = D.tree := by
  cases D with
  | value expr => simp only [tree, Param.mapMarks, expr.bare_tree]; rfl
  | reference name => rfl
  | empty => rfl

theorem DeclDerivation.bare_tree {x : Extent} (D : DeclDerivation x) :
    D.tree.mapMarks .bare = D.tree := by
  induction D with
  | const name value => simp only [tree, Decl.mapMarks, value.bare_tree]; rfl
  | var name type => rfl
  | single first ih => exact ih
  | seq front last ihf ihl => simp only [tree, Decl.mapMarks, ihf, ihl]; rfl

theorem CommandDerivation.bare_tree {x : Extent} (D : CommandDerivation x) :
    D.tree.bare = D.tree := by
  unfold Command.bare
  induction D with
  | assign target value => simp only [tree, Command.mapMarks, value.bare_tree]; rfl
  | call callee param => simp only [tree, Command.mapMarks, param.bare_tree]; rfl
  | block inner ih => exact ih
  | letIn decl body rest ihb ihr =>
    simp only [tree, Command.mapMarks, decl.bare_tree, ihb, ihr]; rfl
  | cond c thenBranch elseBranch iht ihe =>
    simp only [tree, Command.mapMarks, c.bare_tree, iht, ihe]; rfl
  | whileDo c body rest ihb ihr => simp only [tree, Command.mapMarks, c.bare_tree, ihb, ihr]; rfl
  | doWhile body c ih => simp only [tree, Command.mapMarks, c.bare_tree, ih]; rfl
  | pass => rfl
  | empty => rfl
  | single first ih => exact ih
  | seq front last ihf ihl => simp only [tree, Command.mapMarks, ihf, ihl]; rfl

end TriLang
