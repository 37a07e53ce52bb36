import TriLang.Source.Span
import TriLang.Source.LineMap

/-!
# Tokens

A program is read as a sequence of tokens. Each has a kind, the exact spelling it has in the source, the
span of that spelling and the position of its first character. The reserved words are the constructors
of `Keyword`; every one of them is a kind of its own.

Main definitions: `Keyword`, `Token.Kind`, `Token`, `Keyword.ofSpelling?`.
-/
namespace TriLang
set_option autoImplicit false

inductive Keyword where
  | beginKw
  | constKw
  | doKw
  | elseKw
  | endKw
  | ifKw
  | inKw
  | letKw
  | thenKw
  | varKw
  | whileKw
  | wendKw
  | wendwhileKw
  | passKw
  | endletKw
deriving DecidableEq

namespace Keyword

/-- Every reserved word, in the order of the table. -/
def all : List Keyword :=
  [beginKw, constKw, doKw, elseKw, endKw, ifKw, inKw, letKw, thenKw, varKw, whileKw, wendKw,
    wendwhileKw, passKw, endletKw]

def spelling : Keyword → String
  | beginKw => "begin"
  | constKw => "const"
  | doKw => "do"
  | elseKw => "else"
  | endKw => "end"
  | ifKw => "if"
  | inKw => "in"
  | letKw => "let"
  | thenKw => "then"
  | varKw => "var"
  | whileKw => "while"
  | wendKw => "wend"
  | wendwhileKw => "wendwhile"
  | passKw => "pass"
  | endletKw => "endlet"

/-- The name under which a reserved word's kind is listed. -/
def name : Keyword → String
  | beginKw => "Begin"
  | constKw => "Const"
  | doKw => "Do"
  | elseKw => "Else"
  | endKw => "End"
  | ifKw => "If"
  | inKw => "In"
  | letKw => "Let"
  | thenKw => "Then"
  | varKw => "Var"
  | whileKw => "While"
  | wendKw => "Wend"
  | wendwhileKw => "WendWhile"
  | passKw => "Pass"
  | endletKw => "Endlet"

/-- The reserved word with a given spelling. Case matters. -/
def ofSpelling? (word : String) : Option Keyword := all.find? (·.spelling = word)

end Keyword

inductive Token.Kind where
  | intLiteral
  | charLiteral
  | identifier
  | operator
  | keyword (word : Keyword)
  | semicolon
  | becomes
  | is
  | leftBracket
  | rightBracket
  /-- The end of the source, which the token list shows as a token with an empty spelling. -/
  | endOfText
  /-- A stretch of source that is no token of the language. -/
  | error
deriving DecidableEq

namespace Token.Kind

/-- Every kind, in the order in which the kinds are listed. -/
def all : List Kind :=
  [intLiteral, charLiteral, identifier, operator] ++ Keyword.all.map keyword ++
    [semicolon, becomes, is, leftBracket, rightBracket, endOfText, error]

def name : Kind → String
  | intLiteral => "IntLiteral"
  | charLiteral => "CharLiteral"
  | identifier => "Identifier"
  | operator => "Operator"
  | keyword word => word.name
  | semicolon => "Semicolon"
  | becomes => "Becomes"
  | is => "Is"
  | leftBracket => "LeftBracket"
  | rightBracket => "RightBracket"
  | endOfText => "EndOfText"
  | error => "Error"

/-- How messages speak of a token of this kind. -/
def describe : Kind → String
  | intLiteral => "an integer literal"
  | charLiteral => "a character literal"
  | identifier => "a name"
  | operator => "an operator"
  | keyword word => "'" ++ word.spelling ++ "'"
  | semicolon => "';'"
  | becomes => "'='"
  | is => "'~'"
  | leftBracket => "'('"
  | rightBracket => "')'"
  | endOfText => "end of text"
  | error => "an invalid token"

/-- Whether the kind is that of a reserved word. -/
def isKeyword : Kind → Bool
  | keyword _ => true
  | _ => false

end Token.Kind

/-- A token, with the place it has in the source. -/
structure Token where
  kind : Token.Kind
  /-- The source text of the token. -/
  spelling : String
  span : Span
  /-- The position of the token's first character. -/
  position : Position
deriving DecidableEq

end TriLang
