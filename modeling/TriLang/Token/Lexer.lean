import TriLang.Token.Basic

/-!
# From text to tokens

`tokenize` reads a text from left to right. At each place `Lexeme.classify` looks at the next character
and what follows it and decides what starts there and how far it extends: a separator (blanks, or a
comment from `!` to the end of its line), a token, or a stretch that is no token. Words, numbers, blanks
and operators are as long as they can be. Bad stretches become `error` tokens, each with one
`LexError`, and reading goes on behind them. The list of tokens ends with a single `endOfText`.

Main definitions: `Lexeme.classify`, `Lexeme.split`, `tokenize`.
-/
namespace TriLang
set_option autoImplicit false

/-! ## Errors -/

/-- Why a stretch of source is no token. -/
inductive LexError.Cause where
  /-- No token begins with this character. -/
  | unexpectedCharacter (c : Char)
  /-- A quote that does not open a character between two quotes. -/
  | malformedCharLiteral
deriving DecidableEq

/-- A stretch of source that is no token, and why. -/
structure LexError where
  cause : LexError.Cause
  span : Span
deriving DecidableEq

namespace LexError.Cause

def message : Cause → String
  | unexpectedCharacter c => "unexpected character '" ++ c.toString ++ "'"
  | malformedCharLiteral => "malformed character literal"

def hint? : Cause → Option String
  | unexpectedCharacter _ => none
  | malformedCharLiteral =>
    some "a character literal is one character between quotes, like 'a'"

end LexError.Cause

/-! ## Classes of characters

All of them hold ASCII characters only; any other character is outside every class. -/

/-- The characters that separate tokens. -/
def isBlank (c : Char) : Bool := c = ' ' || c = '\t' || c = '\r' || c = '\n'

def isOperatorStart (c : Char) : Bool :=
  c = '+' || c = '-' || c = '*' || c = '/' || c = '<' || c = '>' || c = '\\'

def isOperatorRest (c : Char) : Bool := isOperatorStart c || c = '='

/-! ## Lexemes -/

/-- What a stretch of text is read as. -/
inductive Lexeme.Class where
  | separator
  | token (kind : Token.Kind)
  | bad (cause : LexError.Cause)
deriving DecidableEq

/-- A classified stretch of text and the offset at which it starts. -/
structure Lexeme where
  kind : Lexeme.Class
  text : List Char
  start : Nat
deriving DecidableEq

namespace Lexeme

def span (l : Lexeme) : Span := ⟨l.start, l.start + Text.byteLength l.text⟩

/-- The kind of a word: a reserved word, or else an identifier. -/
def wordKind (word : List Char) : Token.Kind :=
  match Keyword.ofSpelling? (String.ofList word) with
  | some k => .keyword k
  | none => .identifier

/-- Decides what starts with the character `c`, followed by `rest`: its class, and how many characters
of `rest` belong to it. -/
def classify (c : Char) (rest : List Char) : Class × Nat :=
  if isBlank c then (.separator, (rest.takeWhile isBlank).length)
  else if c = '!' then (.separator, (rest.takeWhile (· ≠ '\n')).length)
  else if c.isAlpha then
    let tail := rest.takeWhile Char.isAlphanum
    (.token (wordKind (c :: tail)), tail.length)
  else if c.isDigit then (.token .intLiteral, (rest.takeWhile Char.isDigit).length)
  else if isOperatorStart c then (.token .operator, (rest.takeWhile isOperatorRest).length)
  else if c = '\'' then
    match rest with
    | _ :: '\'' :: _ => (.token .charLiteral, 2)
    | _ :: _ => (.bad .malformedCharLiteral, 1)
    | [] => (.bad .malformedCharLiteral, 0)
  else if c = ';' then (.token .semicolon, 0)
  else if c = '=' then (.token .becomes, 0)
  else if c = '~' then (.token .is, 0)
  else if c = '(' then (.token .leftBracket, 0)
  else if c = ')' then (.token .rightBracket, 0)
  else (.bad (.unexpectedCharacter c), 0)

/-- Cuts a text that begins at the given offset into lexemes. Put one after the other they are the text
again. -/
def split (offset : Nat) : List Char → List Lexeme
  | [] => []
  | c :: rest =>
    let (kind, extent) := classify c rest
    let text := c :: rest.take extent
    ⟨kind, text, offset⟩ :: split (offset + Text.byteLength text) (rest.drop extent)
termination_by text => text.length
decreasing_by simp only [List.length_cons, List.length_drop]; omega

/-- The token a lexeme stands for, if it is not a separator. -/
def token? (lines : LineMap) (l : Lexeme) : Option Token :=
  match l.kind with
  | .separator => none
  | .token kind => some ⟨kind, String.ofList l.text, l.span, lines.position l.start⟩
  | .bad _ => some ⟨.error, String.ofList l.text, l.span, lines.position l.start⟩

/-- The error a lexeme is reported with, if it is no token. -/
def error? (l : Lexeme) : Option LexError :=
  match l.kind with
  | .bad cause => some ⟨cause, l.span⟩
  | _ => none

end Lexeme

/-! ## The whole text -/

/-- The tokens of a text, and what in it is no token. -/
structure Lexed where
  tokens : List Token
  errors : List LexError

/-- The token that stands for the end of a text. -/
def endOfTextToken (text : List Char) : Token :=
  let stop := Text.byteLength text
  ⟨.endOfText, "", .point stop, (LineMap.ofText text).position stop⟩

def tokenize (text : List Char) : Lexed :=
  let lines := LineMap.ofText text
  let lexemes := Lexeme.split 0 text
  { tokens := lexemes.filterMap (Lexeme.token? lines) ++ [endOfTextToken text]
    errors := lexemes.filterMap Lexeme.error? }

end TriLang
