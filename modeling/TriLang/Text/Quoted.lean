import TriLang.Text.Unprintable

/-!
# Quoted text

For dumps, a text is written between quotes in such a way that every character in it can be seen: the
quote and the backslash stand behind a backslash, the usual control characters have a letter, and any
other character that does not show is written as its code point in hexadecimal.
-/
namespace TriLang.Text
set_option autoImplicit false

/-- A code point in lower-case hexadecimal between braces. -/
def escapeCodePoint (c : Char) : List Char :=
  ['\\', 'u', '\x7b'] ++ Nat.toDigits 16 c.toNat ++ ['\x7d']

/-- A character as it is written between the given quotes. -/
def escapeQuoted (quote c : Char) : List Char :=
  if c = '\x00' then ['\\', '0']
  else if c = '\t' then ['\\', 't']
  else if c = '\r' then ['\\', 'r']
  else if c = '\n' then ['\\', 'n']
  else if c = '\\' then ['\\', '\\']
  else if c = quote then ['\\', c]
  else if isPrintable c then [c]
  else escapeCodePoint c

def quoteString (s : String) : String :=
  String.ofList ('"' :: s.toList.flatMap (escapeQuoted '"') ++ ['"'])

def quoteChar (c : Char) : String := String.ofList ('\'' :: escapeQuoted '\'' c ++ ['\''])

end TriLang.Text
