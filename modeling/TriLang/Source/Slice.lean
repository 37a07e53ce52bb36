/-!
# Texts cut at byte offsets

A text is a list of characters, and offsets into it count the bytes of its UTF-8 form. `Text.byteLength`
is the length in that measure; `Text.drop?`, `Text.take?` and `Text.slice?` cut a text at offsets, and
have no answer when an offset falls inside a character or beyond the end.
-/
namespace TriLang.Text
set_option autoImplicit false

/-- The number of bytes in the UTF-8 form of a text. -/
def byteLength : List Char → Nat
  | [] => 0
  | c :: cs => c.utf8Size + byteLength cs

/-- What is left of a text after its first `n` bytes, if those are whole characters. -/
def drop? : Nat → List Char → Option (List Char)
  | 0, cs => some cs
  | _ + 1, [] => none
  | n + 1, c :: cs => if c.utf8Size ≤ n + 1 then drop? (n + 1 - c.utf8Size) cs else none

/-- The first `n` bytes of a text, if those are whole characters. -/
def take? : Nat → List Char → Option (List Char)
  | 0, _ => some []
  | _ + 1, [] => none
  | n + 1, c :: cs =>
    if c.utf8Size ≤ n + 1 then (take? (n + 1 - c.utf8Size) cs).map (c :: ·) else none

/-- The part of a text between two byte offsets, if both lie on character boundaries of the text and
are in order. -/
def slice? (start stop : Nat) (text : List Char) : Option (List Char) :=
  if start ≤ stop then (drop? start text).bind (take? (stop - start)) else none

end TriLang.Text
