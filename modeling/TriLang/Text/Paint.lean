/-!
# Coloured text

On a terminal a text is coloured by control sequences: the sequence of a style before it, and the
sequence that ends all styles behind it. `paint` adds them when colours are wanted. A text that itself
ends styles within would lose its colour there, so its style is opened again behind each such place.
-/
namespace TriLang
set_option autoImplicit false

inductive Style where
  | redBold
  | yellowBold
  | blueBold
  | greenBold
  | cyanBold
  | blue
  | cyan
  | bold
  | dimmed
deriving DecidableEq

namespace Style

def codes : Style → String
  | redBold => "1;31"
  | yellowBold => "1;33"
  | blueBold => "1;34"
  | greenBold => "1;32"
  | cyanBold => "1;36"
  | blue => "34"
  | cyan => "36"
  | bold => "1"
  | dimmed => "2"

def opening (style : Style) : List Char := '\x1b' :: '[' :: style.codes.toList ++ ['m']

def closing : List Char := ['\x1b', '[', '0', 'm']

/-- Opens a style again behind each sequence in a text that closes all styles. -/
def reopen (style : Style) : List Char → List Char
  | '\x1b' :: '[' :: '0' :: 'm' :: rest => closing ++ style.opening ++ reopen style rest
  | c :: rest => c :: reopen style rest
  | [] => []

end Style

/-- A text in a style, if colours are wanted. -/
def paint (colour : Bool) (style : Style) (text : String) : String :=
  if colour then
    String.ofList (style.opening ++ style.reopen text.toList ++ Style.closing)
  else text

end TriLang
