import TriLang.Compilation.Analysis
import TriLang.Syntax.Layout
import TriLang.Text.Json

/-!
# Listings

The target of compilation is a `Listing`: the program in canonical layout, and a table of all names it
declares. Its binary form is the table as JSON. Its text form is the program followed by the table in
comments, so that the text form is a program again, and the same one.

Main definitions: `Listing`, `Listing.generate`, `Listing.toBinary`, `Listing.toText`.
-/
namespace TriLang
set_option autoImplicit false

/-- One declared name: what it is, its type, and where it is declared. -/
structure ListingEntry where
  name : String
  kind : String
  type : String
  position : Position
deriving DecidableEq

/-- A program in canonical layout, with the names it declares. -/
structure Listing where
  program : List Char
  entries : List ListingEntry

namespace ListingEntry

/-- What stands for the type of a name that has none. -/
def noType : String := "?"

/-- The entry of a symbol that a program declares. -/
def ofSymbol (lines : LineMap) (a : Analyzed) (s : Symbol) : ListingEntry where
  name := s.name
  kind := s.kind.describe
  type := ((a.symbolType? s.id).map Ty.name).getD noType
  position := lines.position ((s.span?.map Span.start).getD 0)

def toJson (e : ListingEntry) : Json :=
  .object
    [("name", .string e.name), ("kind", .string e.kind), ("type", .string e.type),
      ("line", .number e.position.line), ("column", .number e.position.column)]

def toComment (e : ListingEntry) : List Char :=
  ("! " ++ e.position.toText ++ " " ++ e.kind ++ " " ++ e.name ++ ": " ++ e.type ++ "\n").toList

end ListingEntry

namespace Listing

/-- The listing of an analysed program, with `width` spaces to a level. -/
def generate (source : List Char) (width : Nat) (a : Analyzed) : Listing where
  program := a.program.print width
  entries := a.resolution.symbols.declared.map (ListingEntry.ofSymbol (LineMap.ofText source) a)

def toBinary (l : Listing) : String := (Json.array (l.entries.map ListingEntry.toJson)).pretty

/-- The comments that follow the program: a heading and one line for each declared name, or nothing at
all if no name is declared. -/
def comments (l : Listing) : List Char :=
  if l.entries.isEmpty then []
  else "! declarations\n".toList ++ l.entries.flatMap ListingEntry.toComment

/-- The program, followed by the table of declared names in comments. -/
def toText (l : Listing) : List Char := l.program ++ l.comments

end Listing

end TriLang
