import TriLang.Source.Slice

/-!
# Lines and columns

A `LineMap` is built once from a text and answers which line and column a byte offset lies on. Lines and
columns count from 1, and columns count characters, not bytes. It keeps the offset at which each line
starts and the offset and surplus width of each character of more than one byte; both tables are sorted,
so a look-up finds its place in them by halving (`partitionPoint`).

Offsets and line numbers are words of 32 bits: a larger number stands for its remainder by `wordSize`.

Main definitions: `Position`, `LineMap.ofText`, `LineMap.position`, `LineMap.lineText?`.
-/
namespace TriLang
set_option autoImplicit false

/-- A place in a text as a reader counts it: line and column, both from 1. -/
structure Position where
  line : Nat
  column : Nat
deriving DecidableEq, Inhabited

/-- The written form of a position, `line:column`. -/
def Position.toText (p : Position) : String := s!"{p.line}:{p.column}"

/-- A character of more than one byte: where it starts, and by how many bytes it exceeds one. -/
structure WideChar where
  offset : Nat
  surplus : Nat
deriving DecidableEq, Inhabited

/-- The tables by which offsets are turned into lines and columns. -/
structure LineMap where
  /-- The offset of the first byte of each line, in order. A text has at least one line. -/
  starts : Array Nat
  /-- The characters of more than one byte, in order. -/
  wide : Array WideChar

/-- The number of offsets that differ from one another, two to the power of 32; a larger offset wraps
around. -/
def wordSize : Nat := 4294967296

/-- The least index from `lo` on, and at most `hi`, at which a condition stops to hold, found by
halving. It is meant for a condition that never holds again once it has failed. -/
def partitionPoint (p : Nat → Bool) (lo hi : Nat) : Nat :=
  if lo < hi then
    if p ((lo + hi) / 2) then partitionPoint p ((lo + hi) / 2 + 1) hi
    else partitionPoint p lo ((lo + hi) / 2)
  else lo
termination_by hi - lo
decreasing_by all_goals omega

namespace LineMap

/-! ## Building the tables -/

/-- The offsets just past the newlines of a text that begins at the given offset. -/
def startsFrom (offset : Nat) : List Char → List Nat
  | [] => []
  | c :: cs =>
    if c = '\n' then (offset + 1) :: startsFrom (offset + 1) cs
    else startsFrom (offset + c.utf8Size) cs

/-- The wide characters of a text that begins at the given offset. -/
def wideFrom (offset : Nat) : List Char → List WideChar
  | [] => []
  | c :: cs =>
    if 1 < c.utf8Size then ⟨offset, c.utf8Size - 1⟩ :: wideFrom (offset + c.utf8Size) cs
    else wideFrom (offset + c.utf8Size) cs

def ofText (text : List Char) : LineMap where
  starts := (0 :: startsFrom 0 text).toArray
  wide := (wideFrom 0 text).toArray

/-! ## Looking up -/

def lineCount (m : LineMap) : Nat := m.starts.size

/-- The offset at which the line with the given index (from 0) starts. -/
def lineStart (m : LineMap) (index : Nat) : Nat := m.starts.getD index 0

/-- The index (from 0) of the line an offset lies on: the last one that starts no later. -/
def lineIndex (m : LineMap) (offset : Nat) : Nat :=
  partitionPoint (fun i => m.lineStart i ≤ offset) 0 m.starts.size - 1

def wideBefore (m : LineMap) (offset : Nat) : Nat :=
  partitionPoint (fun i => (m.wide.getD i default).offset < offset) 0 m.wide.size

/-- The surplus bytes of the wide characters that start from `start` on and before `offset`. -/
def surplusBetween (m : LineMap) (start offset : Nat) : Nat :=
  (m.wide.extract (m.wideBefore start) (m.wideBefore offset)).toList.foldr
    (fun c total => c.surplus + total) 0

/-- The line and column of a byte offset. The column is one more than the bytes since the start of the
line, less the surplus of the wide characters among them. -/
def position (m : LineMap) (offset : Nat) : Position :=
  let offset := offset % wordSize
  let line := m.lineIndex offset
  let start := m.lineStart line
  ⟨line + 1, offset - start - m.surplusBetween start offset + 1⟩

/-- The text of a line, counted from 1, without the newline that ends it. -/
def lineText? (m : LineMap) (text : List Char) (line : Nat) : Option (List Char) :=
  match line % wordSize with
  | 0 => none
  | index + 1 =>
    match m.starts[index]? with
    | none => none
    | some start =>
      match m.starts[index + 1]? with
      | some next => Text.slice? start (next - 1) text
      | none => Text.slice? start (Text.byteLength text) text

end LineMap

end TriLang
