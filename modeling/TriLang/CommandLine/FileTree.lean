import TriLang.CommandLine.Files

/-!
# File trees in memory

A `FileTree` holds folders, files and devices by the way that leads to them from the root, and gives the
computations on it access to files. A path is a list of steps, taken from the root or from the folder
worked in: `.` stays in place, `..` goes to the folder around, and a name enters an item. Every step must
be taken from a folder. Behind a slash at the end of a path only a folder may stand, and no file is
written there.

Main definitions: `FileTree`, `FileTree.locate`, `FileTree.read`, `FileTree.write`.
-/
namespace TriLang
set_option autoImplicit false

/-- The way from the root to an item: the item's own name, then the names of the folders around it, the
nearest first. -/
abbrev Location := List String

/-- Where one step from a folder leads. Nothing is around the root but the root. -/
def Location.enter (base : Location) (step : String) : Location :=
  if step = "." then base
  else if step = ".." then base.tail
  else step :: base

inductive FileTree.Item where
  | folder
  | file (bytes : ByteArray)
  /-- A device that takes whatever is written, one text after the other, and gives a reader nothing. -/
  | stream (written : ByteArray)
  /-- A device that has no room for anything. -/
  | full

/-- The bytes that a reader gets from an item. -/
def FileTree.Item.bytes : FileTree.Item → ByteArray
  | file bytes => bytes
  | _ => .empty

/-- Items by location, each location once, and the folder worked in. The root is not among the items. -/
structure FileTree where
  items : List (Location × FileTree.Item)
  here : Location

namespace FileTree

/-! ## Items -/

def empty : FileTree := ⟨[], []⟩

/-- Replaces the item at a location, or adds it at the end. -/
def putItem (location : Location) (item : Item) :
    List (Location × Item) → List (Location × Item)
  | [] => [(location, item)]
  | (key, old) :: rest =>
    if key = location then (key, item) :: rest else (key, old) :: putItem location item rest

def put (t : FileTree) (location : Location) (item : Item) : FileTree :=
  { t with items := putItem location item t.items }

def maxNameBytes : Nat := 255

def find (t : FileTree) : Location → Except FileError Item
  | [] => .ok .folder
  | name :: around =>
    if maxNameBytes < name.utf8ByteSize then .error .nameTooLong
    else
      match t.items.lookup (name :: around) with
      | some item => .ok item
      | none => .error .absent

/-- Makes sure that there is a folder at a location, and around it. -/
def putFolders (t : FileTree) : Location → FileTree
  | [] => t
  | name :: around =>
    let t := t.putFolders around
    if (t.items.lookup (name :: around)).isSome then t else t.put (name :: around) .folder

def filesIn (t : FileTree) (folder : Location) : List (String × ByteArray) :=
  t.items.filterMap fun (location, item) =>
    match location, item with
    | name :: around, .file bytes => if around = folder then some (name, bytes) else none
    | _, _ => none

/-! ## Paths -/

def steps (path : String) : List String :=
  ((path.toList.splitOn '/').filter (· ≠ [])).map String.ofList

/-- Where the first step of a path is taken from. -/
def base (t : FileTree) (path : String) : Location :=
  if path.toList.head? = some '/' then [] else t.here

def endsInSlash (path : String) : Bool := path.toList.getLast? = some '/'

/-- The location that steps lead to. Whether anything is there is left open. -/
def follow (t : FileTree) (location : Location) : List String → Except FileError Location
  | [] => .ok location
  | step :: rest =>
    match t.find location with
    | .ok .folder => t.follow (location.enter step) rest
    | .ok _ => .error .notFolder
    | .error cause => .error cause

def maxPathBytes : Nat := 4095

def locate (t : FileTree) (path : String) : Except FileError Location :=
  if path.isEmpty then .error .absent
  else if maxPathBytes < path.utf8ByteSize then .error .nameTooLong
  else t.follow (t.base path) (steps path)

/-- Adds an item at a path, with the folders around it. -/
def add (t : FileTree) (path : String) (item : Item) : FileTree :=
  let location := (steps path).foldl Location.enter (t.base path)
  (t.putFolders location.tail).put location item

/-! ## Reading and writing -/

def Item.text (item : Item) : Except FileError String :=
  match String.fromUTF8? item.bytes with
  | some text => .ok text
  | none => .error .notText

/-- The text of the item that a path leads to. -/
def read (t : FileTree) (path : String) : Except FileError String := do
  match ← t.find (← t.locate path) with
  | .folder => .error .isFolder
  | item => if endsInSlash path then .error .notFolder else item.text

def writeAt (t : FileTree) (location : Location) (text : String) : Except FileError FileTree :=
  match t.find location with
  | .ok .folder => .error .isFolder
  | .ok .full => .error .noRoom
  | .ok (.stream written) => .ok (t.put location (.stream (written ++ text.toUTF8)))
  | .ok (.file _) | .error .absent => .ok (t.put location (.file text.toUTF8))
  | .error cause => .error cause

/-- The tree after a text was written to the file that a path leads to. -/
def write (t : FileTree) (path text : String) : Except FileError FileTree := do
  let location ← t.locate path
  if endsInSlash path then .error .isFolder else t.writeAt location text

/-- Reading leaves the tree alone, and so does writing that fails. -/
instance : Files (StateM FileTree) where
  read path := fun t => (t.read path, t)
  write path text := fun t =>
    match t.write path text with
    | .ok after => (.ok (), after)
    | .error cause => (.error cause, t)

end FileTree

end TriLang
