/-!
# Access to files

`Files m` says how files are read and written by computations in `m`. Reading gives a whole text, and
writing replaces a whole file; both can fail, for a `FileError`. A `FileFault` is a failure together with
what was attempted.
-/
namespace TriLang
set_option autoImplicit false

inductive FileError where
  | absent
  | isFolder
  | notFolder
  | notText
  | nameTooLong
  | noRoom
  | denied
  /-- Any other failure, with the description that the system gives of it. -/
  | other (description : String)
deriving DecidableEq

def FileError.message : FileError → String
  | absent => "No such file or directory (os error 2)"
  | isFolder => "Is a directory (os error 21)"
  | notFolder => "Not a directory (os error 20)"
  | notText => "stream did not contain valid UTF-8"
  | nameTooLong => "File name too long (os error 36)"
  | noRoom => "No space left on device (os error 28)"
  | denied => "Permission denied (os error 13)"
  | other description => description

/-- How files are read and written. -/
class Files (m : Type → Type) where
  /-- The text of a file. -/
  read : String → m (Except FileError String)
  /-- Makes a text the contents of a file. -/
  write : String → String → m (Except FileError Unit)

inductive FileAction where
  | read
  | write
deriving DecidableEq

def FileAction.name : FileAction → String
  | read => "read"
  | write => "write"

structure FileFault where
  action : FileAction
  path : String
  cause : FileError
deriving DecidableEq

def FileFault.message (f : FileFault) : String :=
  "cannot " ++ f.action.name ++ " `" ++ f.path ++ "`: " ++ f.cause.message

end TriLang
