import TriLang.CommandLine.Run

/-!
# The command

Gives a run access to the files of the system, prints what it shows, and ends with its exit code. The
exit code 2 says that the arguments could not be understood.
-/
namespace TriLang
set_option autoImplicit false

/-- The number of a system error, which some actions report with the sign turned round. -/
def errorNumber (code : UInt32) : UInt32 := if code < 0x80000000 then code else 0 - code

/-- The cause of a failure that the system reports. -/
def FileError.ofSystem (error : IO.Error) : FileError :=
  match error with
  | .noFileOrDirectory _ _ _ => .absent
  | .permissionDenied _ _ _ => .denied
  | .inappropriateType _ code _ => if errorNumber code = 21 then .isFolder else .notFolder
  | .invalidArgument _ code _ =>
    if errorNumber code = 36 then .nameTooLong else .other (toString error)
  | .resourceExhausted _ code _ =>
    if errorNumber code = 28 then .noRoom else .other (toString error)
  | _ => .other (toString error)

/-- The result of an action on a file, be it done or failed. -/
def attempt {α : Type} (action : IO α) : IO (Except FileError α) := do
  match ← action.toBaseIO with
  | .ok result => return .ok result
  | .error error => return .error (.ofSystem error)

instance : Files IO where
  read path := do
    let contents ← attempt (IO.FS.readBinFile path)
    return contents.bind fun bytes =>
      match String.fromUTF8? bytes with
      | some text => .ok text
      | none => .error .notText
  write path text := attempt do
    IO.FS.withFile path .write fun handle => do
      handle.write text.toUTF8
      handle.flush

end TriLang

open TriLang in
/-- Runs the command with the arguments given. -/
def main (arguments : List String) : IO UInt32 := do
  match Options.ofArguments arguments with
  | .error error =>
    IO.eprintln ("error: " ++ error.message)
    return 2
  | .ok options =>
    let refused := (← IO.getEnv "NO_COLOR").isSome
    let asked := (← IO.getEnv "FORCE_COLOR").isSome
    let outcome ← options.run (colourWanted refused asked)
    IO.print outcome.stdout
    IO.eprint outcome.stderr
    return outcome.exitCode.toUInt32
