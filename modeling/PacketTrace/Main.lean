import PacketTrace.Command.Line
import Std.Time

/-!
# `Main` — the program

The operations on files and the clock of the machine, and the program that runs a command line with
them.
-/

namespace PacketTrace

/-- A failure of the machine. -/
def systemError : IO.Error → SystemError
  | .noFileOrDirectory .. => .notFound
  | .alreadyExists _ 17 _ => .alreadyExists
  | .inappropriateType _ 20 _ => .notDirectory
  | .inappropriateType _ 21 _ => .isDirectory
  | .invalidArgument _ 36 _ => .nameTooLong
  | .permissionDenied _ number description
  | .resourceExhausted _ number description
  | .alreadyExists _ number description
  | .inappropriateType _ number description
  | .invalidArgument _ number description => .other description.toList number.toNat
  | e => .other e.toString.toList 0

/-- Run an action of the machine and report its failure. -/
def attempt {α : Type} (action : IO α) : IO (Except SystemError α) := do
  try return .ok (← action) catch e => return .error (systemError e)

instance : Disk IO where
  kindAt? p := do
    match ← attempt (IO.FS.Handle.mk (String.ofList p) .read) with
    | .error _ => return none
    | .ok file =>
      match ← attempt (file.read 1) with
      | .error _ => return some .directory
      | .ok _ => return some .regular
  read p := do
    match ← attempt (IO.FS.Handle.mk (String.ofList p) .read) with
    | .error e => return .error (.opening e)
    | .ok file =>
      match ← attempt file.readBinToEnd with
      | .error e => return .error (.reading e)
      | .ok content => return .ok content.toList
  write p content := attempt do
    let file ← IO.FS.Handle.mk (String.ofList p) .write
    file.write ⟨content.toArray⟩
    file.flush
  makeDirectory p := attempt (IO.FS.createDir (String.ofList p))

/-- A number with at least so many digits. -/
def padded (width : Nat) (n : Nat) : Text :=
  let digits := Numeral.decimal n
  List.replicate (width - digits.length) '0' ++ digits

/-- The time of the machine as it stands in the header of a report. -/
def timestamp (t : Std.Time.PlainDateTime) : Text :=
  padded 4 t.year.toInt.toNat ++ ['-'] ++ padded 2 t.month.toNat ++ ['-'] ++ padded 2 t.day.toNat ++
    [' '] ++ padded 2 t.hour.toNat ++ [':'] ++ padded 2 t.minute.toNat ++ [':'] ++
    padded 2 t.second.toNat

end PacketTrace

open PacketTrace in
/-- Run the arguments of the program. -/
def main (arguments : List String) : IO UInt32 := do
  let now ← Std.Time.PlainDateTime.now
  let exit ← run (m := IO) (arguments.map String.toList) (timestamp now)
  IO.print (String.ofList exit.output)
  IO.eprint (String.ofList exit.errorOutput)
  return exit.code.toUInt32
