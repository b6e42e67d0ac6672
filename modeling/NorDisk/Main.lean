import NorDisk.Tool.Product

/-!
# The command line tool

Reads the input of a command, makes its output, writes it and prints the report. A refusal goes to
the error stream. The exit code is 0 after the work, 1 after a refusal, 2 for a command line that
cannot be read and 3 when a computation trapped.
-/

namespace NorDisk.Tool

/-- How the commands are called. -/
def usageText : String :=
  "usage: boards
       uf2 FILE -o OUTPUT [-b BOARD] [--offset OFFSET]
       image FILE -o OUTPUT [-b BOARD] [--policy boundary|cached] [--trim]
       svf FILE -o OUTPUT [--offset OFFSET] [--idcode IDCODE]"

/-- What is wrong with a command line; nothing is if help was asked for. -/
def UsageError.fault? : UsageError → Option String
  | invalidCommand => some "there is no such command"
  | unknownArgument => some "an argument is not known"
  | missingArgument => some "an argument is missing"
  | invalidValue => some "a value is missing or invalid"
  | conflict => some "an option was given twice"
  | tooManyValues => some "an option takes no value"
  | help => none
  | helpInstead => some "a command is missing"
  | refusedValue message => some message

/-- Answer a command line that asks for no work. -/
def explain (e : UsageError) : IO UInt32 := do
  match e.fault? with
  | none =>
    IO.println usageText
    return 0
  | some fault =>
    IO.eprintln ("error: " ++ fault)
    IO.eprintln usageText
    return 2

/-- Report why a command did not do its work. -/
def refuse (r : Refusal) : IO UInt32 := do
  IO.eprintln ("error: " ++ r.message)
  return 1

/-- Report that a computation trapped. -/
def reportTrap : IO UInt32 := do
  IO.eprintln "error: a computation trapped"
  return 3

/-- Make what a command makes of its input and hand it on. -/
def deliver (c : Command) (input : ByteArray) (write : ByteArray → IO Bool) : IO UInt32 := do
  match c.make input with
  | .error (.refused r) => refuse r
  | .error (.trap _) => reportTrap
  | .ok product =>
    match c.paths?, ← write product.contents with
    | some (_, output), false => refuse (c.outputRefusal output)
    | _, _ =>
      if product.trap.isSome then reportTrap
      else
        IO.print product.report
        return 0

/-- Carry out a command on the files it names. -/
def perform (c : Command) : IO UInt32 := do
  match c.paths? with
  | none => deliver c ByteArray.empty fun _ => return true
  | some (file, output) =>
    match ← (IO.FS.readBinFile file).toBaseIO with
    | .error _ => refuse (.unreadable file)
    | .ok input =>
      deliver c input fun contents => do
        return (← (IO.FS.writeBinFile output contents).toBaseIO) matches .ok _

end NorDisk.Tool

/-- Read the command line and carry out its command. -/
def main (args : List String) : IO UInt32 :=
  match NorDisk.Tool.parse args with
  | .ok c => NorDisk.Tool.perform c
  | .error e => NorDisk.Tool.explain e
