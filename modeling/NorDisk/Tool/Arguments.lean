import NorDisk.Disk
import NorDisk.Tool.Number

/-!
# Command lines

The tool has four commands. `boards` takes nothing; `uf2`, `image` and `svf` take an input file, an
output file and options of their own. A value follows its option, or is attached to it: `--opt V`,
`--opt=V`, `-o V`, `-oV`, `-o=V`. After `--` every argument is the input file.

A value is checked when the next known option, the input file or the end is reached, so that an
unknown option right after a bad value is the error that is reported.
-/

namespace NorDisk.Tool

/-- Why a command line was refused. -/
inductive UsageError where
  | invalidCommand
  | unknownArgument
  | missingArgument
  /-- An option without its value, an empty file name or an unknown policy. -/
  | invalidValue
  /-- An option was given twice. -/
  | conflict
  /-- A value for an option that takes none. -/
  | tooManyValues
  /-- Help was asked for. -/
  | help
  /-- Help is shown because nothing was asked for. -/
  | helpInstead
  /-- A board or a number was refused. -/
  | refusedValue (message : String)
deriving DecidableEq, Repr

/-- What the tool is asked to do. -/
inductive Command where
  | boards
  /-- Wrap a file for the data region of a board. -/
  | uf2 (file output : String) (board : Board) (offset : UInt32)
  /-- Replay an update file into an image of the data region. -/
  | image (file output : String) (board : Board) (policy : ErasePolicy) (trim : Bool)
  /-- Write a vector file that programs a file into the part. -/
  | svf (file output : String) (offset : UInt32) (idcode : Option UInt32)
deriving DecidableEq, Repr

/-- A command that takes arguments. -/
inductive Verb where
  | boards
  | uf2
  | image
  | svf
deriving DecidableEq, Repr

/-- The command of a given name. -/
def Verb.ofName? : String → Option Verb
  | "boards" => some boards
  | "uf2" => some uf2
  | "image" => some image
  | "svf" => some svf
  | _ => none

/-- What an argument sets. -/
inductive Setting where
  | file
  | output
  | board
  | offset
  | policy
  | idcode
  | trim
deriving DecidableEq, Repr

/-- What an option stands for. -/
inductive Choice where
  | set (setting : Setting)
  | help
deriving DecidableEq, Repr

/-- The options of a command, by their long names. -/
def Verb.long? (verb : Verb) (name : String) : Option Choice :=
  match verb, name with
  | _, "help" => some .help
  | .uf2, "output" | .image, "output" | .svf, "output" => some (.set .output)
  | .uf2, "board" | .image, "board" => some (.set .board)
  | .uf2, "offset" | .svf, "offset" => some (.set .offset)
  | .image, "policy" => some (.set .policy)
  | .image, "trim" => some (.set .trim)
  | .svf, "idcode" => some (.set .idcode)
  | _, _ => none

/-- The options of a command, by their letters. -/
def Verb.short? (verb : Verb) (letter : Char) : Option Choice :=
  match verb, letter with
  | _, 'h' => some .help
  | .uf2, 'o' | .image, 'o' | .svf, 'o' => some (.set .output)
  | .uf2, 'b' | .image, 'b' => some (.set .board)
  | _, _ => none

/-- Does the command take an input file? -/
def Verb.takesFile : Verb → Bool
  | .boards => false
  | _ => true

/-- The arguments that were given, each checked. -/
structure Settings where
  file : Option String := none
  output : Option String := none
  board : Option Board := none
  offset : Option UInt32 := none
  policy : Option ErasePolicy := none
  idcode : Option UInt32 := none
  trim : Bool := false

def readBoard (value : String) : Except UsageError Board :=
  match Board.ofName? value with
  | some board => .ok board
  | none =>
    let names := ", ".intercalate (Board.all.map (·.layout.name))
    .error (.refusedValue s!"unknown board '{value}' (expected one of: {names})")

def readWord (value : String) : Except UsageError UInt32 :=
  match readNumber value.toList with
  | .ok n => .ok n
  | .error e => .error (.refusedValue (s!"invalid number '{value}': " ++ e.message))

def readPolicy : String → Except UsageError ErasePolicy
  | "boundary" => .ok .onSectorStart
  | "cached" => .ok .staged
  | _ => .error .invalidValue

def readName (value : String) : Except UsageError String :=
  if value = "" then .error .invalidValue else .ok value

namespace Settings

/-- Fill a place that must still be free. -/
def fill {α : Type} (place : Option α) (read : String → Except UsageError α) (value : String) :
    Except UsageError (Option α) :=
  if place.isSome then .error .conflict else (read value).map some

def put (s : Settings) (setting : Setting) (value : String) : Except UsageError Settings :=
  match setting with
  | .file => (fill s.file readName value).map ({ s with file := · })
  | .output => (fill s.output readName value).map ({ s with output := · })
  | .board => (fill s.board readBoard value).map ({ s with board := · })
  | .offset => (fill s.offset readWord value).map ({ s with offset := · })
  | .policy => (fill s.policy readPolicy value).map ({ s with policy := · })
  | .idcode => (fill s.idcode readWord value).map ({ s with idcode := · })
  | .trim => if s.trim then .error .conflict else .ok { s with trim := true }

/-- The command that the arguments make up; what was left out has its default. -/
def command (s : Settings) (verb : Verb) : Except UsageError Command :=
  let board := s.board.getD .orangeCrabR02
  match verb, s.file, s.output with
  | .boards, _, _ => .ok .boards
  | .uf2, some file, some output => .ok (.uf2 file output board (s.offset.getD 0))
  | .image, some file, some output =>
    .ok (.image file output board (s.policy.getD .onSectorStart) s.trim)
  | .svf, some file, some output => .ok (.svf file output (s.offset.getD 0) s.idcode)
  | _, _, _ => .error .missingArgument

end Settings

/-- Arguments in the course of being read. -/
structure Reading where
  settings : Settings := {}
  /-- The last argument, not yet checked, with its value if that has come. -/
  pending : Option (Setting × Option String) := none
  /-- Has the input file come? -/
  hasFile : Bool := false
  /-- Has `--` come? -/
  onlyFiles : Bool := false

namespace Reading

def settle (r : Reading) : Except UsageError Reading :=
  match r.pending with
  | none => .ok r
  | some (_, none) => .error .invalidValue
  | some (setting, some value) => do
    return { r with settings := ← r.settings.put setting value, pending := none }

def isWaiting (r : Reading) : Bool :=
  match r.pending with
  | some (_, none) => !r.onlyFiles
  | _ => false

def supply (r : Reading) (value : String) : Reading :=
  { r with pending := r.pending.map fun (setting, _) => (setting, some value) }

def takeFile (verb : Verb) (r : Reading) (value : String) : Except UsageError Reading := do
  if r.hasFile || !verb.takesFile then throw .unknownArgument
  return { (← r.settle) with pending := some (.file, some value), hasFile := true }

/-- Take an option that needs a value, and the value if it is attached. -/
def takeOption (r : Reading) (setting : Setting) (attached : Option String) :
    Except UsageError Reading := do
  let r ← r.settle
  match attached with
  | none => return { r with pending := some (setting, none) }
  | some value => return { r with settings := ← r.settings.put setting value }

/-- Take an option that stands alone. -/
def takeFlag (r : Reading) (setting : Setting) : Except UsageError Reading := do
  let r ← r.settle
  return { r with settings := ← r.settings.put setting "" }

/-- Show help, unless the pending argument is wrong. -/
def takeHelp (r : Reading) : Except UsageError Reading := do
  discard r.settle
  throw .help

/-- Take `--name` or `--name=value`. -/
def takeLong (verb : Verb) (r : Reading) (name : String) (attached : Option String) :
    Except UsageError Reading :=
  match verb.long? name, attached with
  | none, _ => .error .unknownArgument
  | some (.set .trim), none => r.takeFlag .trim
  | some (.set .trim), some _ => .error .tooManyValues
  | some (.set setting), attached => r.takeOption setting attached
  | some .help, none => r.takeHelp
  | some .help, some _ => .error .tooManyValues

/-- Take the letters behind a single dash. -/
def takeShort (verb : Verb) (r : Reading) (letter : Char) (rest : List Char) :
    Except UsageError Reading :=
  match verb.short? letter with
  | none => .error .unknownArgument
  | some .help => r.takeHelp
  | some (.set setting) =>
    match rest with
    | [] => r.takeOption setting none
    | '=' :: value => r.takeOption setting (some (String.ofList value))
    | value => r.takeOption setting (some (String.ofList value))

/-- Cut an option at its first `=`. -/
def splitValue (text : List Char) : String × Option String :=
  let name := text.takeWhile (· ≠ '=')
  match text.drop name.length with
  | [] => (String.ofList name, none)
  | _ :: value => (String.ofList name, some (String.ofList value))

/-- Take an argument that does not start with a dash, or that stands for itself. -/
def takePlain (verb : Verb) (r : Reading) (arg : String) : Except UsageError Reading :=
  if r.isWaiting then .ok (r.supply arg) else r.takeFile verb arg

def take (verb : Verb) (r : Reading) (arg : String) : Except UsageError Reading :=
  if r.onlyFiles then r.takeFile verb arg
  else
    match arg.toList with
    | ['-', '-'] => .ok { r with onlyFiles := true }
    | '-' :: '-' :: text =>
      let (name, attached) := splitValue text
      r.takeLong verb name attached
    | '-' :: letter :: rest => r.takeShort verb letter rest
    | _ => r.takePlain verb arg

/-- The command of a whole argument list. -/
def readAll (verb : Verb) (args : List String) : Except UsageError Command := do
  let r ← args.foldlM (take verb) {}
  (← r.settle).settings.command verb

end Reading

/-- The answer to `help` and the command names behind it. -/
def helpOn : List String → UsageError
  | [] => .help
  | [name] => if name = "help" || (Verb.ofName? name).isSome then .help else .invalidCommand
  | _ :: _ :: _ => .invalidCommand

/-- The command that an argument list asks for. -/
def parse : List String → Except UsageError Command
  | [] => .error .helpInstead
  | ["--"] => .error .helpInstead
  | "--" :: name :: _ =>
    if name = "help" || (Verb.ofName? name).isSome then .error .unknownArgument
    else .error .invalidCommand
  | "help" :: names => .error (helpOn names)
  | name :: args =>
    match Verb.ofName? name with
    | some verb => Reading.readAll verb args
    | none =>
      match name.toList with
      | '-' :: '-' :: text =>
        match Reading.splitValue text with
        | ("help", none) => .error .help
        | ("help", some _) => .error .tooManyValues
        | _ => .error .unknownArgument
      | ['-'] => .error .invalidCommand
      | '-' :: letter :: _ => if letter = 'h' then .error .help else .error .unknownArgument
      | _ => .error .invalidCommand

end NorDisk.Tool
