import NorDisk.Tool.Product

/-!
# Running command lines in a folder

A folder holds files by name. A path reaches one of them if it names no other folder on its way and
keeps within the lengths that paths and names may have, counted in bytes of UTF-8. `run` takes one
command line through its whole course: read the input, make the output, write it, report. A command
that traps leaves what it had written.
-/

namespace NorDisk.Tool

/-- Files by name, without folders inside. -/
structure Folder where
  files : List (String × ByteArray)

namespace Folder

/-- The parts of a path between slashes. -/
def pathParts (path : List Char) : List (List Char) := go [] path
where
  /-- The parts of a path before which the characters `rev` were read, last first. -/
  go : List Char → List Char → List (List Char)
    | rev, [] => [rev.reverse]
    | rev, '/' :: rest => rev.reverse :: go [] rest
    | rev, c :: rest => go (c :: rev) rest

/-- Bytes in the longest path that is looked up. -/
def longestPath : Nat := 4095

/-- Bytes in the longest name of a file. -/
def longestName : Nat := 255

/-- Is the path looked up at all? It must not be too long, and a NUL would end it early. -/
def isPath (path : String) : Bool :=
  path.utf8ByteSize ≤ longestPath && !path.toList.contains '\x00'

/-- Can a file have the name? One dot and two dots name folders. -/
def isName (name : List Char) : Bool :=
  name ≠ [] && name ≠ ['.'] && name ≠ ['.', '.'] && (String.ofList name).utf8ByteSize ≤ longestName

/-- What a path leads to. -/
inductive Place where
  | file (name : String)
  /-- The device that is always empty and drops what is written to it. -/
  | nullDevice
deriving DecidableEq, Repr

/-- What a path leads to; none if it leads nowhere or out of the folder. -/
def place? (path : String) : Option Place :=
  if !isPath path then none
  else
    match (pathParts path.toList).reverse with
    | [] => none
    | last :: before =>
      let folders := before.reverse.filter fun part => part ≠ [] && part ≠ ['.']
      if path.toList.head? = some '/' then
        if folders = ["dev".toList] && last = "null".toList then some .nullDevice else none
      else if folders.isEmpty && isName last then some (.file (String.ofList last))
      else none

def read (f : Folder) (path : String) : Option ByteArray := do
  match ← place? path with
  | .file name => f.files.lookup name
  | .nullDevice => return ByteArray.empty

def write (f : Folder) (path : String) (contents : ByteArray) : Option Folder := do
  match ← place? path with
  | .file name => return ⟨(name, contents) :: f.files.filter (·.1 ≠ name)⟩
  | .nullDevice => return f

end Folder

/-- How a command line ended. -/
inductive Outcome where
  /-- Well, with a report. -/
  | done (report : String)
  | refused (refusal : Refusal)
  | misused (error : UsageError)
  | trapped
deriving DecidableEq, Repr

/-- Read the input, make the output and write it. -/
def runCommand (c : Command) (folder : Folder) : Outcome × Folder :=
  match c.paths? with
  | none =>
    match c.make ByteArray.empty with
    | .ok product => (.done product.report, folder)
    | .error (.refused refusal) => (.refused refusal, folder)
    | .error (.trap _) => (.trapped, folder)
  | some (input, output) =>
    match folder.read input with
    | none => (.refused (.unreadable input), folder)
    | some bytes =>
      match c.make bytes with
      | .error (.refused refusal) => (.refused refusal, folder)
      | .error (.trap _) => (.trapped, folder)
      | .ok product =>
        match folder.write output product.contents with
        | none => (.refused (c.outputRefusal output), folder)
        | some folder => (if product.trap.isSome then .trapped else .done product.report, folder)

def run (args : List String) (folder : Folder) : Outcome × Folder :=
  match parse args with
  | .ok c => runCommand c folder
  | .error e => (.misused e, folder)

end NorDisk.Tool
