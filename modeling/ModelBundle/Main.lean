import ModelBundle.Command.Run

/-!
The program, and the files that a command reaches: those it may look into and those it may write.
A program that runs commands has to know no others.
-/

namespace ModelBundle.Command

def Task.named (surroundings : Surroundings) : Task → List Path
  | embed host model output _ => [host, model, output]
  | inspect path _ => [path]
  | load arguments =>
    arguments.settings.toList ++ (arguments.executable surroundings).toOption.toList ++
      arguments.model.toList

def Task.configured (task : Task) (files : FileSystem) : Option Path :=
  match task with
  | load arguments =>
    match readSettings arguments.settings (.ofFiles files) with
    | .ok settings => settings.load.modelPath
    | .error _ => none
  | _ => none

def Task.written : Task → List Path
  | embed _ _ output _ => [output, Path.temporary output]
  | inspect .. | load _ => []

inductive Change where
  | kept
  | removed
  | replaced (content : Bytes) (mode : Nat)
deriving DecidableEq, Repr

def stored? (files : FileSystem) (path : Path) : Option (Bytes × Nat) :=
  match files.canonical? path with
  | none => none
  | some location =>
    match files.entry? location with
    | some (.file id) => (files.file? id).map fun data => (data.content, data.mode)
    | _ => none

def changeOf (path : Path) (before after : FileSystem) : Change :=
  match stored? before path, stored? after path with
  | none, none => .kept
  | some _, none => .removed
  | old, some new => if old = some new then .kept else .replaced new.1 new.2

@[simp] theorem changeOf_self (path : Path) (files : FileSystem) :
    changeOf path files files = .kept := by
  unfold changeOf
  cases stored? files path <;> simp

end ModelBundle.Command

/-!
The program.  The files that a command names are taken in from the system, the command runs on
them, and what it changed is put back.
-/

namespace ModelBundle.Program

open Command

/-- Permission bits given to files that can be read.  Those of the system cannot be asked for. -/
def assumedMode : Nat := 0o755

def above (path : Path) : Path :=
  (if Path.isAbsolute path then "/" else "") ++
    String.intercalate "/" (Path.components path).dropLast

def attempt (files : FileSystem) (step : FileSystem → Except Fault FileSystem) : FileSystem :=
  match step files with
  | .ok files => files
  | .error _ => files

def takeIn (path : Path) (files : FileSystem) : IO FileSystem := do
  match ← (IO.FS.readBinFile path).toBaseIO with
  | .ok content => return attempt files (·.install path content.toList assumedMode)
  | .error (.permissionDenied ..) => return attempt files (·.install path [] 0)
  | .error (.inappropriateType ..) => return attempt files (·.makeDirectories path)
  | .error _ => return files

/-- Takes in what a path names.  Where the system has a link on the way, the file is taken in
under its real name and the path leads there. -/
def gatherPath (files : FileSystem) (path : Path) : IO FileSystem := do
  let files ← if above path = "" then pure files else takeIn (above path) files
  match ← (IO.FS.realPath path).toBaseIO with
  | .error _ => return files
  | .ok found =>
    let real := found.toString
    let location := (if Path.isAbsolute path then [] else files.working) ++ Path.components path
    if Path.components real = location then takeIn path files
    else
      let files ← takeIn real files
      return attempt files (·.makeLink real path)

def rights (mode : Nat) : IO.FileRight :=
  let access (bits : Nat) : IO.AccessRight :=
    { read := bits / 4 % 2 = 1, write := bits / 2 % 2 = 1, execution := bits % 2 = 1 }
  { user := access (mode / 64), group := access (mode / 8), other := access mode }

def putBack (path : Path) : Change → IO Unit
  | .kept => pure ()
  | .removed => IO.FS.removeFile path
  | .replaced content mode => do
    let _ ← (IO.FS.removeFile path).toBaseIO
    IO.FS.writeBinFile path content.toByteArray
    IO.setAccessRights path (rights mode)

def gather (surroundings : Surroundings) (task : Task) : IO FileSystem := do
  let directory := (← IO.currentDir).toString
  let start := attempt .empty (·.makeDirectories directory)
  let start := { start with working := Path.components directory }
  let files ← (task.named surroundings).foldlM gatherPath start
  match task.configured files with
  | none => return files
  | some path => gatherPath files path

def usage : String :=
  "usage: umekomi [-v] embed HOST MODEL -o OUTPUT [--align]\n" ++
  "       umekomi [-v] inspect PATH [--json]\n" ++
  "       umekomi [-v] load [-m MODEL] [--exe EXE] [--config FILE] [--json] [OPTION...]"

/-- Loaded bytes have no address of their own here. -/
def address : String := "0x0"

def announce : Outcome → IO Unit
  | .stopped .usage => IO.eprintln usage
  | .stopped .help => IO.println usage
  | .stopped .version => IO.println version
  | .failed failure => IO.eprintln (Failure.report failure.context failure.cause)
  | .finished output => IO.println (output.text address)

def surroundings : IO Surroundings := do
  match ← IO.appPath.toBaseIO with
  | .ok found => return { Surroundings.usual with executable := .ok found.toString }
  | .error error => return { Surroundings.usual with executable := .error (.other error.toString) }

def runCommand (words : List String) : IO UInt32 := do
  let task := (Invocation.read words).toOption.map Invocation.task
  let around ← surroundings
  let files ← match task with
    | some task => gather around task
    | none => pure .empty
  let (outcome, world) := perform words (.ofFiles files) around
  for note in world.notes do
    if note.level.shownAt (level words) then IO.eprintln (logLine note)
  for path in (task.map Task.written).getD [] do
    putBack path (changeOf path files world.files)
  announce outcome
  return UInt32.ofNat outcome.exitCode

end ModelBundle.Program

def main (arguments : List String) : IO UInt32 := ModelBundle.Program.runCommand arguments
