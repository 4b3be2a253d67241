import ModelBundle.Basic
import ModelBundle.Error

/-!
A file system: a tree of directories, files and symbolic links, and the way a path text is walked
through it.  A file is a number into a table of contents, so an open file is not affected when
its name is removed or given to another file.
-/

namespace ModelBundle

/-- A place in the tree, as the names from the root down.  Locations hold no links or dots. -/
abbrev Location := List String

inductive Entry where
  | file (id : Nat)
  | directory
  | link (target : Path)
deriving DecidableEq, Repr

def Entry.number? : Entry → Option Nat
  | file id => some id
  | directory | link _ => none

def Entry.isTwin : Entry → Option Entry → Bool
  | file id, some (file other) => id = other
  | _, _ => false

theorem Entry.isTwin_iff {entry : Entry} {stood : Option Entry} :
    entry.isTwin stood = true ↔ ∃ id, entry = .file id ∧ stood = some (.file id) := by
  rcases entry with id | _ | target
  · rcases stood with _ | (other | _ | target) <;> simp [isTwin, eq_comm]
  · simp [isTwin]
  · simp [isTwin]

structure FileData where
  content : Bytes
  mode : Nat
deriving DecidableEq, Repr, Inhabited

structure FileSystem where
  entries : Table Location Entry
  files : Table Nat FileData
  working : Location

inductive Handle where
  | file (id : Nat)
  | directory
deriving DecidableEq, Repr

inductive Walk where
  | found (location : Location) (entry : Entry)
  /-- The last name does not exist in its directory; `slash` tells that a slash followed it. -/
  | missing (parent : Location) (name : String) (slash : Bool)
deriving DecidableEq, Repr

namespace FileSystem

def empty : FileSystem where
  entries := [(["work"], .directory)]
  files := []
  working := ["work"]

def program : Path := "/umekomi"

/-- An empty working directory, and the program, which carries no payload. -/
def installed : FileSystem where
  entries := [(["work"], .directory), (["umekomi"], .file 0)]
  files := [(0, ⟨List.replicate 16 0, 0o755⟩)]
  working := ["work"]

def entry? (fs : FileSystem) (location : Location) : Option Entry :=
  if location = [] then some .directory else Table.get? fs.entries location

def maxName : Nat := 255
def maxPath : Nat := 4095
def maxLinks : Nat := 40

/-- Walks the names from a directory on.  A link on the way, and a link at the end if it is to be
followed, goes on through `redirect`. -/
def walkWith (fs : FileSystem) (follow slash : Bool)
    (redirect : Location → Path → List String → Except SystemCode Walk) :
    Location → List String → Except SystemCode Walk
  | here, [] => .ok (.found here .directory)
  | here, name :: rest =>
    if name = "." then walkWith fs follow slash redirect here rest
    else if name = ".." then walkWith fs follow slash redirect here.dropLast rest
    else if maxName < name.utf8ByteSize then .error .nameTooLong
    else match fs.entry? (here ++ [name]) with
      | none => if rest.isEmpty then .ok (.missing here name slash) else .error .noSuchFile
      | some .directory => walkWith fs follow slash redirect (here ++ [name]) rest
      | some (.file id) =>
        if rest.isEmpty && !slash then .ok (.found (here ++ [name]) (.file id))
        else .error .notADirectory
      | some (.link target) =>
        if rest.isEmpty && !slash && !follow then .ok (.found (here ++ [name]) (.link target))
        else redirect here target rest

def walk (fs : FileSystem) (follow : Bool) :
    (links : Nat) → Bool → Location → List String → Except SystemCode Walk
  | 0, slash => walkWith fs follow slash fun _ _ _ => .error .tooManyLinks
  | links + 1, slash => walkWith fs follow slash fun here target rest =>
      walk fs follow links (slash || (rest.isEmpty && Path.endsInSlash target))
        (if Path.isAbsolute target then [] else here) (Path.components target ++ rest)

def start (fs : FileSystem) (path : Path) : Location :=
  if Path.isAbsolute path then [] else fs.working

/-- What no file system accepts as a path. -/
def refuse? (path : Path) : Option Fault :=
  if path.toList.contains '\x00' then some .zeroInPath
  else if path = "" then some (.system .noSuchFile)
  else if maxPath < path.utf8ByteSize then some (.system .nameTooLong)
  else none

/-- Follows a path to its end; `follow` says whether a link at the very end is followed too. -/
def resolve (fs : FileSystem) (follow : Bool) (path : Path) : Except Fault Walk :=
  match refuse? path with
  | some fault => .error fault
  | none =>
    let slash := Path.endsInSlash path
    match walk fs follow maxLinks slash (fs.start path) (Path.components path) with
    | .ok result => .ok result
    | .error code => .error (.system code)

def canonical? (fs : FileSystem) (path : Path) : Option Location :=
  match fs.resolve true path with
  | .ok (.found location _) => some location
  | _ => none

def sameFile (fs : FileSystem) (a b : Path) : Bool :=
  match fs.canonical? a, fs.canonical? b with
  | some a, some b => a = b
  | _, _ => false

def numbers (fs : FileSystem) : List Nat :=
  fs.entries.filterMap (fun pair => pair.2.number?) ++ fs.files.map Prod.fst

def unused (fs : FileSystem) : Nat :=
  fs.numbers.foldr (fun number next => max (number + 1) next) 0

def file? (fs : FileSystem) (id : Nat) : Option FileData := Table.get? fs.files id

def content? (fs : FileSystem) : Handle → Option Bytes
  | .directory => none
  | .file id => (fs.file? id).map FileData.content

def directorySize : Nat := 4096

def size (fs : FileSystem) (handle : Handle) : Nat :=
  match fs.content? handle with
  | some content => content.length
  | none => directorySize

end FileSystem

end ModelBundle

/-!
Operations on a file system.  Each either fails, and then says why and changes nothing, or gives
the changed file system.  Permission bits are those of the owner.
-/

namespace ModelBundle.FileSystem

def ownerRead : Nat := 0o400
def ownerWrite : Nat := 0o200
def defaultMode : Nat := 0o644
def directoryMode : Nat := 0o755

def permits (data : FileData) (bit : Nat) : Bool := data.mode / bit % 2 = 1

def openRead (fs : FileSystem) (path : Path) : Except Fault Handle :=
  match fs.resolve true path with
  | .error fault => .error fault
  | .ok (.found _ .directory) => .ok .directory
  | .ok (.found _ (.file id)) =>
    match fs.file? id with
    | some data =>
      if permits data ownerRead then .ok (.file id) else .error (.system .permissionDenied)
    | none => .error (.system .noSuchFile)
  | .ok (.found _ (.link _)) => .error (.system .tooManyLinks)
  | .ok (.missing ..) => .error (.system .noSuchFile)

def read (fs : FileSystem) (path : Path) : Except Fault Bytes :=
  match fs.openRead path with
  | .error fault => .error fault
  | .ok handle =>
    match fs.content? handle with
    | some content => .ok content
    | none => .error (.system .isADirectory)

def readWhole (fs : FileSystem) (path : Path) : Except Fault Bytes :=
  match fs.read path with
  | .error fault => .error fault
  | .ok content =>
    if Memory.Holds content.length then .ok content
    else .error (.outOfMemory content.length .wholeFile)

def metadata (fs : FileSystem) (path : Path) : Except Fault (Nat × Nat) :=
  match fs.resolve true path with
  | .error fault => .error fault
  | .ok (.found _ (.file id)) =>
    match fs.file? id with
    | some data => .ok (data.content.length, data.mode)
    | none => .error (.system .noSuchFile)
  | .ok (.found ..) => .ok (directorySize, directoryMode)
  | .ok (.missing ..) => .error (.system .noSuchFile)

def setContent (fs : FileSystem) (id : Nat) (content : Bytes) : FileSystem :=
  { fs with files := Table.update fs.files id fun data => { data with content } }

def append (fs : FileSystem) (id : Nat) (bytes : Bytes) : FileSystem :=
  { fs with
    files := Table.update fs.files id fun data => { data with content := data.content ++ bytes } }

def addFile (fs : FileSystem) (location : Location) : Nat × FileSystem :=
  (fs.unused,
    { fs with
      entries := Table.set fs.entries location (.file fs.unused)
      files := Table.set fs.files fs.unused ⟨[], defaultMode⟩ })

def create (fs : FileSystem) (path : Path) : Except Fault (Nat × FileSystem) :=
  match fs.resolve true path with
  | .error fault => .error fault
  | .ok (.found _ (.file id)) =>
    match fs.file? id with
    | some data =>
      if permits data ownerWrite then .ok (id, fs.setContent id [])
      else .error (.system .permissionDenied)
    | none => .error (.system .noSuchFile)
  | .ok (.found _ .directory) => .error (.system .isADirectory)
  | .ok (.found _ (.link _)) => .error (.system .tooManyLinks)
  | .ok (.missing parent name slash) =>
    if slash then .error (.system .isADirectory) else .ok (fs.addFile (parent ++ [name]))

def setMode (fs : FileSystem) (path : Path) (mode : Nat) : Except Fault FileSystem :=
  match fs.resolve true path with
  | .error fault => .error fault
  | .ok (.found _ (.file id)) =>
    .ok { fs with files := Table.update fs.files id fun data => { data with mode } }
  | .ok (.found ..) => .ok fs
  | .ok (.missing ..) => .error (.system .noSuchFile)

/-- File lengths lie below this. -/
def lengthLimit : Nat := 1 <<< 63

def truncate (fs : FileSystem) (path : Path) (length : Nat) : Except Fault FileSystem :=
  match fs.resolve true path with
  | .error fault => .error fault
  | .ok (.found _ (.file id)) =>
    match fs.file? id with
    | some data =>
      if !permits data ownerWrite then .error (.system .permissionDenied)
      else if lengthLimit ≤ length then .error .lengthOutOfRange
      else
        .ok (fs.setContent id (data.content.take length ++
          List.replicate (length - data.content.length) 0))
    | none => .error (.system .noSuchFile)
  | .ok (.found ..) => .error (.system .isADirectory)
  | .ok (.missing ..) => .error (.system .noSuchFile)

/-- The directory that holds the last name of a path, and that name. -/
inductive Target where
  | named (parent : Location) (name : String) (slash : Bool)
  /-- A path that ends in a dot component, or is the root: it has no last name. -/
  | special
deriving DecidableEq, Repr

def target (fs : FileSystem) (path : Path) : Except Fault Target :=
  match refuse? path with
  | some fault => .error fault
  | none =>
    match (Path.components path).getLast? with
    | none => .ok .special
    | some name =>
      match fs.walk true maxLinks true (fs.start path) (Path.components path).dropLast with
      | .error code => .error (.system code)
      | .ok (.missing ..) => .error (.system .noSuchFile)
      | .ok (.found parent _) =>
        if name = "." || name = ".." then .ok .special
        else if maxName < name.utf8ByteSize then .error (.system .nameTooLong)
        else .ok (.named parent name (Path.endsInSlash path))

def remove (fs : FileSystem) (path : Path) : Except Fault FileSystem :=
  match fs.target path with
  | .error fault => .error fault
  | .ok .special => .error (.system .isADirectory)
  | .ok (.named parent name slash) =>
    match fs.entry? (parent ++ [name]) with
    | none => .error (.system .noSuchFile)
    | some .directory => .error (.system .isADirectory)
    | some _ =>
      if slash then .error (.system .notADirectory)
      else .ok { fs with entries := Table.erase fs.entries (parent ++ [name]) }

def occupied (fs : FileSystem) (location : Location) : Bool :=
  fs.entries.any fun pair => location.isPrefixOf pair.1 && pair.1 ≠ location

def moveTree (fs : FileSystem) (source destination : Location) : FileSystem :=
  { fs with
    entries := (Table.erase fs.entries destination).map fun pair =>
      if source.isPrefixOf pair.1 then (destination ++ pair.1.drop source.length, pair.2)
      else pair }

/-- Gives the entry at one location the name of another, which it replaces.  Two names of one file
both stay. -/
def rename (fs : FileSystem) (source destination : Path) : Except Fault FileSystem :=
  match fs.target source, fs.target destination with
  | .error fault, _ => .error fault
  | .ok _, .error fault => .error fault
  | .ok (.named parent name slash), .ok (.named parent' name' slash') =>
    let old := parent ++ [name]
    let new := parent' ++ [name']
    match fs.entry? old, fs.entry? new with
    | none, _ => .error (.system .noSuchFile)
    | some .directory, target =>
      if old.isPrefixOf parent' then .error (.system .invalidArgument)
      else match target with
        | none => .ok (fs.moveTree old new)
        | some .directory =>
          if old = new then .ok fs
          else if fs.occupied new then .error (.system .directoryNotEmpty)
          else .ok (fs.moveTree old new)
        | some _ => .error (.system .notADirectory)
    | some entry, target =>
      if slash || slash' then .error (.system .notADirectory)
      else if old = new then .ok fs
      else match target with
        | some .directory =>
          if new.isPrefixOf parent then .error (.system .directoryNotEmpty)
          else .error (.system .isADirectory)
        | _ =>
          if entry.isTwin target then .ok fs
          else .ok { fs with entries := Table.set (Table.erase fs.entries old) new entry }
  | .ok _, .ok _ => .error (.system .busy)

def makeLink (fs : FileSystem) (linkTarget path : Path) : Except Fault FileSystem :=
  match refuse? linkTarget, fs.target path with
  | some fault, _ => .error fault
  | none, .error fault => .error fault
  | none, .ok .special => .error (.system .alreadyExists)
  | none, .ok (.named parent name slash) =>
    match fs.entry? (parent ++ [name]) with
    | some _ => .error (.system .alreadyExists)
    | none =>
      if slash then .error (.system .noSuchFile)
      else .ok { fs with entries := Table.set fs.entries (parent ++ [name]) (.link linkTarget) }

def makeDirectory (fs : FileSystem) (path : Path) : Except Fault FileSystem :=
  match fs.target path with
  | .error fault => .error fault
  | .ok .special => .error (.system .alreadyExists)
  | .ok (.named parent name _) =>
    match fs.entry? (parent ++ [name]) with
    | some _ => .error (.system .alreadyExists)
    | none => .ok { fs with entries := Table.set fs.entries (parent ++ [name]) .directory }

def isDirectory (fs : FileSystem) (path : Path) : Bool :=
  match fs.resolve true path with
  | .ok (.found _ .directory) => true
  | _ => false

def ensureDirectory (fs : FileSystem) (path : Path) : Except Fault FileSystem :=
  match fs.makeDirectory path with
  | .ok fs => .ok fs
  | .error fault => if fs.isDirectory path then .ok fs else .error fault

private def ensureFirst (fs : FileSystem) : (lineage : List Path) → Except Fault FileSystem
  | [] => .ok fs
  | path :: above =>
    match fs.ensureDirectory path with
    | .error (.system .noSuchFile) =>
      match ensureFirst fs above with
      | .ok fs => fs.ensureDirectory path
      | .error fault => .error fault
    | result => result

def makeDirectories (fs : FileSystem) (path : Path) : Except Fault FileSystem :=
  fs.ensureFirst (Path.lineage path)

/-- Puts a new file in place of whatever a path names, making the directories above it. -/
def install (fs : FileSystem) (path : Path) (content : Bytes) (mode : Nat) :
    Except Fault FileSystem :=
  match fs.makeDirectories ((Path.parent? path).getD "") with
  | .error fault => .error fault
  | .ok fs =>
    let cleared := match fs.remove path with
      | .ok fs => fs
      | .error _ => fs
    match cleared.create path with
    | .error fault => .error fault
    | .ok (id, fs) => .ok { fs with files := Table.set fs.files id ⟨content, mode⟩ }

inductive Listed where
  | file (path : Path) (size : Nat)
  | directory (path : Path)
  | link (path : Path)
deriving DecidableEq, Repr

def names (fs : FileSystem) (location : Location) : List String :=
  let children := fs.entries.filterMap fun pair =>
    if pair.1.dropLast = location then pair.1.getLast? else none
  children.mergeSort fun a b => a < b || a = b

private def listBelow (fs : FileSystem) : (depth : Nat) → Location → String → List Listed
  | 0, _, _ => []
  | depth + 1, location, lead =>
    (fs.names location).flatMap fun name =>
      let here := location ++ [name]
      match fs.entry? here with
      | none => []
      | some (.file id) => [.file (lead ++ name) (fs.size (.file id))]
      | some (.link _) => [.link (lead ++ name)]
      | some .directory =>
        .directory (lead ++ name ++ "/") :: listBelow fs depth here (lead ++ name ++ "/")

def list (fs : FileSystem) : List Listed :=
  listBelow fs (fs.entries.length + 1) fs.working ""

end ModelBundle.FileSystem
