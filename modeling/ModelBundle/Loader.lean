import ModelBundle.Access
import ModelBundle.Settings.File
import ModelBundle.World

/-!
Loading one model.  A loader looks for an embedded payload, takes a model file otherwise, maps or
copies the bytes, checks the magic, and hands the model out.  It keeps a handle of its own until
it is told to let go, and loads nothing else before that.
-/

namespace ModelBundle

structure Loader where
  settings : LoadSettings
  mapper : Mapper
  stage : Stage
  /-- The stages of the last load, oldest first, and a start after its model was let go. -/
  history : List Stage
  /-- The model handed out and not let go yet. -/
  active : Option Nat
  /-- The ranges that the mapper was asked for, oldest first. -/
  requests : List (UInt64 × UInt64)

structure Selection where
  handle : Handle
  source : Source
  offset : UInt64
  size : UInt64
deriving DecidableEq, Repr

namespace Loader

def new (settings : LoadSettings) (mapper : Mapper) : Loader where
  settings := settings.resolve
  mapper
  stage := .start
  history := [.start]
  active := none
  requests := []

abbrev Work := World × Loader

def outside {α : Type} (step : Action World α) : Action Work α :=
  Action.zoom Prod.fst (fun work world => (world, work.2)) step

def enter (next : Stage) : Action Work Unit := Action.modify fun (world, loader) =>
  (world.note (.stage loader.stage next),
    { loader with stage := next, history := loader.history ++ [next] })

def remark (note : Note) : Action World Unit := Action.modify fun world => world.note note

def findEmbedded (exe : Option Path) : Action World (Option (Path × Trailer)) :=
  match exe with
  | none => pure none
  | some exe => do
    match ← Action.attempt (Trailer.locate exe) with
    | .ok found => pure (found.map fun trailer => (exe, trailer))
    | .error error => do
      remark (.lookupFailed exe error)
      pure none

def openFile (path : Path) : Action World Handle := fun world =>
  match world.files.openRead path with
  | .ok handle => (.ok handle, world)
  | .error fault => (.error (.ofOpen path fault), world)

def sizeOf (handle : Handle) : Action World Nat := fun world =>
  (.ok (world.files.size handle), world)

/-- The payload of an executable.  The file may have been replaced since its trailer was read, so
the trailer has to fit the file that is opened now. -/
def selectEmbedded (exe : Path) (trailer : Trailer) : Action World Selection := do
  remark (.foundEmbedded trailer.offset trailer.size)
  let handle ← openFile exe
  Action.ofExcept (trailer.check (← sizeOf handle))
  return ⟨handle, .ofTrailer exe trailer, trailer.offset, trailer.size⟩

def selectFile (path : Path) : Action World Selection := do
  let handle ← openFile path
  let size ← sizeOf handle
  if size < Magic.gguf.length then
    Action.fail (.tooSmall path size Magic.gguf.length)
  else do
    remark (.loadingFile path size)
    return ⟨handle, .file path, 0, .ofNat size⟩

/-- What to load: an embedded payload if one was found, the configured file otherwise. -/
def select (settings : LoadSettings) (found : Option (Path × Trailer)) : Action World Selection :=
  match found, settings.modelPath with
  | some (exe, trailer), _ => selectEmbedded exe trailer
  | none, some path => selectFile path
  | none, none => Action.fail .noModel

def request (selection : Selection) : Action Work (Except LoadError Region) :=
  fun (world, loader) =>
    let (result, world) := loader.mapper selection.handle selection.offset selection.size world
    (.ok result,
      (world, { loader with requests := loader.requests ++ [(selection.offset, selection.size)] }))

def copy (selection : Selection) : Action Work Payload := do
  enter .fallbackReading
  let buffer ← outside (Buffer.read selection.handle selection.offset selection.size)
  outside (remark (.modelRead selection.size))
  return .buffered buffer

/-- Brings the selected bytes into memory: mapped if the settings allow it and the mapper does
it, copied otherwise. -/
def acquire (settings : LoadSettings) (selection : Selection) : Action Work Payload := do
  if settings.shouldMap selection.size then do
    enter .mapping
    match ← request selection with
    | .ok region => do
      outside (remark (.modelMapped selection.size))
      return .mapped region
    | .error error => do
      outside (remark (.mappingFailed error))
      copy selection
  else if settings.mappingEnabled then do
    outside (remark (.aboveCeiling selection.size settings.ceiling))
    copy selection
  else copy selection

def validate (policy : MagicPolicy) (source : Source) (payload : Payload) : Action World Model :=
  fun world =>
    if Magic.startsView payload.bytes then
      (.ok ⟨payload, source, true⟩, world.note .magicVerified)
    else
      let found := Magic.leading payload.bytes
      match policy with
      | .abort => (.error (.invalidMagic found), (payload.release world).2)
      | .warn => (.ok ⟨payload, source, false⟩, world.note (.magicMissing found))

def proceed (found : Option (Path × Trailer)) : Action Work Model := do
  let settings := (← Action.get).2.settings
  let selection ← outside (select settings found)
  let payload ← acquire settings selection
  enter .validating
  outside (validate settings.policy selection.source payload)

def run (exe : Option Path) : Action Work Model := do
  enter .lookingForTrailer
  let found ← outside (findEmbedded exe)
  proceed found

def restart : Action Work Unit := Action.modify fun (world, loader) =>
  (world, { loader with stage := .start, history := [.start] })

/-- Puts a model up for sharing: one handle for the loader, one for the caller. -/
def handOut (model : Model) : Action Work Nat := fun (world, loader) =>
  let (id, world) := world.share model
  (.ok id, (world.retain id, { loader with active := some id }))

/-- Loads the payload embedded in an executable, or the configured model file when no executable
is given or it carries no payload.  The handle that is returned is the caller's. -/
def load (exe : Option Path) : Action Work Nat := do
  if (← Action.get).2.active.isSome then Action.fail .alreadyLoaded
  else do
    restart
    match ← Action.attempt (run exe) with
    | .ok model => do
      enter .ready
      handOut model
    | .error error => do
      enter .failed
      Action.fail error

/-- Lets the active model go.  Its bytes stay as long as others have handles on it. -/
def release : Work → Work := fun (world, loader) =>
  match loader.active with
  | none => (world, loader)
  | some id =>
    let consumers := world.handles id - 1
    let world := if 0 < consumers then world.note (.consumersLeft consumers) else world
    let world := world.note (.stage loader.stage .start)
    (world.letGo id,
      { loader with active := none, stage := .start, history := loader.history ++ [.start] })

def drop : Work → World := fun (world, loader) =>
  match loader.active with
  | none => world
  | some id => world.letGo id

end Loader

/-!
Handing a model to an engine.  The engine gets a handle of its own and the argument string; it
keeps the handle for as long as it works with the bytes, or refuses with its reasons.
-/

/-- How an engine starts on a model: it is given one handle, which is its to keep or let go, and
the arguments.  Reasons for a refusal come outermost first. -/
abbrev Takeover (ε : Type) :=
  (model : Nat) → (arguments : String) → World × ε → Except (List String) Unit × (World × ε)

def emptyPayload : String := "model payload is empty"

/-- Builds the arguments for a model and starts an engine on both.  Without bytes the engine is
not even asked. -/
def handOff {ε : Type} (start : Takeover ε) (id : Nat) (settings : EngineSettings) :
    Action (World × ε) String := fun (world, engine) =>
  match world.model? id with
  | none => (.error (.refused [emptyPayload]), (world, engine))
  | some model =>
    if model.bytes.isEmpty then (.error (.refused [emptyPayload]), (world, engine))
    else
      let arguments := settings.arguments model.source.modelName
      let world := (world.note (.handingOver model.bytes.length)).note (.engineArguments arguments)
      match start id arguments (world.retain id, engine) with
      | (.ok (), state) => (.ok arguments, state)
      | (.error reasons, state) => (.error (.refused reasons), state)

structure Engine where
  starts : Nat
  head : Bytes
  arguments : String
  held : Option Nat
deriving DecidableEq, Repr

namespace Engine

def idle : Engine := ⟨0, [], "", none⟩

def headLength : Nat := 16

def accept (remark : Bool) : Takeover Engine := fun id arguments (world, engine) =>
  let head := ((world.model? id).map fun model => model.bytes.take headLength).getD []
  let world := if remark then world.note (.firstBytes head) else world
  let world := match engine.held with
    | some old => world.letGo old
    | none => world
  (.ok (), (world, { starts := engine.starts + 1, head, arguments, held := some id }))

def refuse (reasons : List String) : Takeover Engine := fun id _ (world, engine) =>
  (.error reasons, (world.letGo id, engine))

def answer : Option (List String) → Takeover Engine
  | some reasons => refuse reasons
  | none => accept false

def stop : World × Engine → World × Engine := fun (world, engine) =>
  match engine.held with
  | none => (world, engine)
  | some id => (world.letGo id, { engine with held := none })

end Engine

end ModelBundle
