import ModelBundle.Error
import ModelBundle.FileSystem
import ModelBundle.Image.View
import ModelBundle.Model
import ModelBundle.Number

/-!
The state that all operations share, and the notes they leave in it.  A load goes through the
stages listed first.
-/

namespace ModelBundle

inductive Stage where
  | start
  | lookingForTrailer
  | mapping
  | fallbackReading
  | validating
  /-- The model is handed out, and only here. -/
  | ready
  /-- Nothing that was taken hold of on the way here is still held. -/
  | failed
deriving DecidableEq, Repr

def Stage.name : Stage → String
  | start => "Start"
  | lookingForTrailer => "LookingForTrailer"
  | mapping => "Mapping"
  | fallbackReading => "FallbackReading"
  | validating => "Validating"
  | ready => "Ready"
  | failed => "Failed"

/-!
Notes on what happens during an operation.  A note is kept as what it says; its level, the topic
it belongs to and its wording are functions of that.
-/

inductive Level where
  | warn
  | info
  | debug
deriving DecidableEq, Repr

namespace Level

def name : Level → String
  | warn => "WARN"
  | info => "INFO"
  | debug => "DEBUG"

def rank : Level → Nat
  | warn => 0
  | info => 1
  | debug => 2

/-- Whether notes of this level are shown when `least` is the least level shown. -/
def shownAt (level least : Level) : Bool := level.rank ≤ least.rank

end Level

inductive Note where
  | tooShortForTrailer (path : Path) (size : Nat)
  | trailerUnreadable (path : Path) (fault : Fault)
  | trailerRejected (path : Path) (error : LoadError)
  | mapped (extent : Extent) (adjustment : UInt64)
  | unmapped (extent : Extent)
  | read (size offset : UInt64)
  | hostUnmapped (error : LoadError)
  | hostRejected (path : Path) (error : LoadError)
  | nothingEmbedded (path : Path)
  | hostRecognised (path : Path) (image : ImageSummary)
  | hostUnrecognised (path : Path) (error : LoadError)
  | payloadWithoutMagic (path : Path)
  | temporaryLeft (path : Path) (fault : Fault)
  | embedded (size offset : UInt64) (out : Path)
  | stage (before after : Stage)
  | consumersLeft (count : Nat)
  | lookupFailed (path : Path) (error : LoadError)
  | foundEmbedded (offset size : UInt64)
  | loadingFile (path : Path) (size : Nat)
  | aboveCeiling (size ceiling : UInt64)
  | modelMapped (size : UInt64)
  | mappingFailed (error : LoadError)
  | modelRead (size : UInt64)
  | magicVerified
  | magicMissing (found : Bytes)
  | handingOver (size : Nat)
  | engineArguments (text : String)
  | relyingOn (path : Path)
  | firstBytes (head : Bytes)
deriving DecidableEq, Repr

namespace Note

def level : Note → Level
  | hostRejected .. | hostUnrecognised .. | payloadWithoutMagic .. | lookupFailed ..
  | magicMissing .. => .warn
  | hostRecognised .. | embedded .. | foundEmbedded .. | loadingFile .. | aboveCeiling ..
  | modelMapped .. | mappingFailed .. | modelRead .. | magicVerified | handingOver .. => .info
  | _ => .debug

def topic : Note → String
  | tooShortForTrailer .. | trailerUnreadable .. | trailerRejected .. => "umekomi_core::trailer"
  | mapped .. | unmapped .. => "umekomi_core::mapper"
  | read .. => "umekomi_core::heap"
  | hostUnmapped .. | hostRejected .. | nothingEmbedded .. => "umekomi_core::host"
  | hostRecognised .. | hostUnrecognised .. | payloadWithoutMagic .. | temporaryLeft ..
  | embedded .. => "umekomi_core::embed"
  | stage .. | consumersLeft .. | lookupFailed .. | foundEmbedded .. | loadingFile ..
  | aboveCeiling .. | modelMapped .. | mappingFailed .. | modelRead .. | magicVerified
  | magicMissing .. => "umekomi_core::orchestrator"
  | handingOver .. | engineArguments .. => "umekomi_core::engine"
  | relyingOn .. => "umekomi"
  | firstBytes .. => "umekomi::dry_run"

def megabytes (size : Nat) : String := Number.scaledCount size 20 ++ " MB"

def gigabytes (size : Nat) : String := Number.scaledCount size 30 ++ " GB"

def hexNumber (n : Nat) : String := "0x" ++ String.ofList (Nat.toDigits 16 n)

def text : Note → String
  | tooShortForTrailer path size =>
    path ++ " is " ++ toString size ++ " bytes, too small for a trailer"
  | trailerUnreadable path fault => "could not read trailer of " ++ path ++ ": " ++ fault.message
  | trailerRejected path error => "no embedded payload in " ++ path ++ ": " ++ error.message
  | mapped extent adjustment =>
    "mapped " ++ toString extent.length ++ " bytes at file offset " ++
      hexNumber extent.base.toNat ++ " (view +" ++ toString adjustment ++ ")"
  | unmapped extent => "unmapped " ++ toString extent.length ++ " bytes"
  | read size offset =>
    "read " ++ toString size ++ " bytes from offset " ++ hexNumber offset.toNat ++ " into memory"
  | hostUnmapped error => error.message ++ "; reading host image instead"
  | hostRejected path error => path ++ ": " ++ error.message
  | nothingEmbedded path => path ++ " carries no embedded payload"
  | hostRecognised path image =>
    "host " ++ path ++ " is a " ++ toString image.bits ++ "-bit " ++ image.format.name ++ " image"
  | hostUnrecognised path error => path ++ ": " ++ error.message ++ "; embedding anyway"
  | payloadWithoutMagic path => path ++ " does not start with the GGUF magic"
  | temporaryLeft path fault => "could not remove " ++ path ++ ": " ++ fault.message
  | embedded size offset out =>
    "embedded " ++ toString size ++ " bytes at offset " ++ toString offset ++ " into " ++ out
  | stage before after => "load state " ++ before.name ++ " -> " ++ after.name
  | consumersLeft count =>
    toString count ++ " consumer(s) still hold the model; it is released when they finish"
  | lookupFailed path error =>
    "cannot inspect " ++ path ++ " for an embedded model: " ++ error.message
  | foundEmbedded offset size =>
    "found embedded model at offset " ++ toString offset ++ ", size " ++ megabytes size.toNat
  | loadingFile path size => "loading model file " ++ path ++ " (" ++ megabytes size ++ ")"
  | aboveCeiling size ceiling =>
    "model size " ++ gigabytes size.toNat ++ " exceeds the mmap ceiling of " ++
      gigabytes ceiling.toNat ++ ", reading into memory"
  | modelMapped size => "model mapped: " ++ megabytes size.toNat
  | mappingFailed error => error.message ++ "; falling back to reading into memory"
  | modelRead size => "model read into memory: " ++ megabytes size.toNat
  | magicVerified => "GGUF magic verified"
  | magicMissing found =>
    "payload starts with " ++ Bytes.hexList found ++ ", not GGUF; continuing"
  | handingOver size => "handing " ++ toString size ++ " bytes to the inference engine"
  | engineArguments args => "engine args: " ++ args
  | relyingOn path => "no model path given; relying on " ++ path
  | firstBytes head => "first bytes of model: " ++ Bytes.hexList head

end Note

/-!
What the library acts on: the files, the mappings it holds, the models it has handed out, and the
notes it leaves.  A model is shared by counting the handles on it; its bytes are given back
together with the last handle.
-/

structure Shared where
  model : Model
  handles : Nat
deriving Repr

structure World where
  files : FileSystem
  /-- Mappings made so far; this is the number of the next one. -/
  mapped : Nat
  /-- What was given back to the system, latest first. -/
  unmapped : List Extent
  models : Table Nat Shared
  nextModel : Nat
  notes : List Note

namespace World

def ofFiles (files : FileSystem) : World where
  files
  mapped := 0
  unmapped := []
  models := []
  nextModel := 0
  notes := []

def note (world : World) (note : Note) : World :=
  { world with notes := world.notes ++ [note] }

def unmap (world : World) (mapping : Mapping) : World :=
  { world with
    unmapped := mapping.extent :: world.unmapped
    notes := world.notes ++ [.unmapped mapping.extent] }

end World

/-- Gives back the mapping behind a region, unless that was done before. -/
def Region.release (region : Region) (world : World) : Region × World :=
  match region.mapping with
  | none => (region, world)
  | some mapping => (region.cleared, world.unmap mapping)

namespace Payload

def release (payload : Payload) (world : World) : Payload × World :=
  match payload with
  | mapped region => (mapped (region.release world).1, (region.release world).2)
  | buffered _ => (buffered ⟨[]⟩, world)

end Payload

inductive AccessPattern where
  | sequential
  | random
  | willNeed
deriving DecidableEq, Repr

/-- Tells the system how a region will be read.  This is a hint: no byte and no state that can be
observed depends on it. -/
def Region.advise (region : Region) (_ : AccessPattern) (world : World) : Region × World :=
  (region, world)

namespace World

def share (world : World) (model : Model) : Nat × World :=
  (world.nextModel,
    { world with
      models := Table.set world.models world.nextModel ⟨model, 1⟩
      nextModel := world.nextModel + 1 })

def shared? (world : World) (id : Nat) : Option Shared := Table.get? world.models id

def model? (world : World) (id : Nat) : Option Model := (world.shared? id).map Shared.model

def handles (world : World) (id : Nat) : Nat :=
  match world.shared? id with
  | some shared => shared.handles
  | none => 0

def retain (world : World) (id : Nat) : World :=
  { world with
    models := Table.update world.models id fun shared =>
      { shared with handles := shared.handles + 1 } }

/-- One handle less; with the last one the bytes are given back and the model is gone. -/
def letGo (world : World) (id : Nat) : World :=
  match world.shared? id with
  | none => world
  | some shared =>
    if shared.handles ≤ 1 then
      (shared.model.payload.release { world with models := Table.erase world.models id }).2
    else
      { world with
        models := Table.set world.models id { shared with handles := shared.handles - 1 } }

def releaseEarly (world : World) (id : Nat) : World :=
  match world.shared? id with
  | none => world
  | some shared =>
    let (payload, world) := shared.model.payload.release world
    { world with
      models := Table.set world.models id
        { shared with model := { shared.model with payload } } }

end World

end ModelBundle
