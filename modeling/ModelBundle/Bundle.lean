import ModelBundle.Access
import ModelBundle.Inspection
import ModelBundle.Model

/-!
Building a bundle: a host, padding, a payload and a trailer in one file.  The bundle is built
under a temporary name, checked, and only then given the name it is meant to have.
-/

namespace ModelBundle.Bundle

def ceilDiv (a b : UInt64) : UInt64 := if 0 < a % b then a / b + 1 else a / b

/-- Where the payload starts: behind the host, on a multiple of the alignment if one is asked
for. -/
def payloadOffset (hostSize : UInt64) (align : Option UInt64) : UInt64 :=
  match align with
  | some align => if 1 < align then ceilDiv hostSize align * align else hostSize
  | none => hostSize

def padding (host : Bytes) (trailer : Trailer) : Bytes :=
  List.replicate (trailer.offset.toNat - host.length) 0

def content (host payload : Bytes) (trailer : Trailer) : Bytes :=
  host ++ padding host trailer ++ payload ++ trailer.encode

/-- What one builds a bundle from, after everything has been checked that can be checked before
anything is written. -/
structure Parts where
  host : Bytes
  payload : Handle
  head : Bytes
  trailer : Trailer
deriving DecidableEq, Repr

def remainder (files : FileSystem) (handle : Handle) (position : Nat) : Bytes :=
  ((files.content? handle).getD []).drop position

def onFiles {α : Type} (step : FileSystem → Except Fault (α × FileSystem)) : Action World α :=
  fun world =>
    match step world.files with
    | .ok (value, files) => (.ok value, { world with files })
    | .error fault => (.error (.io fault), world)

def append (id : Nat) (bytes : Bytes) : Action World Unit :=
  Action.modify fun world => { world with files := world.files.append id bytes }

/-- Writes everything from the host on, with what the payload delivers behind its head.  That has to
be as many bytes as its file was seen to have, and all of it has to fit into a file. -/
def complete (id : Nat) (parts : Parts) (rest : Bytes) : Action World Unit := do
  let delivered := parts.head.length + rest.length
  let stop := parts.trailer.offset.toNat + delivered
  if FileSystem.lengthLimit ≤ stop then Action.fail (.io (.system .fileTooLarge))
  else do
    append id (parts.host ++ padding parts.host parts.trailer ++ parts.head ++ rest)
    if delivered ≠ parts.trailer.size.toNat then
      Action.fail (.shortRead parts.trailer.offset parts.trailer.size delivered)
    else if FileSystem.lengthLimit ≤ stop + Trailer.width then
      Action.fail (.io (.system .fileTooLarge))
    else append id parts.trailer.encode

/-- Writes a bundle to a file.  If that is the file the payload is read from, the copy runs after
its own end and goes on until the file may not grow any more. -/
def write (path : Path) (parts : Parts) : Action World Unit := do
  let id ← onFiles fun files => files.create path
  if parts.payload = .file id then Action.fail (.io (.system .fileTooLarge))
  else do
    let rest := remainder (← Action.get).files parts.payload parts.head.length
    complete id parts rest

def metadata (path : Path) : Action World (Nat × Nat) :=
  onFiles fun files => (fun found => (found, files)) <$> files.metadata path

def verify (path : Path) (trailer : Trailer) : Action World Unit := do
  if (← Trailer.locate path) = some trailer then return
  let (size, _) ← metadata path
  Action.fail (.sizeMismatch trailer.offset trailer.size size)

def build (host temporary : Path) (parts : Parts) : Action World Unit := do
  write temporary parts
  let (_, mode) ← metadata host
  onFiles fun files => (fun files => ((), files)) <$> files.setMode temporary mode
  verify temporary parts.trailer

def discard (path : Path) (world : World) : World :=
  match world.files.remove path with
  | .ok files => { world with files }
  | .error fault => world.note (.temporaryLeft path fault)

def publish (host out : Path) (parts : Parts) : Action World Unit := do
  let temporary := Path.temporary out
  match ← Action.attempt (build host temporary parts) with
  | .error error => do
    Action.modify (discard temporary)
    Action.fail error
  | .ok () => onFiles fun files => (fun files => ((), files)) <$> files.rename temporary out

/-- The content of the host, which must not be a bundle already and not be named as the output. -/
def readHost (host payload out : Path) : Action World Bytes := do
  match ← Trailer.locate host with
  | some found => Action.fail (.alreadyEmbedded host found.offset found.size)
  | none => do
    let files := (← Action.get).files
    if files.sameFile out host || files.sameFile out payload then
      Action.fail (.io (.overwritesInput out))
    else match files.readWhole host with
      | .error fault => Action.fail (.ofOpen host fault)
      | .ok content => do
        Action.modify fun world => world.note (match Image.summarize content with
          | .ok image => .hostRecognised host image
          | .error error => .hostUnrecognised host error)
        return content

def readPayload (payload : Path) : Action World (Handle × Nat × Bytes) := do
  let files := (← Action.get).files
  match files.openRead payload with
  | .error fault => Action.fail (.ofOpen payload fault)
  | .ok handle =>
    let size := files.size handle
    let least := Magic.gguf.length
    if size < least then Action.fail (.tooSmall payload size least)
    else match files.content? handle with
      | none => Action.fail (.io (.system .isADirectory))
      | some content => do
        let head := content.take least
        if !Magic.startsView head then
          Action.modify fun world => world.note (.payloadWithoutMagic payload)
        return (handle, size, head)

def prepare (host payload out : Path) (align : Option UInt64) : Action World Parts := do
  let content ← readHost host payload out
  let (handle, size, head) ← readPayload payload
  if content.length = 0 then
    -- A payload at offset zero would never be found again.
    Action.fail (.tooSmall host 0 1)
  else
    return {
      host := content
      payload := handle
      head
      trailer := ⟨payloadOffset (.ofNat content.length) align, .ofNat size⟩ }

/-- Writes host, padding, payload and trailer to `out`, with the permissions of the host. -/
def embed (host payload out : Path) (align : Option UInt64) : Action World Trailer := do
  let parts ← prepare host payload out align
  publish host out parts
  Action.modify fun world =>
    world.note (.embedded parts.trailer.size parts.trailer.offset out)
  return parts.trailer

end ModelBundle.Bundle
