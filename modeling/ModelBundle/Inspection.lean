import ModelBundle.Access
import ModelBundle.Image.Elf
import ModelBundle.Image.MachO
import ModelBundle.Image.Pe
import ModelBundle.Model

/-!
Describing a file that may carry a payload: the executable in front, the trailer, the first bytes
of the payload.  What executable some bytes are is told from their beginning.  Object files and
archives of them are never a host; still a broken one is told apart from bytes of no known format.
-/

namespace ModelBundle.Image

namespace ObjectFile

def check (view : View) : Except ImageFault Unit := do
  let header ← Pe.fileHeader view 0
  let _ ← Pe.sections view header (20 + header.optionalSize)
  if header.symbolsOffset ≠ 0 then
    let size := header.symbolCount * Pe.symbolSize
    ensure "symbol table" (view.holdsAt header.symbolsOffset size)
    let strings := header.symbolsOffset + size
    let length ← require "string table" (view.word? .little 4 strings)
    let bytes ← require "string table" (view.slice? (strings + 4) (length - 4))
    ensure "string table" (isText bytes)

end ObjectFile

namespace Archive

def magic : Bytes := [33, 60, 97, 114, 99, 104, 62, 10]

def memberHeader : Nat := 60

private def decimal? (bytes : Bytes) : Option Nat :=
  let digits := if bytes.head? = some 43 then bytes.drop 1 else bytes
  if digits.isEmpty then none
  else digits.foldlM (fun value byte =>
    if 48 ≤ byte.toNat && byte.toNat ≤ 57 then some (value * 10 + (byte.toNat - 48)) else none) 0

private def isBlank (byte : UInt8) : Bool :=
  byte = 32 || (9 ≤ byte.toNat && byte.toNat ≤ 13)

private def trimEnd (bytes : Bytes) : Bytes := (bytes.reverse.dropWhile isBlank).reverse

/-- The length of a name that stands in front of the content. -/
private def longName? (name : Bytes) : Option Nat :=
  match name with
  | 35 :: 49 :: 47 :: rest => decimal? (trimEnd rest)
  | _ => none

private def indexName : Bytes := 47 :: List.replicate 15 32

private def nameTableName : Bytes := 47 :: 47 :: List.replicate 14 32

/-- A symbol index: a count, as many words, and names. -/
private def checkIndex (view : View) (offset size : Nat) : Except ImageFault Unit := do
  let count ← require "archive index" (view.word? .big 4 offset)
  ensure "archive index" (view.holds offset size && 4 + count * 4 ≤ size)
  let names ← require "archive index"
    (view.slice? (offset + 4 + count * 4) (size - 4 - count * 4))
  ensure "archive index" (isText names)

/-- A table of names, together with the byte in front of it. -/
private def checkNameTable (view : View) (offset size : Nat) : Except ImageFault Unit := do
  let names ← require "archive names" (view.slice? (offset - 1) (size + 1))
  ensure "archive names" (isText names)

/-- Checks the members from an offset on.  The content of an ordinary member may be cut off. -/
def checkMembers (view : View) : (fuel offset : Nat) → Except ImageFault Unit
  | 0, _ => .ok ()
  | fuel + 1, offset => do
    if view.size ≤ offset + 1 then return
    let offset := offset + offset % 2
    let what := "archive member"
    let name ← require what (view.slice? offset 16)
    ensure what (view.holds offset memberHeader && isText name)
    let digits ← require what (view.slice? (offset + 48) 10)
    let size ← require what (decimal? (trimEnd digits))
    let start := offset + memberHeader
    match longName? name with
    | some length =>
      ensure what (length ≤ size && ((view.slice? start length).map isText).getD false)
    | none => pure ()
    if name = indexName then checkIndex view start size
    if name = nameTableName then checkNameTable view start size
    checkMembers view fuel (start + size)

def check (view : View) : Except ImageFault Unit := checkMembers view (view.size + 1) magic.length

end Archive

/-! The first bytes select a format; the rest must then hold together as that format says. -/

inductive Headers where
  | elf (headers : Elf.Headers)
  | pe (headers : Pe.Headers)
  | machO (headers : MachO.Headers)
  | fat (headers : MachO.FatHeaders)
deriving DecidableEq, Repr

namespace Headers

def summary : Headers → ImageSummary
  | elf headers => headers.summary
  | pe headers => headers.summary
  | machO headers => headers.summary
  | fat headers => headers.summary

end Headers

def shortest : Nat := 16

def objectMagics : List Nat := [0x014c, 0x8664, 0xaa64]

def read (bytes : Bytes) : Except ImageFault Headers := do
  let view := View.ofBytes bytes
  let start ← require "first bytes" (view.slice? 0 shortest)
  let two := Bytes.fromLittleEndian (start.take 2)
  if [0x7f, 0x45, 0x4c, 0x46].isPrefixOf start then Headers.elf <$> Elf.read view
  else if Archive.magic.isPrefixOf start then do
    Archive.check view
    .error .unsupported
  else if two = 0x5a4d then Headers.pe <$> Pe.read view
  else if objectMagics.contains two then do
    ObjectFile.check view
    .error .unsupported
  else if (MachO.layout? view).isSome then Headers.machO <$> MachO.read view
  else if start.take 4 = [0xca, 0xfe, 0xba, 0xbe] then Headers.fat <$> MachO.readFat view
  else .error .unsupported

def summarize (bytes : Bytes) : Except LoadError ImageSummary :=
  match read bytes with
  | .ok headers => .ok headers.summary
  | .error fault => .error (.unknownHost fault)

end ModelBundle.Image

/-! The description of a file. -/

namespace ModelBundle

structure Inspection where
  fileSize : Nat
  /-- Nothing when the bytes in front of the payload are no known executable. -/
  host : Option ImageSummary
  trailer : Option Trailer
  payloadMagic : Option Bytes
  payloadValid : Bool
deriving DecidableEq, Repr

namespace Inspection

def overlayLength (inspection : Inspection) : Option Nat :=
  inspection.host.map fun host => inspection.fileSize - host.imageEnd.toNat

def front (page : Page) (handle : Handle) (size : UInt64) : Action World Payload := do
  match ← Action.attempt (Mapper.system page handle 0 size) with
  | .ok region => return .mapped region
  | .error error => do
    Action.modify fun world => world.note (.hostUnmapped error)
    return .buffered (← Buffer.read handle 0 size)

/-- The executable that some bytes of an open file are; without bytes there is none. -/
def readHost (page : Page) (path : Path) (handle : Handle) (size : UInt64) :
    Action World (Option ImageSummary) :=
  if size = 0 then pure none
  else do
    let payload ← front page handle size
    match Image.summarize payload.bytes with
    | .ok summary => do
      Action.modify fun world => (payload.release world).2
      return some summary
    | .error error => do
      Action.modify fun world => (payload.release (world.note (.hostRejected path error))).2
      return none

def inspect (path : Path) (page : Page := .usual) : Action World Inspection := do
  let world ← Action.get
  match world.files.openRead path with
  | .error fault => Action.fail (.ofOpen path fault)
  | .ok handle => do
    let fileSize := world.files.size handle
    let trailer ← Trailer.locate path
    let host ← readHost page path handle (match trailer with
      | some trailer => trailer.offset
      | none => .ofNat fileSize)
    match trailer with
    | some trailer => do
      let head ← Buffer.read handle trailer.offset (min trailer.size 4)
      return {
        fileSize, host, trailer := some trailer
        payloadMagic := some head.content
        payloadValid := Magic.startsView head.content }
    | none => do
      if Trailer.width ≤ fileSize then
        Action.modify fun world => world.note (.nothingEmbedded path)
      return { fileSize, host, trailer := none, payloadMagic := none, payloadValid := false }

end Inspection

end ModelBundle
