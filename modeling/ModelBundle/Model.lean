import ModelBundle.Basic
import ModelBundle.Error
import ModelBundle.Number

/-!
Models: the magic, the trailer that tells where a payload lies, the bytes of a payload in memory.
Every GGUF container starts with the same four bytes, and a policy says what to do about a payload
without them.
-/

namespace ModelBundle

namespace Magic

def gguf : Bytes := [0x47, 0x47, 0x55, 0x46]

def startsView (view : Bytes) : Bool := gguf.isPrefixOf view

def leading (view : Bytes) : Bytes := view.take gguf.length

theorem startsView_iff (view : Bytes) : startsView view = true ↔ leading view = gguf := by
  rw [startsView, leading, List.isPrefixOf_iff_prefix, List.prefix_iff_eq_take]
  exact eq_comm

end Magic

inductive MagicPolicy where
  | abort
  | warn
deriving DecidableEq, Repr, Inhabited

/-!
The trailer: the last sixteen bytes of a bundle, two little-endian words that say where the
payload starts and how long it is.  A trailer is believed only if payload and trailer together
end exactly where the file ends.
-/

structure Trailer where
  offset : UInt64
  size : UInt64
deriving DecidableEq, Repr

namespace Trailer

def width : Nat := 16

def encode (trailer : Trailer) : Bytes :=
  Bytes.littleEndian 8 trailer.offset.toNat ++ Bytes.littleEndian 8 trailer.size.toNat

def decode (bytes : Bytes) : Except Fault (Trailer × Bytes) :=
  if bytes.length < width then .error .endOfInput
  else
    .ok (⟨UInt64.ofNat (Bytes.fromLittleEndian (bytes.take 8)),
        UInt64.ofNat (Bytes.fromLittleEndian (Bytes.slice bytes 8 8))⟩, bytes.drop width)

def expectedFileSize (trailer : Trailer) : Option UInt64 :=
  (Word.add? trailer.offset trailer.size).bind fun sum => Word.add? sum (UInt64.ofNat width)

/-- Accepts a trailer for a file of the given size, which comes from the file itself. -/
def check (trailer : Trailer) (fileSize : Nat) : Except LoadError Unit :=
  if 0 < trailer.offset && 0 < trailer.size &&
      (trailer.expectedFileSize.map UInt64.toNat) = some fileSize then .ok ()
  else .error (.sizeMismatch trailer.offset trailer.size fileSize)

/-- Reads the trailer of a file that is said to have the given size; a shorter file than sixteen
bytes has none. -/
def readLast (content : Bytes) (fileSize : Nat) : Except Fault (Option Trailer) :=
  if fileSize < width then .ok none
  else match decode (content.drop (fileSize - width)) with
    | .ok (trailer, _) => .ok (some trailer)
    | .error fault => .error fault

end Trailer

/-!
A region is a read-only view of some bytes of a file, backed by a mapping that may start earlier.
Once the mapping is given back the view is empty and stays so.
-/

/-- Which bytes of a file one mapping covers; no two mappings share a number. -/
structure Extent where
  number : Nat
  base : UInt64
  length : Nat
deriving DecidableEq, Repr

structure Mapping where
  number : Nat
  base : UInt64
  content : Bytes
deriving DecidableEq, Repr

def Mapping.extent (mapping : Mapping) : Extent :=
  ⟨mapping.number, mapping.base, mapping.content.length⟩

structure Region where
  /-- The mapping behind the view, until it is given back. -/
  mapping : Option Mapping
  /-- Bytes between the start of the mapping and the start of the view. -/
  adjustment : UInt64
  size : UInt64
deriving DecidableEq, Repr

namespace Region

def bytes (region : Region) : Bytes :=
  match region.mapping with
  | some mapping => Bytes.slice mapping.content region.adjustment.toNat region.size.toNat
  | none => []

def mappedLength (region : Region) : Nat :=
  match region.mapping with
  | some mapping => mapping.content.length
  | none => 0

def isReleased (region : Region) : Bool := region.mapping.isNone

def cleared (region : Region) : Region := { region with mapping := none }

private def truth (b : Bool) : String := if b then "true" else "false"

/-- The region as diagnostics show it; the length is the one asked for, also after release. -/
def text (region : Region) : String :=
  "MappedRegion \x7b len: " ++ toString region.size ++ ", adjustment: " ++
    toString region.adjustment ++ ", mapped_len: " ++ toString region.mappedLength ++
    ", released: " ++ truth region.isReleased ++ " \x7d"

@[simp] theorem bytes_cleared (region : Region) : region.cleared.bytes = [] := rfl

@[simp] theorem mappedLength_cleared (region : Region) : region.cleared.mappedLength = 0 := rfl

@[simp] theorem isReleased_cleared (region : Region) : region.cleared.isReleased = true := rfl

end Region

/-!
Payload bytes in memory: a view of a mapped file, or a copy.
-/

structure Buffer where
  content : Bytes
deriving DecidableEq, Repr

def Buffer.text (buffer : Buffer) : String :=
  "HeapBuffer \x7b len: " ++ toString buffer.content.length ++ " \x7d"

inductive Payload where
  | mapped (region : Region)
  | buffered (buffer : Buffer)
deriving DecidableEq, Repr

inductive PayloadKind where
  | mapped
  | buffered
deriving DecidableEq, Repr

def PayloadKind.name : PayloadKind → String
  | mapped => "mapped"
  | buffered => "buffered"

namespace Payload

def bytes : Payload → Bytes
  | mapped region => region.bytes
  | buffered buffer => buffer.content

def length (payload : Payload) : Nat := payload.bytes.length

def kind : Payload → PayloadKind
  | mapped _ => .mapped
  | buffered _ => .buffered

def mapping? : Payload → Option Mapping
  | mapped region => region.mapping
  | buffered _ => none

def cleared : Payload → Payload
  | mapped region => mapped region.cleared
  | buffered _ => buffered ⟨[]⟩

@[simp] theorem bytes_cleared (payload : Payload) : payload.cleared.bytes = [] := by
  cases payload <;> rfl

@[simp] theorem kind_cleared (payload : Payload) : payload.cleared.kind = payload.kind := by
  cases payload <;> rfl

@[simp] theorem mapping?_cleared (payload : Payload) : payload.cleared.mapping? = none := by
  cases payload <;> rfl

end Payload

/-!
A loaded model: its bytes, where they were found, and whether they carry the magic.
-/

inductive Source where
  | embedded (exe : Path) (offset size : UInt64)
  | file (path : Path)
deriving DecidableEq, Repr

namespace Source

def embeddedName : String := "embedded-model.gguf"

def ofTrailer (exe : Path) (trailer : Trailer) : Source :=
  embedded exe trailer.offset trailer.size

def path : Source → Path
  | embedded exe .. => exe
  | file path => path

def modelName : Source → String
  | embedded .. => embeddedName
  | file path => path

end Source

structure Model where
  payload : Payload
  source : Source
  valid : Bool
deriving DecidableEq, Repr

namespace Model

def bytes (model : Model) : Bytes := model.payload.bytes

end Model

end ModelBundle
