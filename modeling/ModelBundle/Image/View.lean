import ModelBundle.Basic
import ModelBundle.Error
import ModelBundle.Number

/-!
What is reported about an executable, and access to its bytes.  The report tells its format, word
size, entry point and extent.
-/

namespace ModelBundle

inductive ImageFormat where
  | elf
  | pe
  | machO
  /-- Several Mach-O images behind one table. -/
  | fatMachO
deriving DecidableEq, Repr

def ImageFormat.name : ImageFormat → String
  | elf => "ELF"
  | pe => "PE"
  | machO => "Mach-O"
  | fatMachO => "Mach-O (fat)"

def ImageFormat.tag : ImageFormat → String
  | elf => "Elf"
  | pe => "Pe"
  | machO => "MachO"
  | fatMachO => "FatMachO"

structure ImageSummary where
  format : ImageFormat
  is64 : Bool
  /-- Address of the entry point, counted from the image base in a PE image. -/
  entry : UInt64
  isExecutable : Bool
  /-- File offset just past the last byte that the headers describe. -/
  imageEnd : UInt64
deriving DecidableEq, Repr

def ImageSummary.bits (summary : ImageSummary) : Nat := if summary.is64 then 64 else 32

end ModelBundle

/-!
Spans of a file that headers describe, and how far the farthest of them reaches.
-/

namespace ModelBundle.Image

structure Span where
  offset : UInt64
  length : UInt64
deriving DecidableEq, Repr

namespace Span

/-- File offset just past the span, or the largest word when that does not fit. -/
def stop (span : Span) : UInt64 := Word.cappedAdd span.offset span.length

def farthest (spans : List Span) : UInt64 := spans.foldl (fun reach span => max reach span.stop) 0

end Span

/-!
Random access to the bytes of an image: words of either byte order, records of words, texts.
Every access says by its result whether the range lies inside the image.
-/

inductive ByteOrder where
  | little
  | big
deriving DecidableEq, Repr

def ByteOrder.value : ByteOrder → Bytes → Nat
  | little, bytes => Bytes.fromLittleEndian bytes
  | big, bytes => Bytes.fromBigEndian bytes

structure View where
  bytes : Array UInt8

namespace View

def ofBytes (bytes : Bytes) : View := ⟨bytes.toArray⟩

def size (view : View) : Nat := view.bytes.size

def holds (view : View) (offset size : Nat) : Bool := offset + size ≤ view.size

/-- Whether the range lies inside the image and starts at one of its bytes, even when empty. -/
def holdsAt (view : View) (offset size : Nat) : Bool := offset < view.size && view.holds offset size

def slice? (view : View) (offset size : Nat) : Option Bytes :=
  if view.holds offset size then some (view.bytes.extract offset (offset + size)).toList else none

def word? (view : View) (order : ByteOrder) (width offset : Nat) : Option Nat :=
  (view.slice? offset width).map order.value

def words? (view : View) (order : ByteOrder) : List Nat → Nat → Option (List Nat)
  | [], _ => some []
  | width :: widths, offset => do
    let word ← view.word? order width offset
    let words ← view.words? order widths (offset + width)
    pure (word :: words)

def totalWidth (widths : List Nat) : Nat := widths.foldl Nat.add 0

def records? (view : View) (order : ByteOrder) (widths : List Nat) (stride : Nat) :
    (count offset : Nat) → Option (List (List Nat))
  | 0, _ => some []
  | count + 1, offset => do
    let record ← view.words? order widths offset
    let records ← view.records? order widths stride count (offset + stride)
    pure (record :: records)

private def collect (view : View) : (count offset : Nat) → Bytes
  | 0, _ => []
  | count + 1, offset =>
    match view.bytes[offset]? with
    | none => []
    | some byte => if byte = 0 then [] else byte :: view.collect count (offset + 1)

def untilZero (view : View) (offset : Nat) : Bytes := view.collect (view.size - offset) offset

end View

def isText (bytes : Bytes) : Bool := bytes.toByteArray.validateUTF8

def require {α : Type} (what : String) : Option α → Except ImageFault α
  | some value => .ok value
  | none => .error (.malformed what)

def ensure (what : String) (condition : Bool) : Except ImageFault Unit :=
  if condition then .ok () else .error (.malformed what)

end ModelBundle.Image
