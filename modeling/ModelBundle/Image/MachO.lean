import ModelBundle.Image.View

/-!
Mach-O images and tables of several of them.  Reading takes the header and the load commands;
segments, symbols, library names and thread states that the commands refer to must lie in the
file.
-/

namespace ModelBundle.Image.MachO

structure Segment where
  /-- Sixteen bytes, filled up with zeros. -/
  name : Bytes
  address : UInt64
  fileOffset : UInt64
  fileSize : UInt64
deriving DecidableEq, Repr

structure Headers where
  is64 : Bool
  fileKind : UInt32
  /-- Bytes that the load commands take behind the header. -/
  commandsSize : UInt32
  entry : UInt64
  segments : List Segment
deriving DecidableEq, Repr

def program : UInt32 := 2

namespace Headers

def spans (headers : Headers) : List Span :=
  headers.segments.map fun s => ⟨s.fileOffset, s.fileSize⟩

def imageEnd (headers : Headers) : UInt64 := Span.farthest headers.spans

def summary (headers : Headers) : ImageSummary where
  format := .machO
  is64 := headers.is64
  entry := headers.entry
  isExecutable := headers.fileKind = program
  imageEnd := headers.imageEnd

end Headers

inductive Command where
  | segment (segment : Segment)
  | symbols (symbolOffset stringOffset : Nat)
  /-- A text at a file offset: the name of a library or a search path. -/
  | text (offset : Nat)
  | thread (registers : List Nat)
  | main (entryOffset : Nat)
  | other

structure Layout where
  is64 : Bool
  order : ByteOrder

def layout? (view : View) : Option Layout := do
  let magic ← view.word? .big 4 0
  if magic = 0xfeedface then some ⟨false, .big⟩
  else if magic = 0xfeedfacf then some ⟨true, .big⟩
  else if magic = 0xcefaedfe then some ⟨false, .little⟩
  else if magic = 0xcffaedfe then some ⟨true, .little⟩
  else none

def required : Nat := 0x80000000

/-- Bytes that a command of a kind takes at least.  Commands of other kinds are just a header. -/
def commandSize (kind : Nat) : Nat :=
  let plain := if required ≤ kind then kind - required else kind
  if kind = plain then
    match plain with
    | 0x1 => 56
    | 0x2 => 24
    | 0x3 => 16
    | 0x4 | 0x5 => 16
    | 0x6 | 0x7 => 20
    | 0x9 => 16
    | 0xb => 80
    | 0xc | 0xd => 24
    | 0xe | 0xf => 12
    | 0x10 => 20
    | 0x11 => 40
    | 0x12 | 0x13 | 0x14 | 0x15 => 12
    | 0x16 => 16
    | 0x17 => 12
    | 0x19 | 0x1a => 72
    | 0x1b => 24
    | 0x1d | 0x1e => 16
    | 0x20 => 24
    | 0x21 => 20
    | 0x22 => 48
    | 0x24 | 0x25 | 0x26 => 16
    | 0x27 => 12
    | 0x29 | 0x2a | 0x2b => 16
    | 0x2c => 24
    | 0x2d | 0x2e | 0x2f | 0x30 => 16
    | 0x31 => 40
    | 0x32 => 24
    | _ => 8
  else
    match plain with
    | 0x18 | 0x1f | 0x23 => 24
    | 0x1c => 12
    | 0x22 => 48
    | 0x28 => 24
    | 0x33 | 0x34 => 16
    | 0x35 => 32
    | _ => 8

def maxRegisters : Nat := 70

private def segmentOf (name : Bytes) (address fileOffset fileSize : Nat) : Command :=
  .segment ⟨name, .ofNat address, .ofNat fileOffset, .ofNat fileSize⟩

def command (view : View) (layout : Layout) (offset : Nat) : Except ImageFault (Command × Nat) := do
  let what := "load command"
  let word := fun at_ => require what (view.word? layout.order 4 (offset + at_))
  let wide := fun at_ => require what (view.word? layout.order 8 (offset + at_))
  let kind ← word 0
  let size ← word 4
  ensure what (view.holds offset size && view.holds offset (commandSize kind))
  let said ←
    if kind = 0x1 then do
      let name ← require what (view.slice? (offset + 8) 16)
      pure (segmentOf name (← word 24) (← word 32) (← word 36))
    else if kind = 0x19 then do
      let name ← require what (view.slice? (offset + 8) 16)
      pure (segmentOf name (← wide 24) (← wide 40) (← wide 48))
    else if kind = 0x2 then do pure (.symbols (← word 8) (← word 16))
    else if [0xc, 0xd, 0x20, required + 0x18, required + 0x1c, required + 0x1f,
        required + 0x23].contains kind then do pure (.text (offset + (← word 8)))
    else if kind = 0x4 || kind = 0x5 then do
      let count ← word 12
      ensure "thread state" (count ≤ maxRegisters)
      let registers ← require "thread state"
        (view.words? layout.order (List.replicate count 4) (offset + 16))
      pure (if kind = 0x5 then .thread registers else .other)
    else if kind = required + 0x28 then do pure (.main (← wide 8))
    else pure .other
  return (said, size)

def commands (view : View) (layout : Layout) :
    (count offset : Nat) → Except ImageFault (List Command)
  | 0, _ => .ok []
  | count + 1, offset => do
    let (first, size) ← command view layout offset
    let rest ← commands view layout count (offset + size)
    return first :: rest

def checkCommand (view : View) : Command → Except ImageFault Unit
  | .segment s =>
    if s.fileSize = 0 then .ok ()
    else ensure "segment" (view.holdsAt s.fileOffset.toNat s.fileSize.toNat)
  | .symbols symbolOffset stringOffset =>
    ensure "symbol table" (symbolOffset ≤ stringOffset && symbolOffset < view.size)
  | .text offset => ensure "name" (offset < view.size && isText (view.untilZero offset))
  | _ => .ok ()

def startAddress (machine : Nat) (registers : List Nat) : Except ImageFault Nat :=
  let single := fun index => .ok (registers.getD index 0)
  let pair := fun index => .ok (registers.getD index 0 + registers.getD (index + 1) 0 <<< 32)
  if machine = 7 then single 10
  else if machine = 0x01000007 then pair 32
  else if machine = 12 then single 15
  else if machine = 0x0100000c then pair 64
  else if machine = 18 then single 0
  else .error (.malformed "thread state")

/-- The entry point: the first main command counts from where the text segment is loaded; without
one the first thread state gives it. -/
def entryPoint (machine : Nat) (commands : List Command) : Except ImageFault UInt64 := do
  let mains := commands.filterMap fun c => match c with | .main offset => some offset | _ => none
  let threads := commands.filterMap fun c => match c with | .thread r => some r | _ => none
  let segments := commands.filterMap fun c => match c with | .segment s => some s | _ => none
  let started ← match threads.head? with
    | none => pure 0
    | some registers => startAddress machine registers
  match mains.head? with
  | none => return .ofNat started
  | some offset =>
    let text ← require "text segment"
      (segments.find? fun s => s.name.take 7 = [95, 95, 84, 69, 88, 84, 0])
    return text.address - text.fileOffset + .ofNat offset

def read (view : View) : Except ImageFault Headers := do
  let layout ← require "header" (layout? view)
  ensure "header" (view.holds 0 32)
  match ← require "header" (view.words? layout.order [4, 4, 4, 4, 4, 4] 0) with
  | [_, machine, _, fileKind, count, size] =>
    ensure "load commands" (count ≤ size / 8 && size ≤ view.size)
    let commands ← commands view layout count (if layout.is64 then 32 else 28)
    commands.forM (checkCommand view)
    let entry ← entryPoint machine commands
    return {
      is64 := layout.is64
      fileKind := .ofNat fileKind
      commandsSize := .ofNat size
      entry
      segments := commands.filterMap fun c => match c with | .segment s => some s | _ => none }
  | _ => .error (.malformed "header")

structure Slice where
  offset : UInt32
  size : UInt32
deriving DecidableEq, Repr

structure FatHeaders where
  slices : List Slice
deriving DecidableEq, Repr

namespace FatHeaders

def spans (headers : FatHeaders) : List Span :=
  headers.slices.map fun s => ⟨s.offset.toUInt64, s.size.toUInt64⟩

def imageEnd (headers : FatHeaders) : UInt64 := Span.farthest headers.spans

/-- What a table stands for is not looked into. -/
def summary (headers : FatHeaders) : ImageSummary where
  format := .fatMachO
  is64 := true
  entry := 0
  isExecutable := true
  imageEnd := headers.imageEnd

end FatHeaders

def sliceSize : Nat := 20

def readFat (view : View) : Except ImageFault FatHeaders := do
  let what := "table of images"
  let count ← require what (view.word? .big 4 4)
  ensure what (view.holds 8 (count * sliceSize))
  let records ← require what (view.records? .big [4, 4, 4, 4, 4] sliceSize count 8)
  return ⟨records.map fun r => ⟨.ofNat (r.getD 2 0), .ofNat (r.getD 3 0)⟩⟩

end ModelBundle.Image.MachO
