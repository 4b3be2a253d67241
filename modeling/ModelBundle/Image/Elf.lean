import ModelBundle.Image.View

/-!
ELF images.  Reading takes the header, the program headers and the section headers, and then
follows the references in them: string, symbol, relocation and version tables and the dynamic
segment.  An image in which one of these leaves the file is refused as a whole.
-/

namespace ModelBundle.Image.Elf

structure Section where
  kind : UInt32
  address : UInt64
  offset : UInt64
  size : UInt64
  link : UInt32
  entrySize : UInt64
deriving DecidableEq, Repr

structure Segment where
  kind : UInt32
  offset : UInt64
  address : UInt64
  fileSize : UInt64
  memorySize : UInt64
deriving DecidableEq, Repr

structure HeaderTable where
  offset : UInt64
  count : UInt16
  entrySize : UInt16
deriving DecidableEq, Repr

def HeaderTable.span (table : HeaderTable) : Span :=
  ⟨table.offset, table.count.toUInt64 * table.entrySize.toUInt64⟩

structure Headers where
  is64 : Bool
  kind : UInt16
  entry : UInt64
  programTable : HeaderTable
  sectionTable : HeaderTable
  segments : List Segment
  sections : List Section
  /-- Whether the image names a program that is to start it. -/
  hasInterpreter : Bool
deriving DecidableEq, Repr

def symbols : UInt32 := 2
def relocationsWithAddend : UInt32 := 4
def noBits : UInt32 := 8
def relocations : UInt32 := 9
def versionDefinitions : UInt32 := 0x6ffffffd
def versionNeeds : UInt32 := 0x6ffffffe
def versionSymbols : UInt32 := 0x6fffffff

def loadable : UInt32 := 1
def dynamic : UInt32 := 2
def interpreter : UInt32 := 3

def fixedExecutable : UInt16 := 2
def sharedObject : UInt16 := 3

namespace Headers

/-- What the headers describe: both tables, the sections that occupy the file, the segments. -/
def spans (headers : Headers) : List Span :=
  headers.programTable.span :: headers.sectionTable.span ::
    ((headers.sections.filter (·.kind ≠ noBits)).map fun s => ⟨s.offset, s.size⟩) ++
    headers.segments.map fun s => ⟨s.offset, s.fileSize⟩

def imageEnd (headers : Headers) : UInt64 := Span.farthest headers.spans

/-- A shared object that names its interpreter is a program, too. -/
def isExecutable (headers : Headers) : Bool :=
  headers.kind = fixedExecutable || (headers.kind = sharedObject && headers.hasInterpreter)

def summary (headers : Headers) : ImageSummary where
  format := .elf
  is64 := headers.is64
  entry := headers.entry
  isExecutable := headers.isExecutable
  imageEnd := headers.imageEnd

end Headers

structure Layout where
  is64 : Bool
  order : ByteOrder

namespace Layout

def word (layout : Layout) : Nat := if layout.is64 then 8 else 4

def headerWidths (layout : Layout) : List Nat :=
  [2, 2, 4, layout.word, layout.word, layout.word, 4, 2, 2, 2, 2, 2, 2]

def segmentWidths (layout : Layout) : List Nat :=
  if layout.is64 then [4, 4, 8, 8, 8, 8, 8, 8] else [4, 4, 4, 4, 4, 4, 4, 4]

def sectionWidths (layout : Layout) : List Nat :=
  if layout.is64 then [4, 4, 8, 8, 8, 8, 4, 4, 8, 8] else [4, 4, 4, 4, 4, 4, 4, 4, 4, 4]

def symbolSize (layout : Layout) : Nat := if layout.is64 then 24 else 16

def relocationSize (layout : Layout) (withAddend : Bool) : Nat :=
  layout.word * (if withAddend then 3 else 2)

def segment? (layout : Layout) : List Nat → Option Segment
  | [kind, a, b, c, d, e, f, _] =>
    if layout.is64 then
      some ⟨.ofNat kind, .ofNat b, .ofNat c, .ofNat e, .ofNat f⟩
    else some ⟨.ofNat kind, .ofNat a, .ofNat b, .ofNat d, .ofNat e⟩
  | _ => none

def section? : List Nat → Option Section
  | [_, kind, _, address, offset, size, link, _, _, entrySize] =>
    some ⟨.ofNat kind, .ofNat address, .ofNat offset, .ofNat size, .ofNat link, .ofNat entrySize⟩
  | _ => none

end Layout

def table {α : Type} (view : View) (layout : Layout) (what : String) (widths : List Nat)
    (convert : List Nat → Option α) (count offset : Nat) : Except ImageFault (List α) := do
  let stride := View.totalWidth widths
  ensure what (count ≤ view.size / stride)
  let records ← require what (view.records? layout.order widths stride count offset)
  require what (records.mapM convert)

def segments (view : View) (layout : Layout) (count offset : Nat) :
    Except ImageFault (List Segment) :=
  table view layout "program headers" layout.segmentWidths layout.segment? count offset

/-- The section headers.  There are none at offset zero.  A count of zero stands for the count
that the first header holds as its size; the first header is there in any case. -/
def sections (view : View) (layout : Layout) (count offset : Nat) :
    Except ImageFault (List Section) := do
  if offset = 0 then return []
  let what := "section headers"
  let first ← require what
    ((view.words? layout.order layout.sectionWidths offset).bind Layout.section?)
  let count := if count = 0 then first.size.toNat else count
  let stride := View.totalWidth layout.sectionWidths
  ensure what (count ≤ view.size / stride)
  let rest ←
    table view layout what layout.sectionWidths Layout.section? (count - 1) (offset + stride)
  return first :: rest

/-- The last interpreter segment decides; its name must be text. -/
def hasInterpreter (view : View) (segments : List Segment) : Bool :=
  let named := segments.filter fun s => s.kind = interpreter && s.fileSize ≠ 0
  match named.getLast? with
  | none => false
  | some s =>
    s.offset.toNat < view.size &&
      ((view.slice? s.offset.toNat (s.fileSize.toNat - 1)).map isText).getD false

def checkSection (view : View) (s : Section) : Except ImageFault Unit :=
  if s.kind = noBits || s.size = 0 then .ok ()
  else do
    ensure "section range" (view.holds s.offset.toNat s.size.toNat)
    ensure "section addresses" (s.address.toNat + s.size.toNat < UInt64.size)

def checkStrings (view : View) (offset size : Nat) : Except ImageFault Unit := do
  let bytes ← require "string table" (view.slice? offset size)
  ensure "string table" (isText bytes)

def checkStringSection (view : View) (sections : List Section) (index : Nat) :
    Except ImageFault Unit :=
  match sections[index]? with
  | none => .ok ()
  | some s => do
    checkSection view s
    checkStrings view s.offset.toNat s.size.toNat

/-- The section names.  The largest index stands for the one that the first section links to. -/
def checkSectionNames (view : View) (sections : List Section) (index : Nat) :
    Except ImageFault Unit :=
  if index = 0xffff then
    match sections.head? with
    | none => .ok ()
    | some first => checkStringSection view sections first.link.toNat
  else checkStringSection view sections index

def checkSymbols (view : View) (layout : Layout) (offset count : Nat) : Except ImageFault Unit :=
  ensure "symbol table" (view.holdsAt offset (count * layout.symbolSize))

def checkSectionSymbols (view : View) (layout : Layout) (sections : List Section) :
    Except ImageFault Unit :=
  match (sections.filter (·.kind = symbols)).getLast? with
  | none => .ok ()
  | some s => do
    checkSymbols view layout s.offset.toNat (s.size.toNat / s.entrySize.toNat)
    checkSectionNames view sections s.link.toNat

def fileOffset? (segments : List Segment) (address : Nat) : Option Nat :=
  match segments.find? fun s => s.kind = loadable && s.address.toNat ≤ address &&
      address - s.address.toNat < s.memorySize.toNat with
  | none => none
  | some s =>
    let offset := s.offset.toNat + (address - s.address.toNat)
    if offset < UInt64.size then some offset else none

def dynamicEntries : List (List Nat) → List (Nat × Nat)
  | [tag, value] :: rest => if tag = 0 then [] else (tag, value) :: dynamicEntries rest
  | _ => []

def dynamicValue (entries : List (Nat × Nat)) (tag : Nat) : Option Nat :=
  ((entries.filter (·.1 = tag)).getLast?).map Prod.snd

def greatestSymbol (view : View) (layout : Layout) (offset size : Nat) (withAddend : Bool) :
    Except ImageFault Nat := do
  if size = 0 then return 0
  ensure "relocations" (view.holdsAt offset size)
  let stride := layout.relocationSize withAddend
  let records ← require "relocations"
    (view.records? layout.order [layout.word, layout.word] stride (size / stride) offset)
  let shift := if layout.is64 then 32 else 8
  return records.foldl (fun most record => max most (record.getD 1 0 >>> shift)) 0

/-- The first set lowest bit in a chain of words, counted from `count`. -/
def chainEnd (view : View) (order : ByteOrder) : (fuel count offset : Nat) → Option Nat
  | 0, _, _ => none
  | fuel + 1, count, offset =>
    match view.word? order 4 offset with
    | none => none
    | some word => if word % 2 = 1 then some (count + 1)
      else chainEnd view order fuel (count + 1) (offset + 4)

/-- Symbols covered by a hash table with buckets, a filter and chains. -/
def bucketHashCount (view : View) (layout : Layout) (offset : Nat) : Except ImageFault Nat := do
  let what := "hash table"
  let read := fun at_ => require what (view.word? layout.order 4 at_)
  let buckets ← read offset
  let first ← read (offset + 4)
  let filter ← read (offset + 8)
  ensure what (buckets ≠ 0 && first ≠ 0 && filter ≠ 0)
  let start := offset + 16 + filter * layout.word
  ensure what (view.holds start (buckets * 4))
  let heads ← require what (view.records? layout.order [4] 4 buckets start)
  let last := heads.foldl (fun most head => max most (head.getD 0 0)) 0
  if last < first then return 0
  require what (chainEnd view layout.order (view.size + 1) last
    (start + buckets * 4 + (last - first) * 4))

/-- Symbols covered by a plain hash table: the count in its second word, which is wide on two
machines. -/
def plainHashCount (view : View) (layout : Layout) (machine offset : Nat) :
    Except ImageFault Nat :=
  let wide := layout.is64 && (machine = 41 || machine = 22)
  require "hash table" (view.word? layout.order (if wide then 8 else 4) (offset + 4))

def checkDynamic (view : View) (layout : Layout) (machine : Nat) (segments : List Segment) :
    Except ImageFault Unit :=
  match segments.find? (·.kind = dynamic) with
  | none => .ok ()
  | some segment => do
    let offset := segment.offset.toNat
    let size := segment.fileSize.toNat
    if 0 < size then ensure "dynamic segment" (view.holdsAt offset size)
    let stride := 2 * layout.word
    let records ← require "dynamic segment"
      (view.records? layout.order [layout.word, layout.word] stride (size / stride) offset)
    let entries := dynamicEntries records
    let value := fun tag => (dynamicValue entries tag).getD 0
    let place := fun tag => ((dynamicValue entries tag).bind (fileOffset? segments)).getD 0
    checkStrings view (place 5) (value 10)
    let a ← greatestSymbol view layout (place 7) (value 8) true
    let b ← greatestSymbol view layout (place 17) (value 18) false
    let c ← greatestSymbol view layout (place 23) (value 2) (value 20 = 7)
    let hashed ←
      match (dynamicValue entries 0x6ffffef5).bind (fileOffset? segments),
          (dynamicValue entries 4).bind (fileOffset? segments) with
      | some offset, _ => bucketHashCount view layout offset
      | none, some offset => plainHashCount view layout machine offset
      | none, none => pure 0
    let most := max a (max b c)
    checkSymbols view layout (place 6) (if most = 0 then hashed else max hashed (most + 1))

def checkRelocations (view : View) (s : Section) : Except ImageFault Unit :=
  if s.kind = relocations || s.kind = relocationsWithAddend then do
    checkSection view s
    if s.size ≠ 0 then ensure "relocations" (view.holdsAt s.offset.toNat s.size.toNat)
  else .ok ()

def checkFirst (view : View) (sections : List Section) (kind : UInt32) : Except ImageFault Unit :=
  match sections.find? (·.kind = kind) with
  | none => .ok ()
  | some s => ensure "version table" (view.holdsAt s.offset.toNat s.size.toNat)

def layout? (view : View) : Option Layout := do
  let size ← view.bytes[4]?
  let order ← view.bytes[5]?
  let is64 ← if size = 1 then some false else if size = 2 then some true else none
  let order ← if order = 1 then some ByteOrder.little
    else if order = 2 then some ByteOrder.big else none
  pure ⟨is64, order⟩

def read (view : View) : Except ImageFault Headers := do
  let layout ← require "identification" (layout? view)
  match ← require "header" (view.words? layout.order layout.headerWidths 16) with
  | [kind, machine, _, entry, programs, sectionsAt, _, _, programSize, programCount, sectionSize,
      sectionCount, names] =>
    let segments ← segments view layout programCount programs
    let sections ← sections view layout sectionCount sectionsAt
    checkSectionNames view sections names
    checkSectionSymbols view layout sections
    checkDynamic view layout machine segments
    sections.forM (checkRelocations view)
    [versionSymbols, versionDefinitions, versionNeeds].forM (checkFirst view sections)
    return {
      is64 := layout.is64
      kind := .ofNat kind
      entry := .ofNat entry
      programTable := ⟨.ofNat programs, .ofNat programCount, .ofNat programSize⟩
      sectionTable := ⟨.ofNat sectionsAt, .ofNat sectionCount, .ofNat sectionSize⟩
      segments, sections
      hasInterpreter := hasInterpreter view segments }
  | _ => .error (.malformed "header")

end ModelBundle.Image.Elf
