import ModelBundle.Image.View

/-!
PE images.  Reading takes the headers and the section table, and then follows the data
directories: imports, debug information, exception tables, certificates.  Exports are not needed
for anything and may be broken.
-/

namespace ModelBundle.Image.Pe

structure Section where
  virtualSize : UInt32
  virtualAddress : UInt32
  rawSize : UInt32
  rawOffset : UInt32
deriving DecidableEq, Repr

structure OptionalHeader where
  is64 : Bool
  entry : UInt32
  fileAlignment : UInt32
  headersSize : UInt32
  /-- Address and size of each data directory, in their fixed order. -/
  directories : List (UInt32 × UInt32)
deriving DecidableEq, Repr

structure Headers where
  isLibrary : Bool
  optional : Option OptionalHeader
  sections : List Section
deriving DecidableEq, Repr

namespace Headers

def spans (headers : Headers) : List Span :=
  (headers.optional.toList.map fun h => ⟨0, h.headersSize.toUInt64⟩) ++
    headers.sections.map fun s => ⟨s.rawOffset.toUInt64, s.rawSize.toUInt64⟩

def imageEnd (headers : Headers) : UInt64 := Span.farthest headers.spans

def summary (headers : Headers) : ImageSummary where
  format := .pe
  is64 := (headers.optional.map OptionalHeader.is64).getD false
  entry := ((headers.optional.map OptionalHeader.entry).getD 0).toUInt64
  isExecutable := !headers.isLibrary
  imageEnd := headers.imageEnd

end Headers

def roundUp (n unit : Nat) : Nat := (n + unit - 1) / unit * unit

/-- Where raw data is read from: sections start on multiples of 512. -/
def Section.start (s : Section) : Nat := s.rawOffset.toNat / 512 * 512

def Section.extent (s : Section) (fileAlignment : Nat) : Nat :=
  let read := min (roundUp (s.rawOffset.toNat + s.rawSize.toNat) fileAlignment - s.start)
    (roundUp s.rawSize.toNat 4096)
  if s.virtualSize = 0 then read else min read (roundUp s.virtualSize.toNat 4096)

/-- Where an address lies in the file, by the first section that holds it.  With an alignment
that is no power of two no address lies anywhere. -/
def fileOffset? (sections : List Section) (fileAlignment address : Nat) : Option Nat :=
  if fileAlignment = 0 || fileAlignment ≠ 1 <<< Nat.log2 fileAlignment then none
  else
    (sections.find? fun s => s.virtualAddress.toNat ≤ address &&
      address < s.virtualAddress.toNat + s.extent fileAlignment).map fun s =>
        address - s.virtualAddress.toNat + s.start

def checkText (view : View) (what : String) (offset : Nat) : Except ImageFault Unit :=
  ensure what (offset < view.size && isText (view.untilZero offset))

private def base64Digit? (byte : UInt8) : Option Nat :=
  let c := byte.toNat
  if 65 ≤ c && c ≤ 90 then some (c - 65)
  else if 97 ≤ c && c ≤ 122 then some (c - 71)
  else if 48 ≤ c && c ≤ 57 then some (c + 4)
  else if c = 43 then some 62
  else if c = 47 then some 63
  else none

private def decimalDigit? (byte : UInt8) : Option Nat :=
  let c := byte.toNat
  if 48 ≤ c && c ≤ 57 then some (c - 48) else none

private def numeral? (base : Nat) (digit? : UInt8 → Option Nat) (bytes : Bytes) : Option Nat :=
  bytes.foldlM (fun value byte => (digit? byte).map fun digit => value * base + digit) 0

/-- The place in the string table that a section name refers to: a slash and a decimal number, or
two slashes and a number in base 64.  A name without a slash stands for itself. -/
def nameReference (name : Bytes) : Except ImageFault (Option Nat) :=
  match name with
  | 47 :: 47 :: rest =>
    some <$> require "section name" (numeral? 64 base64Digit? (rest.takeWhile (· ≠ 0)))
  | 47 :: rest =>
    let digits := rest.takeWhile (· ≠ 0)
    let digits := if digits.head? = some 43 then digits.drop 1 else digits
    if digits.isEmpty then .error (.malformed "section name")
    else some <$> require "section name" (numeral? 10 decimalDigit? digits)
  | _ => .ok none

structure FileHeader where
  machine : Nat
  sectionCount : Nat
  symbolsOffset : Nat
  symbolCount : Nat
  optionalSize : Nat
  characteristics : Nat

def fileHeader (view : View) (offset : Nat) : Except ImageFault FileHeader := do
  match ← require "file header" (view.words? .little [2, 2, 4, 4, 4, 2, 2] offset) with
  | [machine, sectionCount, _, symbolsOffset, symbolCount, optionalSize, characteristics] =>
    return { machine, sectionCount, symbolsOffset, symbolCount, optionalSize, characteristics }
  | _ => .error (.malformed "file header")

def symbolSize : Nat := 18

def sectionSize : Nat := 40

def sectionAt (view : View) (strings offset : Nat) : Except ImageFault Section := do
  let what := "section table"
  let name ← require what (view.slice? offset 8)
  match ← require what (view.words? .little [4, 4, 4, 4, 4, 4, 2, 2, 4] (offset + 8)) with
  | virtualSize :: virtualAddress :: rawSize :: rawOffset :: _ =>
    match ← nameReference name with
    | some place => checkText view "section name" (strings + place)
    | none => pure ()
    return ⟨.ofNat virtualSize, .ofNat virtualAddress, .ofNat rawSize, .ofNat rawOffset⟩
  | _ => .error (.malformed what)

def sections (view : View) (header : FileHeader) (offset : Nat) :
    Except ImageFault (List Section) := do
  ensure "section table" (header.sectionCount ≤ view.size / sectionSize)
  let strings := header.symbolsOffset + header.symbolCount * symbolSize
  (List.range header.sectionCount).mapM fun index =>
    sectionAt view strings (offset + index * sectionSize)

def maxDirectories : Nat := 16

def optionalHeader (view : View) (offset : Nat) : Except ImageFault OptionalHeader := do
  let what := "optional header"
  let magic ← require what (view.word? .little 2 offset)
  let is64 ← if magic = 0x10b then pure false else if magic = 0x20b then pure true
    else .error (.malformed what)
  let fixed := if is64 then 112 else 96
  ensure what (view.holds offset fixed)
  let word := fun at_ => require what (view.word? .little 4 (offset + at_))
  let count ← word (fixed - 4)
  ensure what (count ≤ maxDirectories)
  let directories ← require what (view.records? .little [4, 4] 8 count (offset + fixed))
  return {
    is64
    entry := .ofNat (← word 16)
    fileAlignment := .ofNat (← word 36)
    headersSize := .ofNat (← word 60)
    directories := directories.map fun d => (.ofNat (d.getD 0 0), .ofNat (d.getD 1 0)) }

def OptionalHeader.directory? (header : OptionalHeader) (index : Nat) : Option (Nat × Nat) :=
  match header.directories[index]? with
  | none => none
  | some (address, size) =>
    if address = 0 && size = 0 then none else some (address.toNat, size.toNat)

abbrev Placement := Nat → Option Nat

/-- Words up to a zero.  One that is not an ordinal gives the address of a hint and a name; an
address outside of all sections is passed over. -/
def checkLookups (view : View) (place : Placement) (width : Nat) :
    (fuel offset : Nat) → Except ImageFault Unit
  | 0, _ => .error (.malformed "imports")
  | fuel + 1, offset => do
    let word ← require "imports" (view.word? .little width offset)
    if word = 0 then return
    if word < 1 <<< (8 * width - 1) then
      match place (word % 0x80000000) with
      | none => pure ()
      | some name =>
        ensure "imports" (view.holds name 2)
        checkText view "imports" (name + 2)
    checkLookups view place width fuel (offset + width)

def checkAddresses (view : View) (width : Nat) : (fuel offset : Nat) → Except ImageFault Unit
  | 0, _ => .error (.malformed "imports")
  | fuel + 1, offset => do
    let word ← require "imports" (view.word? .little width offset)
    if word = 0 then return
    checkAddresses view width fuel (offset + width)

/-- Import entries up to one that is all zero: a library name, lookups, addresses. -/
def checkImports (view : View) (place : Placement) (width : Nat) :
    (fuel offset : Nat) → Except ImageFault Unit
  | 0, _ => .error (.malformed "imports")
  | fuel + 1, offset => do
    let entry ← require "imports" (view.words? .little [4, 4, 4, 4, 4] offset)
    if entry.all (· = 0) then return
    let lookups := entry.getD 0 0
    let addresses := entry.getD 4 0
    let name ← require "imports" (place (entry.getD 3 0))
    checkText view "imports" name
    match (place lookups).or (place addresses) with
    | some offset => checkLookups view place width (view.size + 1) offset
    | none => pure ()
    let addresses ← require "imports" (place addresses)
    checkAddresses view width (view.size + 1) addresses
    checkImports view place width fuel (offset + 20)

def checkDebug (view : View) (place : Placement) (address : Nat) : Except ImageFault Unit := do
  let what := "debug directory"
  let offset ← require what (place address)
  match ← require what (view.words? .little [4, 4, 2, 2, 4, 4, 4, 4] offset) with
  | [_, _, _, _, kind, size, _, data] =>
    if kind = 2 then
      ensure what (24 ≤ size)
      let signature ← require what (view.word? .little 4 data)
      if signature = 0x53445352 then ensure what (view.holds data size)
  | _ => .error (.malformed what)

/-- The exception table: whole entries of 12 bytes, on a multiple of four. -/
def checkExceptions (place : Placement) (address size : Nat) : Except ImageFault Unit := do
  let what := "exception table"
  ensure what (size % 12 = 0)
  let offset ← require what (place address)
  ensure what (offset % 4 = 0)

/-- Certificates up to `stop`, each padded to a multiple of eight. -/
def checkCertificates (view : View) (stop : Nat) : (fuel offset : Nat) → Except ImageFault Unit
  | 0, _ => .ok ()
  | fuel + 1, offset => do
    if stop ≤ offset then return
    match ← require "certificates" (view.words? .little [4, 2, 2] offset) with
    | [length, revision, kind] =>
      let data := offset + 8
      ensure "certificates" (view.holds data (length - 8))
      ensure "certificates" (revision = 0x100 || revision = 0x200)
      ensure "certificates" (1 ≤ kind && kind ≤ 4)
      checkCertificates view stop fuel (roundUp (data + (length - 8)) 8)
    | _ => .error (.malformed "certificates")

def machine64 : Nat := 0x8664

def checkDirectories (view : View) (machine : Nat) (header : OptionalHeader)
    (sections : List Section) : Except ImageFault Unit := do
  let place := fileOffset? sections header.fileAlignment.toNat
  match header.directory? 1 with
  | none => pure ()
  | some (address, _) =>
    let offset ← require "imports" (place address)
    checkImports view place (if header.is64 then 8 else 4) (view.size + 1) offset
  match header.directory? 6 with
  | none => pure ()
  | some (address, _) => checkDebug view place address
  match header.directory? 3 with
  | none => pure ()
  | some (address, size) => if machine = machine64 then checkExceptions place address size
  match header.directory? 4 with
  | none => pure ()
  | some (offset, size) =>
    ensure "certificates" (offset + size ≤ view.size)
    checkCertificates view (offset + size) (view.size + 1) offset

def libraryBit : Nat := 0x2000

def read (view : View) : Except ImageFault Headers := do
  let what := "headers"
  let start ← require what (view.word? .little 4 0x3c)
  ensure what (view.word? .little 4 start = some 0x4550)
  ensure what (view.holds 0x40 0x40)
  let header ← fileHeader view (start + 4)
  let optional ← if header.optionalSize = 0 then pure none
    else some <$> optionalHeader view (start + 24)
  let sections ← sections view header (start + 24 + header.optionalSize)
  match optional with
  | none => pure ()
  | some optional => checkDirectories view header.machine optional sections
  return {
    isLibrary := header.characteristics / libraryBit % 2 = 1
    optional, sections }

end ModelBundle.Image.Pe
