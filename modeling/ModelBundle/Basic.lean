/-!
What everything else is made of: byte strings, path texts, finite tables.  Byte strings are the
lists that files, buffers and views hold.  The words inside them have a width and a byte order;
reading one from too short an input gives nothing.
-/

namespace ModelBundle

abbrev Bytes := List UInt8

namespace Memory

/-- No memory is that large. -/
def limit : Nat := 1 <<< 47

/-- There is memory for so many bytes in one piece. -/
def Holds (size : Nat) : Prop := size < limit

instance (size : Nat) : Decidable (Holds size) := inferInstanceAs (Decidable (size < limit))

theorem Holds.mono {size larger : Nat} (h : Holds larger) (hle : size ≤ larger) : Holds size :=
  Nat.lt_of_le_of_lt hle h

end Memory

namespace Bytes

def slice (bytes : Bytes) (offset size : Nat) : Bytes :=
  (bytes.drop offset).take size

def slice? (bytes : Bytes) (offset size : Nat) : Option Bytes :=
  if offset + size ≤ bytes.length then some (slice bytes offset size) else none

@[simp] theorem length_slice (bytes : Bytes) (offset size : Nat) :
    (slice bytes offset size).length = min size (bytes.length - offset) := by
  simp [slice]

/-- The low `width` bytes of a number, least significant first. -/
def littleEndian : Nat → Nat → Bytes
  | 0, _ => []
  | width + 1, value => UInt8.ofNat value :: littleEndian width (value / 256)

def fromLittleEndian : Bytes → Nat
  | [] => 0
  | byte :: rest => byte.toNat + 256 * fromLittleEndian rest

def fromBigEndian (bytes : Bytes) : Nat :=
  fromLittleEndian bytes.reverse

@[simp] theorem length_littleEndian (width value : Nat) :
    (littleEndian width value).length = width := by
  induction width generalizing value with
  | zero => rfl
  | succ width ih => simp [littleEndian, ih]

private def hexDigit (value : Nat) : Char :=
  if value < 10 then Char.ofNat (48 + value) else Char.ofNat (87 + value)

def hexByte (byte : UInt8) : String :=
  String.ofList [hexDigit (byte.toNat / 16), hexDigit (byte.toNat % 16)]

/-- Bytes as messages show them: `[47, 47, 55, 46]`. -/
def hexList (bytes : Bytes) : String :=
  "[" ++ String.intercalate ", " (bytes.map hexByte) ++ "]"

def hex (bytes : Bytes) : String :=
  String.ofList (bytes.flatMap fun byte => (hexByte byte).toList)

end Bytes

/-!
Path texts.  A path is kept and shown as it was given; this module says which components it has
and how the name of its last component is replaced.
-/

/-- A path as given: components separated by slashes, absolute if it starts with one. -/
abbrev Path := String

namespace Path

def split : List Char → List (List Char)
  | [] => [[]]
  | c :: rest =>
    if c = '/' then [] :: split rest
    else match split rest with
      | [] => [[c]]
      | piece :: pieces => (c :: piece) :: pieces

def pieces (path : Path) : List String :=
  (split path.toList).map String.ofList

def components (path : Path) : List String :=
  (pieces path).filter (· ≠ "")

def isAbsolute (path : Path) : Bool := path.toList.head? = some '/'

def endsInSlash (path : Path) : Bool := path.toList.getLast? = some '/'

/-- Trailing pieces that add nothing: empty ones and single dots behind the first piece. -/
def trim (pieces : List String) : List String :=
  match pieces with
  | [] => []
  | first :: rest =>
    first :: (rest.reverse.dropWhile fun piece => piece = "" || piece = ".").reverse

def fileName? (path : Path) : Option String :=
  let trimmed := trim (pieces path)
  match trimmed.getLast? with
  | none => none
  | some last => if last = "" || last = "." || last = ".." then none else some last

def parent? (path : Path) : Option Path :=
  match trim (pieces path) with
  | [] => none
  | first :: rest =>
    if first = "" && rest.isEmpty then none
    else
      let above := trim (first :: rest).dropLast
      some (if above = [""] then "/" else String.intercalate "/" above)

def join (path : Path) (name : String) : Path :=
  if path = "" || endsInSlash path then path ++ name else path ++ "/" ++ name

def withFileName (path : Path) (name : String) : Path :=
  match fileName? path with
  | none => join path name
  | some _ => join ((parent? path).getD "") name

private def climb : (steps : Nat) → Path → List Path
  | 0, _ => []
  | steps + 1, path =>
    if path = "" then [] else path :: ((parent? path).map (climb steps)).getD []

/-- A path and the paths above it, each followed by its parent, without the empty path. -/
def lineage (path : Path) : List Path :=
  climb (pieces path).length path

/-- Where an output is built before it is renamed into place. -/
def temporary (out : Path) : Path :=
  withFileName out ((fileName? out).getD "" ++ ".partial")

end Path

/-!
Finite tables from keys to values.  A table is a list of pairs in which the first pair of a key
counts; setting a key drops its older pairs, so a table never grows by overwriting.
-/

/-- A finite partial map, newest entries first. -/
abbrev Table (α β : Type) := List (α × β)

namespace Table

variable {α β : Type} [DecidableEq α]

def get? (table : Table α β) (key : α) : Option β :=
  match table with
  | [] => none
  | (k, value) :: rest => if k = key then some value else get? rest key

def erase (table : Table α β) (key : α) : Table α β :=
  table.filter fun pair => pair.1 ≠ key

def set (table : Table α β) (key : α) (value : β) : Table α β :=
  (key, value) :: erase table key

def update (table : Table α β) (key : α) (f : β → β) : Table α β :=
  match get? table key with
  | none => table
  | some value => set table key (f value)

@[simp] theorem get?_nil (key : α) : get? ([] : Table α β) key = none := rfl

@[simp] theorem get?_erase (table : Table α β) (key other : α) :
    get? (erase table key) other = if key = other then none else get? table other := by
  induction table with
  | nil => simp [erase]
  | cons pair rest ih =>
    obtain ⟨k, value⟩ := pair
    unfold erase at ih ⊢
    by_cases hk : k = key
    · subst hk
      by_cases ho : k = other <;> simp_all [get?]
    · by_cases ho : k = other
      · have : key ≠ other := fun h => hk (ho.trans h.symm)
        simp_all [get?]
      · simp_all [get?]

@[simp] theorem get?_set (table : Table α β) (key other : α) (value : β) :
    get? (set table key value) other = if key = other then some value else get? table other := by
  by_cases h : key = other <;> simp [set, get?, h]

end Table

end ModelBundle
