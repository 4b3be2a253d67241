import ModelBundle.Number
import ModelBundle.World

/-!
Reaching what is in a file: the trailer at its end, and ranges of it, mapped or copied.  That
there is no trailer is an ordinary outcome; only a file that cannot be opened is an error.
-/

namespace ModelBundle.Trailer

def ofHandle (files : FileSystem) (handle : Handle) : Except Fault (Option Trailer) :=
  match files.content? handle with
  | some content => readLast content (files.size handle)
  | none => .error (.system .isADirectory)

def locate (path : Path) : Action World (Option Trailer) := fun world =>
  match world.files.openRead path with
  | .error fault => (.error (.ofOpen path fault), world)
  | .ok handle =>
    let size := world.files.size handle
    match ofHandle world.files handle with
    | .error fault => (.ok none, world.note (.trailerUnreadable path fault))
    | .ok none => (.ok none, world.note (.tooShortForTrailer path size))
    | .ok (some trailer) =>
      match trailer.check size with
      | .ok () => (.ok (some trailer), world)
      | .error error => (.ok none, world.note (.trailerRejected path error))

end ModelBundle.Trailer

/-!
The system maps files only from multiples of its granularity on.  A range that starts anywhere is
mapped from the multiple below, and the view into it starts some bytes later.
-/

namespace ModelBundle

/-- The unit in which a system maps files: its size is a power of two. -/
structure Page where
  bits : Fin 64
deriving DecidableEq, Repr

def Page.usual : Page := ⟨12⟩

def Mapping.granularity (page : Page := .usual) : UInt64 := .ofNat (1 <<< page.bits.val)

theorem Mapping.toNat_granularity (page : Page) :
    (granularity page).toNat = 1 <<< page.bits.val := by
  have hbound : 1 <<< page.bits.val < UInt64.size := by
    rw [Nat.one_shiftLeft]
    exact Nat.pow_lt_pow_right (by decide) page.bits.isLt
  exact UInt64.toNat_ofNat_of_lt' hbound

theorem Mapping.granularity_ne_zero (page : Page) : granularity page ≠ 0 := by
  intro h
  have hpos : 0 < (granularity page).toNat := by
    rw [toNat_granularity, Nat.one_shiftLeft]
    exact Nat.two_pow_pos _
  rw [h] at hpos
  exact absurd hpos (by decide)

/-- Where a mapping starts, and how far into it the wanted range begins. -/
structure Alignment where
  /-- The greatest multiple of the granularity at or before the range. -/
  base : UInt64
  /-- From there to the start of the range. -/
  adjustment : UInt64
  /-- Bytes to map: the adjustment and the range. -/
  length : UInt64
deriving DecidableEq, Repr

namespace Alignment

def of? (offset size granularity : UInt64) : Option Alignment :=
  if granularity = 0 then none
  else
    let base := offset - offset % granularity
    let adjustment := offset - base
    (Word.add? size adjustment).map fun length => ⟨base, adjustment, length⟩

example : of? 4095 10 4096 = some ⟨0, 4095, 4105⟩ := by decide
example : of? 70000 1 65536 = some ⟨65536, 4464, 4465⟩ := by decide
example : of? 1 18446744073709551615 4096 = none := by decide

end Alignment

/-!
Mapping ranges of open files.  The system maps a range if it is not empty and lies in the file;
other mappers stand for systems that refuse.
-/

abbrev Mapper := Handle → (offset size : UInt64) → Action World Region

namespace Mapping

def addressLimit : Nat := UInt64.size

def plan (fileSize : Nat) (offset size granularity : UInt64) : Except MapFault Alignment :=
  if size = 0 then .error .emptyRange
  else match Word.add? offset size with
    | none => .error .overflow
    | some stop =>
      if fileSize < stop.toNat then .error (.pastEnd fileSize)
      else match Alignment.of? offset size granularity with
        | none => .error .granularity
        | some alignment =>
          if addressLimit ≤ alignment.length.toNat then .error .addressSpace else .ok alignment

end Mapping

namespace Mapper

def system (page : Page := .usual) : Mapper := fun handle offset size world =>
  match Mapping.plan (world.files.size handle) offset size (Mapping.granularity page) with
  | .error cause => (.error (.mapFailed offset size cause), world)
  | .ok alignment =>
    match world.files.content? handle with
    | none => (.error (.mapFailed offset size (.system .noSuchDevice)), world)
    | some content =>
      let mapping : Mapping :=
        { number := world.mapped
          base := alignment.base
          content := Bytes.slice content alignment.base.toNat alignment.length.toNat }
      (.ok ⟨some mapping, alignment.adjustment, size⟩,
        { world with
          mapped := world.mapped + 1
          notes := world.notes ++ [.mapped mapping.extent alignment.adjustment] })

def failing (cause : String) : Mapper := fun _ offset size world =>
  (.error (.mapFailed offset size (.other cause)), world)

/-- Sets a file to some length and then refuses the range, as if the file had been changed by
someone else just before. -/
def truncating (path : Path) (keep : Nat) : Mapper := fun _ offset size world =>
  match world.files.truncate path keep with
  | .error fault => (.error (.io fault), world)
  | .ok files => (.error (.mapFailed offset size (.other "file shrank")), { world with files })

end Mapper

/-!
Copying a range of an input into memory.  A range that is not there in full is refused, so a
buffer always has the length that was asked for.
-/

inductive Input where
  /-- Bytes in memory; any position in them may be sought. -/
  | memory (content : Bytes)
  | file (content : Bytes)
  | directory
deriving Repr

def World.input (world : World) (handle : Handle) : Input :=
  match world.files.content? handle with
  | some content => .file content
  | none => .directory

namespace Input

/-- Positions of a file lie below this. -/
def seekLimit : Nat := 1 <<< 63

def answerLimit : Nat := 0x7ffff000

/-- How much a copy asks for at once, at most, and how many answers in a row fell short of what
was asked for. -/
structure Pace where
  most : Nat
  short : Nat

def Pace.start : Pace := ⟨8192, 0⟩

def Pace.unbounded : Nat := UInt64.size - 1

/-- A full answer to the largest request doubles it; a second short one in a row lifts the
bound. -/
def Pace.next (pace : Pace) (asked answered : Nat) : Pace :=
  let short := if answered < asked then pace.short + 1 else 0
  let most := if 1 < short then unbounded else pace.most
  ⟨if most ≤ asked && answered = asked then min (2 * most) unbounded else most, short⟩

/-- The requests, each a position and a number of bytes, in which some bytes are copied from a file
of some length.  They end with an answer of nothing, or when there is nothing left to ask for. -/
def requestsAt (length : Nat) : (steps : Nat) → Pace → (offset left : Nat) → List (Nat × Nat)
  | 0, _, _, _ => []
  | steps + 1, pace, offset, left =>
    if left = 0 then []
    else
      let asked := min left pace.most
      let answered := min (min asked answerLimit) (length - offset)
      (offset, asked) ::
        if answered = 0 then []
        else
          requestsAt length steps (pace.next asked answered) (offset + answered) (left - answered)

def requests (length offset size : Nat) : List (Nat × Nat) :=
  requestsAt length size .start offset size

/-- The system refuses a request that reaches beyond the last position. -/
def Askable (length offset size : Nat) : Prop :=
  offset < seekLimit ∧ ∀ request ∈ requests length offset size, request.1 + request.2 < seekLimit

instance (length offset size : Nat) : Decidable (Askable length offset size) :=
  inferInstanceAs (Decidable (_ ∧ ∀ request ∈ requests length offset size, _))

def bytesAt (input : Input) (offset size : Nat) : Except Fault Bytes :=
  match input with
  | memory content => .ok (Bytes.slice content offset size)
  | file content =>
    if Askable content.length offset size then .ok (Bytes.slice content offset size)
    else .error (.system .invalidArgument)
  | directory =>
    if Askable 0 offset size then if size = 0 then .ok [] else .error (.system .isADirectory)
    else .error (.system .invalidArgument)

end Input

namespace Buffer

def capacityLimit : Nat := 1 <<< 63

def refusal? (size : UInt64) : Option Fault :=
  if capacityLimit ≤ size.toNat then some (.outOfMemory size.toNat .capacity)
  else if Memory.Holds size.toNat then none
  else some (.outOfMemory size.toNat .allocator)

theorem refusal?_eq_none_iff {size : UInt64} : refusal? size = none ↔ Memory.Holds size.toNat := by
  have hlimits : Memory.limit < capacityLimit := by decide
  unfold refusal?
  split
  · refine iff_of_false (fun h => by cases h) fun holds => ?_
    have : size.toNat < Memory.limit := holds
    omega
  · split
    · exact iff_of_true rfl ‹_›
    · exact iff_of_false (fun h => by cases h) ‹_›

theorem refusal?_of_not_holds {size : UInt64} (h : ¬ Memory.Holds size.toNat) :
    ∃ refusal, refusal? size = some (.outOfMemory size.toNat refusal) := by
  unfold refusal?
  rw [if_neg h]
  split <;> exact ⟨_, rfl⟩

def ofInput (input : Input) (offset size : UInt64) : Except LoadError Buffer :=
  match refusal? size with
  | some fault => .error (.io fault)
  | none =>
    match input.bytesAt offset.toNat size.toNat with
    | .error fault => .error (.io fault)
    | .ok content =>
      if content.length = size.toNat then .ok ⟨content⟩
      else .error (.shortRead offset size content.length)

def read (handle : Handle) (offset size : UInt64) : Action World Buffer := fun world =>
  match ofInput (world.input handle) offset size with
  | .error error => (.error error, world)
  | .ok buffer => (.ok buffer, world.note (.read size offset))

end Buffer

end ModelBundle
