import Mathlib
import ModelBundle.Access
import ModelBundle.Basic
import ModelBundle.Number
import ModelBundle.Proofs.Steps

/-!
Words as they stand in files, and the sums of them by which a trailer is found.  The two
directions of a little-endian word undo each other: on every number that the width can hold, and
on all bytes.
-/

namespace ModelBundle.Bytes

theorem fromLittleEndian_littleEndian (width value : Nat) :
    fromLittleEndian (littleEndian width value) = value % 256 ^ width := by
  induction width generalizing value with
  | zero => simp [littleEndian, fromLittleEndian, Nat.mod_one]
  | succ width ih =>
    have hlow : (UInt8.ofNat value).toNat = value % 256 := UInt8.toNat_ofNat'
    rw [littleEndian, fromLittleEndian, ih, hlow, Nat.pow_succ, Nat.mul_comm (256 ^ width),
      Nat.mod_mul]

theorem fromLittleEndian_lt (bytes : Bytes) : fromLittleEndian bytes < 256 ^ bytes.length := by
  induction bytes with
  | nil => simp [fromLittleEndian]
  | cons byte rest ih =>
    have := byte.toNat_lt
    simp only [fromLittleEndian, List.length_cons, Nat.pow_succ]
    omega

theorem littleEndian_fromLittleEndian (bytes : Bytes) :
    littleEndian bytes.length (fromLittleEndian bytes) = bytes := by
  induction bytes with
  | nil => rfl
  | cons byte rest ih =>
    have hdiv : (byte.toNat + 256 * fromLittleEndian rest) / 256 = fromLittleEndian rest := by
      have := byte.toNat_lt
      omega
    have hlow : UInt8.ofNat (byte.toNat + 256 * fromLittleEndian rest) = byte := by
      apply UInt8.toNat_inj.mp
      have := byte.toNat_lt
      rw [UInt8.toNat_ofNat']
      omega
    simp only [List.length_cons, fromLittleEndian, littleEndian, hdiv, hlow, ih]

end ModelBundle.Bytes

/-!
Operations on words that refuse where the result is no word.  A computation with them has an answer
exactly if nothing in it wraps and nothing is divided by zero, and then it is the answer of the same
computation with the operations of words.
-/

namespace ModelBundle.Word

def sub? (a b : UInt64) : Option UInt64 := if b ≤ a then some (a - b) else none

def mul? (a b : UInt64) : Option UInt64 :=
  if a.toNat * b.toNat < UInt64.size then some (a * b) else none

def divMod? (a b : UInt64) : Option (UInt64 × UInt64) :=
  if b = 0 then none else some (a / b, a % b)

theorem add?_of_fits {a b : UInt64} (h : a.toNat + b.toNat < UInt64.size) :
    add? a b = some (a + b) :=
  if_pos h

theorem sub?_of_le {a b : UInt64} (h : b ≤ a) : sub? a b = some (a - b) :=
  if_pos h

theorem mul?_of_fits {a b : UInt64} (h : a.toNat * b.toNat < UInt64.size) :
    mul? a b = some (a * b) :=
  if_pos h

theorem divMod?_of_ne_zero (a : UInt64) {b : UInt64} (h : b ≠ 0) :
    divMod? a b = some (a / b, a % b) :=
  if_neg h

theorem cappedAdd_of_fits {a b : UInt64} (h : a.toNat + b.toNat < UInt64.size) :
    cappedAdd a b = a + b := by
  rw [cappedAdd, add?_of_fits h, Option.getD_some]

end ModelBundle.Word

/-!
What a trailer that is found says about its file.
-/

def ModelBundle.World.silent (world : World) : World :=
  { world with notes := [] }

namespace ModelBundle.Trailer

open ModelBundle.Action

theorem expectedFileSize_eq_some_iff {trailer : Trailer} {size : UInt64} :
    trailer.expectedFileSize = some size ↔
      trailer.offset.toNat + trailer.size.toNat + width = size.toNat := by
  unfold expectedFileSize
  rw [Option.bind_eq_some_iff]
  have hwidth : (UInt64.ofNat width).toNat = width := by decide
  constructor
  · rintro ⟨sum, hsum, htotal⟩
    rw [Word.add?_eq_some_iff] at hsum htotal
    omega
  · intro h
    have hsize := size.toNat_lt_size
    have hsum : (UInt64.ofNat (trailer.offset.toNat + trailer.size.toNat)).toNat =
        trailer.offset.toNat + trailer.size.toNat :=
      UInt64.toNat_ofNat_of_lt' (by omega)
    refine ⟨UInt64.ofNat (trailer.offset.toNat + trailer.size.toNat), ?_, ?_⟩
    · rw [Word.add?_eq_some_iff, hsum]
    · rw [Word.add?_eq_some_iff, hsum, hwidth, h]

theorem check_eq_ok_iff {trailer : Trailer} {fileSize : Nat} :
    trailer.check fileSize = .ok () ↔
      0 < trailer.offset.toNat ∧ 0 < trailer.size.toNat ∧
        trailer.offset.toNat + trailer.size.toNat + width = fileSize ∧
        fileSize < UInt64.size := by
  have hsome : trailer.expectedFileSize.map UInt64.toNat = some fileSize ↔
      trailer.offset.toNat + trailer.size.toNat + width = fileSize ∧ fileSize < UInt64.size := by
    rw [Option.map_eq_some_iff]
    constructor
    · rintro ⟨size, hsize, rfl⟩
      exact ⟨expectedFileSize_eq_some_iff.mp hsize, size.toNat_lt_size⟩
    · rintro ⟨hsum, hlt⟩
      have hsize : (UInt64.ofNat fileSize).toNat = fileSize := UInt64.toNat_ofNat_of_lt' hlt
      exact ⟨UInt64.ofNat fileSize, expectedFileSize_eq_some_iff.mpr (hsum.trans hsize.symm), hsize⟩
  unfold check
  split
  case isTrue h =>
    simp only [Bool.and_eq_true, decide_eq_true_eq, UInt64.lt_iff_toNat_lt] at h
    exact iff_of_true rfl ⟨h.1.1, h.1.2, hsome.mp h.2⟩
  case isFalse h =>
    simp only [Bool.and_eq_true, decide_eq_true_eq, UInt64.lt_iff_toNat_lt] at h
    refine iff_of_false (by simp) fun hall => h ?_
    exact ⟨⟨hall.1, hall.2.1⟩, hsome.mpr hall.2.2⟩

def located (files : FileSystem) (path : Path) : Except LoadError (Option Trailer) :=
  (locate path (.ofFiles files)).1

theorem locate_fst (path : Path) (world : World) :
    (locate path world).1 = located world.files path := by
  unfold located locate World.ofFiles
  dsimp only
  cases world.files.openRead path with
  | error fault => rfl
  | ok handle =>
    dsimp only
    cases ofHandle world.files handle with
    | error fault => rfl
    | ok found =>
      cases found with
      | none => rfl
      | some trailer =>
        dsimp only
        cases trailer.check (world.files.size handle) <;> rfl

theorem keeps_silent_locate (path : Path) : Keeps World.silent (locate path) := by
  intro world
  unfold locate
  split
  · rfl
  · dsimp only
    split
    · rfl
    · rfl
    · split <;> rfl

end ModelBundle.Trailer
