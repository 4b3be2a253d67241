import ModelBundle.Access
import ModelBundle.Proofs.FileSystem.Walking

/-!
Ranges of files, mapped and copied.  A mapped view shows exactly the range it was asked for,
although the mapping behind it starts on a granularity boundary before that range.
-/

namespace ModelBundle

theorem Bytes.slice_slice {bytes : Bytes} {base length offset size : Nat}
    (h : offset + size ≤ length) :
    slice (slice bytes base length) offset size = slice bytes (base + offset) size := by
  unfold slice
  rw [List.drop_take, List.drop_drop, List.take_take, Nat.min_eq_left (by omega)]

theorem Alignment.of?_eq_some {offset size granularity : UInt64} {alignment : Alignment}
    (h : of? offset size granularity = some alignment) :
    alignment.base.toNat + alignment.adjustment.toNat = offset.toNat ∧
      size.toNat + alignment.adjustment.toNat = alignment.length.toNat := by
  unfold of? at h
  split at h
  · simp at h
  · dsimp only at h
    rw [Option.map_eq_some_iff] at h
    obtain ⟨length, hlength, rfl⟩ := h
    have hmod : (offset % granularity).toNat ≤ offset.toNat := by
      rw [UInt64.toNat_mod]
      exact Nat.mod_le _ _
    have hbase : (offset - offset % granularity).toNat =
        offset.toNat - (offset % granularity).toNat :=
      UInt64.toNat_sub_of_le _ _ (UInt64.le_iff_toNat_le.mpr hmod)
    have hadjustment : (offset - (offset - offset % granularity)).toNat =
        offset.toNat - (offset - offset % granularity).toNat :=
      UInt64.toNat_sub_of_le _ _ (UInt64.le_iff_toNat_le.mpr (by omega))
    refine ⟨?_, Word.add?_eq_some_iff.mp hlength⟩
    dsimp only
    omega

theorem Mapping.plan_eq_ok {fileSize : Nat} {offset size granularity : UInt64}
    {alignment : Alignment} (h : plan fileSize offset size granularity = .ok alignment) :
    0 < size.toNat ∧ offset.toNat + size.toNat ≤ fileSize ∧
      Alignment.of? offset size granularity = some alignment := by
  unfold plan at h
  split at h
  · simp at h
  · rename_i hsize
    split at h
    · simp at h
    · rename_i stop hstop
      split at h
      · simp at h
      · split at h
        · simp at h
        · split at h
          · simp at h
          · rename_i found hfound _
            simp only [Except.ok.injEq] at h
            subst h
            have hsum := Word.add?_eq_some_iff.mp hstop
            exact ⟨Word.toNat_pos_iff.mpr hsize, by omega, hfound⟩

theorem Mapper.system_steps (page : Page) (handle : Handle) (offset size : UInt64)
    (world : World) :
    (∃ cause,
      system page handle offset size world = (.error (.mapFailed offset size cause), world) ∧
      (cause = .system .noSuchDevice ∨
        Mapping.plan (world.files.size handle) offset size (Mapping.granularity page) =
          .error cause)) ∨
    ∃ (content : Bytes) (alignment : Alignment) (mapping : Mapping),
      world.files.content? handle = some content ∧
      Mapping.plan content.length offset size (Mapping.granularity page) = .ok alignment ∧
      mapping = ⟨world.mapped, alignment.base,
        Bytes.slice content alignment.base.toNat alignment.length.toNat⟩ ∧
      system page handle offset size world = (.ok ⟨some mapping, alignment.adjustment, size⟩,
        { world with
          mapped := world.mapped + 1
          notes := world.notes ++ [.mapped mapping.extent alignment.adjustment] }) := by
  unfold system
  cases hplan : Mapping.plan (world.files.size handle) offset size (Mapping.granularity page) with
  | error cause => exact .inl ⟨cause, rfl, .inr rfl⟩
  | ok alignment =>
    cases hcontent : world.files.content? handle with
    | none => exact .inl ⟨_, rfl, .inl rfl⟩
    | some content =>
      rw [FileSystem.size_eq hcontent] at hplan
      exact .inr ⟨content, alignment, _, rfl, hplan, rfl, rfl⟩

theorem Mapper.bytes_system {page : Page} {handle : Handle} {offset size : UInt64} {world : World}
    {region : Region} {content : Bytes} (h : (system page handle offset size world).1 = .ok region)
    (hcontent : world.files.content? handle = some content) :
    region.bytes = Bytes.slice content offset.toNat size.toNat := by
  obtain ⟨cause, hsystem, -⟩ | ⟨found, alignment, mapping, hfound, hplan, rfl, hsystem⟩ :=
    system_steps page handle offset size world
  · rw [hsystem] at h
    cases h
  · rw [hsystem] at h
    cases h
    obtain rfl := Option.some.inj (hfound.symm.trans hcontent)
    obtain ⟨hbase, hlength⟩ := Alignment.of?_eq_some (Mapping.plan_eq_ok hplan).2.2
    simp only [Region.bytes]
    rw [Bytes.slice_slice (by omega), hbase]

/-!
Mapping a range of a file against copying it.  Both give the same bytes, and both give them exactly
if the range lies in the file; what differs is how they fail.
-/

/-- A handle on a regular file with this content.  Lengths of files lie below the limit. -/
structure FileSystem.Regular (files : FileSystem) (handle : Handle) (content : Bytes) : Prop where
  opened : files.content? handle = some content
  bounded : content.length < lengthLimit

theorem Alignment.of?_eq {granularity : UInt64} (h : granularity ≠ 0) (offset size : UInt64) :
    of? offset size granularity = (Word.add? size (offset % granularity)).map fun length =>
      ⟨offset - offset % granularity, offset % granularity, length⟩ := by
  have hadjustment : offset - (offset - offset % granularity) = offset % granularity := by grind
  rw [of?, if_neg h]
  dsimp only
  rw [hadjustment]

theorem Alignment.adjustment_eq {offset size granularity : UInt64} {alignment : Alignment}
    (hgranularity : granularity ≠ 0) (h : of? offset size granularity = some alignment) :
    alignment.adjustment = offset % granularity := by
  rw [of?_eq hgranularity, Option.map_eq_some_iff] at h
  obtain ⟨length, -, rfl⟩ := h
  rfl

theorem Alignment.of?_isSome {offset size granularity : UInt64} (hgranularity : granularity ≠ 0)
    (hsum : offset.toNat + size.toNat < UInt64.size) :
    ∃ alignment, of? offset size granularity = some alignment := by
  rw [of?_eq hgranularity]
  cases hlength : Word.add? size (offset % granularity) with
  | some length => exact ⟨_, rfl⟩
  | none =>
    have hover := Word.add?_eq_none_iff.mp hlength
    rw [UInt64.toNat_mod] at hover
    have := Nat.mod_le offset.toNat granularity.toNat
    omega

/-- A range passes the checks that come before its alignment: it is not empty, its end is a word,
and the file reaches as far. -/
structure Mapping.Admits (fileSize : Nat) (offset size : UInt64) : Prop where
  nonempty : size ≠ 0
  counted : offset.toNat + size.toNat < UInt64.size
  inside : offset.toNat + size.toNat ≤ fileSize

theorem Mapping.plan_cases {granularity : UInt64} (hgranularity : granularity ≠ 0) (fileSize : Nat)
    (offset size : UInt64) :
    (Admits fileSize offset size ∧ ∃ alignment,
      Alignment.of? offset size granularity = some alignment ∧
        plan fileSize offset size granularity = .ok alignment) ∨
    ¬ Admits fileSize offset size ∧ ∃ cause ∈ [MapFault.emptyRange, .overflow, .pastEnd fileSize],
      plan fileSize offset size granularity = .error cause := by
  unfold plan
  by_cases hempty : size = 0
  · exact .inr ⟨fun admits => admits.nonempty hempty, .emptyRange, by simp, if_pos hempty⟩
  · rw [if_neg hempty]
    cases hstop : Word.add? offset size with
    | none =>
      have hover := Word.add?_eq_none_iff.mp hstop
      exact .inr ⟨fun admits => absurd admits.counted (Nat.not_lt.mpr hover), .overflow, by simp,
        rfl⟩
    | some stop =>
      have hsum := Word.add?_eq_some_iff.mp hstop
      have hcounted : offset.toNat + size.toNat < UInt64.size := hsum ▸ stop.toNat_lt_size
      by_cases hlong : fileSize < stop.toNat
      · refine .inr ⟨fun admits => ?_, .pastEnd fileSize, by simp, if_pos hlong⟩
        have := admits.inside
        omega
      · obtain ⟨alignment, halignment⟩ := Alignment.of?_isSome hgranularity hcounted
        have hlimit : ¬ addressLimit ≤ alignment.length.toNat :=
          Nat.not_le.mpr alignment.length.toNat_lt_size
        refine .inl ⟨⟨hempty, hcounted, by omega⟩, alignment, halignment, ?_⟩
        simp only [halignment, if_neg hlong, if_neg hlimit]

theorem Mapping.plan_iff {fileSize : Nat} {granularity : UInt64}
    (hgranularity : granularity ≠ 0) (hsize : fileSize < UInt64.size) (offset size : UInt64) :
    (∃ alignment, plan fileSize offset size granularity = .ok alignment) ↔
      0 < size.toNat ∧ offset.toNat + size.toNat ≤ fileSize := by
  constructor
  · rintro ⟨alignment, h⟩
    obtain ⟨hpos, hrange, -⟩ := plan_eq_ok h
    exact ⟨hpos, hrange⟩
  · rintro ⟨hpos, hrange⟩
    obtain ⟨-, alignment, -, hplan⟩ | ⟨hrefused, -⟩ := plan_cases hgranularity fileSize offset size
    · exact ⟨alignment, hplan⟩
    · exact absurd ⟨Word.toNat_pos_iff.mp hpos, by omega, hrange⟩ hrefused

theorem Mapper.system_eq_ok {page : Page} {handle : Handle} {offset size : UInt64}
    {world after : World} {region : Region}
    (h : system page handle offset size world = (.ok region, after)) :
    ∃ content base, world.files.content? handle = some content ∧
      region.bytes = Bytes.slice content offset.toNat size.toNat ∧
      0 < size.toNat ∧ offset.toNat + size.toNat ≤ content.length ∧
      after.unmapped = world.unmapped ∧
      region.mapping.map Mapping.extent =
        some ⟨world.mapped, base, region.adjustment.toNat + size.toNat⟩ ∧
      base.toNat % (Mapping.granularity page).toNat = 0 ∧
      base.toNat + region.adjustment.toNat = offset.toNat ∧
      region.adjustment = offset % Mapping.granularity page := by
  obtain ⟨cause, hsystem, -⟩ | ⟨content, alignment, mapping, hcontent, hplan, rfl, hsystem⟩ :=
    system_steps page handle offset size world
  · rw [hsystem] at h
    cases h
  · have hbytes := bytes_system (congrArg Prod.fst h) hcontent
    obtain ⟨hpos, hrange, halignment⟩ := Mapping.plan_eq_ok hplan
    obtain ⟨hbase, hlength⟩ := Alignment.of?_eq_some halignment
    have hadjustment := Alignment.adjustment_eq (Mapping.granularity_ne_zero page) halignment
    have hmod := congrArg UInt64.toNat hadjustment
    rw [UInt64.toNat_mod] at hmod
    rw [hsystem] at h
    cases h
    refine ⟨content, alignment.base, hcontent, hbytes, hpos, hrange, rfl, ?_, ?_, hbase,
      hadjustment⟩
    · simp only [Option.map_some, Mapping.extent, Bytes.length_slice, Option.some.injEq,
        Extent.mk.injEq, true_and]
      omega
    · have hdivide := Nat.div_add_mod offset.toNat (Mapping.granularity page).toNat
      have hmultiple : alignment.base.toNat =
          (Mapping.granularity page).toNat * (offset.toNat / (Mapping.granularity page).toNat) := by
        omega
      rw [hmultiple, Nat.mul_mod_right]

def Region.Inside (region : Region) : Prop :=
  region.adjustment.toNat + region.size.toNat = region.mappedLength

section Regular

variable {page : Page} {world : World} {handle : Handle} {content : Bytes}

theorem FileSystem.Regular.fits {files : FileSystem} (regular : files.Regular handle content) :
    content.length < UInt64.size :=
  Nat.lt_trans regular.bounded (by decide)

theorem Mapper.system_of_inside (page : Page) (world : World)
    (regular : world.files.Regular handle content) {offset size : UInt64} (hpos : 0 < size.toNat)
    (hrange : offset.toNat + size.toNat ≤ content.length) :
    ∃ region, (system page handle offset size world).1 = .ok region ∧
      (system page handle offset size world).2.files = world.files ∧
      region.bytes = Bytes.slice content offset.toNat size.toNat ∧ region.Inside ∧
      region.adjustment = offset % Mapping.granularity page := by
  have hsize := FileSystem.size_eq regular.opened
  obtain ⟨alignment, hplan⟩ :=
    (Mapping.plan_iff (Mapping.granularity_ne_zero page) regular.fits offset size).mpr
      ⟨hpos, hrange⟩
  obtain ⟨hbase, hlength⟩ := Alignment.of?_eq_some (Mapping.plan_eq_ok hplan).2.2
  have hregion : ∃ region, (system page handle offset size world).1 = .ok region ∧
      (system page handle offset size world).2.files = world.files ∧
      region = ⟨some ⟨world.mapped, alignment.base, Bytes.slice content alignment.base.toNat
        alignment.length.toNat⟩, alignment.adjustment, size⟩ := by
    refine ⟨_, ?_, ?_, rfl⟩ <;> simp only [system, hsize, hplan, regular.opened]
  obtain ⟨region, hok, hfiles, hregion⟩ := hregion
  refine ⟨region, hok, hfiles, bytes_system hok regular.opened, ?_, ?_⟩
  · simp only [hregion, Region.Inside, Region.mappedLength, Bytes.length_slice]
    omega
  · rw [hregion]
    exact Alignment.adjustment_eq (Mapping.granularity_ne_zero page) (Mapping.plan_eq_ok hplan).2.2

namespace Input

theorem requestsAt_within {length steps offset left : Nat} {pace : Pace} {request : Nat × Nat}
    (h : request ∈ requestsAt length steps pace offset left) :
    offset ≤ request.1 ∧ request.1 + request.2 ≤ offset + left := by
  induction steps generalizing pace offset left with
  | zero => cases h
  | succ steps ih =>
    unfold requestsAt at h
    split at h
    · cases h
    · rcases List.mem_cons.mp h with rfl | h
      · exact ⟨Nat.le_refl _, Nat.add_le_add_left (Nat.min_le_left _ _) _⟩
      · split at h
        · cases h
        · have := ih h
          have : min (min (min left pace.most) answerLimit) (length - offset) ≤ left := by omega
          omega

theorem requests_within {length offset size : Nat} {request : Nat × Nat}
    (h : request ∈ requests length offset size) :
    offset ≤ request.1 ∧ request.1 + request.2 ≤ offset + size :=
  requestsAt_within h

theorem askable_of_lt {length offset size : Nat} (h : offset + size < seekLimit) :
    Askable length offset size :=
  ⟨by omega, fun _ hmem => by
    have := requests_within hmem
    omega⟩

/-- How far behind its start a copy reaches with what it asks for, where the file goes on for
`rest` bytes.  A first request for `most` bytes doubles as often as it is answered in full.  One for
2 GiB never is, and after two short answers the copy asks for everything it wants. -/
def reach (most size rest : Nat) : Nat :=
  if rest + most ≤ 0x80000000 + answerLimit then
    min size (rest + most <<< (rest / most + 1).log2)
  else size

section Below

variable {length steps most offset left : Nat} (limit : Nat)

end Below

end Input

theorem Buffer.ofInput_file_eq (content : Bytes) (offset size : UInt64) :
    ofInput (.file content) offset size =
      match refusal? size with
      | some fault => .error (.io fault)
      | none =>
        if Input.Askable content.length offset.toNat size.toNat then
          if 0 < size.toNat → offset.toNat + size.toNat ≤ content.length then
            .ok ⟨Bytes.slice content offset.toNat size.toNat⟩
          else .error (.shortRead offset size (content.length - offset.toNat))
        else .error (.io (.system .invalidArgument)) := by
  unfold ofInput
  cases refusal? size with
  | some fault => rfl
  | none =>
    dsimp only [Input.bytesAt]
    by_cases hasked : Input.Askable content.length offset.toNat size.toNat
    · simp only [if_pos hasked, Bytes.length_slice]
      by_cases hrange : 0 < size.toNat → offset.toNat + size.toNat ≤ content.length
      · rw [if_pos hrange, if_pos (by omega)]
      · rw [if_neg hrange, if_neg (by omega), Nat.min_eq_right (by omega)]
    · simp only [if_neg hasked]

theorem Buffer.ofInput_of_inside (regular : world.files.Regular handle content)
    {offset size : UInt64} (hrange : offset.toNat + size.toNat ≤ content.length)
    (holds : Memory.Holds size.toNat) :
    ofInput (.file content) offset size =
      .ok ⟨Bytes.slice content offset.toNat size.toNat⟩ := by
  have hlimit : FileSystem.lengthLimit = Input.seekLimit := rfl
  have hbounded := regular.bounded
  rw [ofInput_file_eq, refusal?_eq_none_iff.mpr holds]
  dsimp only
  rw [if_pos (Input.askable_of_lt (by omega)), if_pos (fun _ => hrange)]

theorem Buffer.read_of_inside (world : World) (regular : world.files.Regular handle content)
    {offset size : UInt64} (hrange : offset.toNat + size.toNat ≤ content.length)
    (holds : Memory.Holds size.toNat) :
    read handle offset size world =
      (.ok ⟨Bytes.slice content offset.toNat size.toNat⟩, world.note (.read size offset)) := by
  simp only [read, World.input, regular.opened, ofInput_of_inside regular hrange holds]

theorem Buffer.of_ofInput {offset size : UInt64} {buffer : Buffer}
    (h : ofInput (.file content) offset size = .ok buffer) :
    buffer.content = Bytes.slice content offset.toNat size.toNat ∧
      buffer.content.length = size.toNat := by
  rw [ofInput_file_eq] at h
  cases hmemory : refusal? size with
  | some fault => simp [hmemory] at h
  | none =>
    rw [hmemory] at h
    dsimp only at h
    split at h
    · split at h
      · rename_i hrange
        cases h
        refine ⟨rfl, ?_⟩
        rw [Bytes.length_slice]
        omega
      · cases h
    · cases h

end Regular

def eightBytes : FileSystem where
  entries := [(["work"], .directory), (["work", "f"], .file 0)]
  files := [(0, ⟨[0, 1, 2, 3, 4, 5, 6, 7], 0o644⟩)]
  working := ["work"]

end ModelBundle
