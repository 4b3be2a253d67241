import Mathlib.Order.Bounds.Basic
import ModelBundle.Proofs.Ranges

/-!
What is asked of the system to map a range.  The request starts on the last multiple of the
granularity that is not behind the range and ends where the range ends.  So the view, which begins
that much later, ends with the mapping, and nothing outside of the file is asked for.
-/

namespace ModelBundle

/-- From the last multiple of the granularity at or before a range up to the end of the range. -/
structure Alignment.Exact (alignment : Alignment) (offset size granularity : UInt64) : Prop where
  base : IsGreatest {start | granularity.toNat ∣ start ∧ start ≤ offset.toNat} alignment.base.toNat
  adjustment : alignment.adjustment.toNat = offset.toNat - alignment.base.toNat
  below : alignment.adjustment.toNat < granularity.toNat
  stop : alignment.base.toNat + alignment.length.toNat = offset.toNat + size.toNat

/-- A word as the machine addresses memory with it; what exceeds the address space is cut off. -/
def Mapping.toAddress (word : UInt64) : Nat := word.toNat % addressLimit

/-- What has to hold before a range of a file may be viewed through a mapping: there is something to
map, all of it in the file; the lengths are the same as addresses; the view lies in the mapping. -/
structure Alignment.Sound (alignment : Alignment) (fileSize : Nat) (size : UInt64) : Prop where
  nonempty : 0 < alignment.length.toNat
  inside : alignment.base.toNat + alignment.length.toNat ≤ fileSize
  addressed : ∀ word ∈ [size, alignment.adjustment, alignment.length],
    Mapping.toAddress word = word.toNat
  view : alignment.adjustment.toNat + size.toNat ≤ alignment.length.toNat

namespace Alignment

variable {offset size granularity : UInt64} {alignment : Alignment}

theorem of?_eq_none_iff : of? offset size granularity = none ↔
    granularity = 0 ∨ UInt64.size ≤ size.toNat + offset.toNat % granularity.toNat := by
  by_cases hzero : granularity = 0
  · simp [of?, hzero]
  · rw [of?_eq hzero, Option.map_eq_none_iff, Word.add?_eq_none_iff, UInt64.toNat_mod,
      or_iff_right hzero]

theorem granularity_ne_zero_of_of? (h : of? offset size granularity = some alignment) :
    granularity ≠ 0 := by
  rintro rfl
  simp [of?] at h

theorem isGreatest_sub_mod (n : Nat) {unit : Nat} (hunit : 0 < unit) :
    IsGreatest {start | unit ∣ start ∧ start ≤ n} (n - n % unit) := by
  refine ⟨⟨Nat.dvd_sub_mod n, Nat.sub_le n _⟩, ?_⟩
  rintro _ ⟨⟨count, rfl⟩, hle⟩
  have hsplit := Nat.div_add_mod n unit
  have hcount : count ≤ n / unit :=
    (Nat.le_div_iff_mul_le hunit).mpr (Nat.mul_comm unit count ▸ hle)
  have := Nat.mul_le_mul_left unit hcount
  omega

theorem exact_of_of? (h : of? offset size granularity = some alignment) :
    alignment.Exact offset size granularity := by
  have hgranularity := granularity_ne_zero_of_of? h
  have hpos := Word.toNat_pos_iff.mpr hgranularity
  obtain ⟨hbase, hlength⟩ := of?_eq_some h
  have hadjustment : alignment.adjustment.toNat = offset.toNat % granularity.toNat := by
    rw [adjustment_eq hgranularity h, UInt64.toNat_mod]
  have hdown : alignment.base.toNat = offset.toNat - offset.toNat % granularity.toNat := by omega
  refine ⟨?_, by omega, ?_, by omega⟩
  · rw [hdown]
    exact isGreatest_sub_mod offset.toNat hpos
  · rw [hadjustment]
    exact Nat.mod_lt _ hpos

theorem sound_of_of? (h : of? offset size granularity = some alignment) {fileSize : Nat}
    (admits : Mapping.Admits fileSize offset size) : alignment.Sound fileSize size := by
  obtain ⟨hbase, hlength⟩ := of?_eq_some h
  have hsize := Word.toNat_pos_iff.mpr admits.nonempty
  have hinside := admits.inside
  have hlimit : alignment.length.toNat < Mapping.addressLimit := alignment.length.toNat_lt_size
  refine ⟨by omega, by omega, ?_, by omega⟩
  -- Adjustment and size are addresses because their sum is one.
  intro word hmem
  have hle : word.toNat ≤ alignment.length.toNat := by
    simp only [List.mem_cons, List.not_mem_nil, or_false] at hmem
    obtain rfl | rfl | rfl := hmem <;> omega
  exact Nat.mod_eq_of_lt (Nat.lt_of_le_of_lt hle hlimit)

end Alignment

theorem MapFault.ne_of_mem_checks {fileSize : Nat} {cause : MapFault}
    (h : cause ∈ [emptyRange, overflow, pastEnd fileSize]) :
    cause ≠ granularity ∧ cause ≠ addressSpace := by
  simp only [List.mem_cons, List.not_mem_nil, or_false] at h
  obtain rfl | rfl | rfl := h <;> simp

theorem Mapper.cause_of_system {page : Page} {world : World} {handle : Handle}
    {offset size : UInt64} {cause : MapFault}
    (h : (system page handle offset size world).1 = .error (.mapFailed offset size cause)) :
    cause ≠ .granularity ∧ cause ≠ .addressSpace := by
  obtain ⟨_, hsystem, hdevice | hrefused⟩ | ⟨_, _, _, -, -, -, hsystem⟩ :=
    system_steps page handle offset size world
  · rw [hsystem] at h
    cases h
    simp [hdevice]
  · rw [hsystem] at h
    cases h
    obtain ⟨-, alignment, -, hplan⟩ | ⟨-, refused, hmem, hplan⟩ :=
      Mapping.plan_cases (Mapping.granularity_ne_zero page) (world.files.size handle) offset size
    · cases hrefused.symm.trans hplan
    · cases hrefused.symm.trans hplan
      exact MapFault.ne_of_mem_checks hmem
  · rw [hsystem] at h
    cases h

theorem Mapper.system_of_admits (page : Page) {world : World} {handle : Handle} {content : Bytes}
    (hcontent : world.files.content? handle = some content) {offset size : UInt64}
    (admits : Mapping.Admits content.length offset size) :
    ∃ alignment mapping,
      Alignment.of? offset size (Mapping.granularity page) = some alignment ∧
      (system page handle offset size world).1 = .ok ⟨some mapping, alignment.adjustment, size⟩ ∧
      mapping.extent = ⟨world.mapped, alignment.base, alignment.length.toNat⟩ := by
  obtain ⟨-, alignment, hof, hplan⟩ | ⟨hrefused, -⟩ :=
    Mapping.plan_cases (Mapping.granularity_ne_zero page) content.length offset size
  · have hinside := (Alignment.sound_of_of? hof admits).inside
    have hlength : (Bytes.slice content alignment.base.toNat alignment.length.toNat).length =
        alignment.length.toNat := by
      rw [Bytes.length_slice]
      omega
    refine ⟨alignment, ⟨world.mapped, alignment.base, Bytes.slice content alignment.base.toNat
      alignment.length.toNat⟩, hof, ?_, ?_⟩
    · simp only [system, FileSystem.size_eq hcontent, hplan, hcontent]
    · rw [Mapping.extent, hlength]
  · exact absurd admits hrefused

/-- For all words: there is an alignment exactly if the granularity is not zero and the length is a
word, and it is exact.  With a granularity, every range of a file that passes the checks is asked
for, by a sound request, and no range is refused for its granularity or for the address space.  The
system's mapper makes this request, and views its answer where the range is. -/
theorem Mapping.requests_exact (offset size granularity : UInt64) :
    (Alignment.of? offset size granularity = none ↔
      granularity = 0 ∨ UInt64.size ≤ size.toNat + offset.toNat % granularity.toNat) ∧
    (∀ alignment, Alignment.of? offset size granularity = some alignment →
      alignment.Exact offset size granularity) ∧
    (granularity ≠ 0 → ∀ fileSize,
      plan fileSize offset size granularity ≠ .error .granularity ∧
      plan fileSize offset size granularity ≠ .error .addressSpace ∧
      (Admits fileSize offset size → ∃ alignment,
        plan fileSize offset size granularity = .ok alignment ∧
        alignment.Exact offset size granularity ∧ alignment.Sound fileSize size)) ∧
    ∀ (page : Page) (world : World) (handle : Handle),
      (∀ cause, (Mapper.system page handle offset size world).1 =
        .error (.mapFailed offset size cause) → cause ≠ .granularity ∧ cause ≠ .addressSpace) ∧
      ∀ content, world.files.content? handle = some content → Admits content.length offset size →
        ∃ (alignment : Alignment) (mapping : Mapping),
          alignment.Exact offset size (Mapping.granularity page) ∧
          alignment.Sound content.length size ∧
          mapping.extent = ⟨world.mapped, alignment.base, alignment.length.toNat⟩ ∧
          (Mapper.system page handle offset size world).1 =
            .ok ⟨some mapping, alignment.adjustment, size⟩ := by
  refine ⟨Alignment.of?_eq_none_iff, fun alignment => Alignment.exact_of_of?, ?_, ?_⟩
  · intro hgranularity fileSize
    obtain ⟨admits, alignment, hof, hplan⟩ | ⟨hrefused, cause, hmem, hplan⟩ :=
      plan_cases hgranularity fileSize offset size
    · rw [hplan]
      exact ⟨by simp, by simp, fun _ =>
        ⟨alignment, rfl, Alignment.exact_of_of? hof, Alignment.sound_of_of? hof admits⟩⟩
    · obtain ⟨hgranular, haddressed⟩ := MapFault.ne_of_mem_checks hmem
      rw [hplan]
      exact ⟨by simpa using hgranular, by simpa using haddressed,
        fun admits => absurd admits hrefused⟩
  · intro page world handle
    refine ⟨fun cause => Mapper.cause_of_system, ?_⟩
    intro content hcontent admits
    obtain ⟨alignment, mapping, hof, hok, hextent⟩ := Mapper.system_of_admits page hcontent admits
    exact ⟨alignment, mapping, Alignment.exact_of_of? hof, Alignment.sound_of_of? hof admits,
      hextent, hok⟩

/-- Four bytes from the third on are viewed through a mapping from the start of the file; six are
more than there are. -/
theorem Mapping.requests_exact_eightBytes :
    Alignment.of? 3 4 granularity = some ⟨0, 3, 7⟩ ∧
      Alignment.Exact ⟨0, 3, 7⟩ 3 4 granularity ∧ granularity ≠ 0 ∧ Admits 8 3 4 ∧
      (∃ alignment, plan 8 3 4 granularity = .ok alignment ∧ alignment.Sound 8 4) ∧
      eightBytes.content? (.file 0) = some [0, 1, 2, 3, 4, 5, 6, 7] ∧
      (∃ (alignment : Alignment) (mapping : Mapping), alignment.Sound 8 4 ∧
        (Mapper.system .usual (.file 0) 3 4 (.ofFiles eightBytes)).1 =
          .ok ⟨some mapping, alignment.adjustment, 4⟩) ∧
      (Mapper.system .usual (.file 0) 3 6 (.ofFiles eightBytes)).1 =
        .error (.mapFailed 3 6 (.pastEnd 8)) ∧
      MapFault.pastEnd 8 ≠ .granularity := by
  have hof : Alignment.of? 3 4 granularity = some ⟨0, 3, 7⟩ := by decide
  have hgranularity : granularity ≠ 0 := granularity_ne_zero .usual
  have admits : Admits 8 3 4 := ⟨by decide, by decide, by decide⟩
  have hcontent : eightBytes.content? (.file 0) = some [0, 1, 2, 3, 4, 5, 6, 7] := rfl
  have hrefused : (Mapper.system .usual (.file 0) 3 6 (.ofFiles eightBytes)).1 =
      .error (.mapFailed 3 6 (.pastEnd 8)) := rfl
  obtain ⟨-, hexact, hplan, hsystem⟩ := requests_exact 3 4 granularity
  obtain ⟨-, -, -, hcauses⟩ := requests_exact 3 6 granularity
  obtain ⟨-, -, hadmitted⟩ := hplan hgranularity 8
  obtain ⟨alignment, hok, -, sound⟩ := hadmitted admits
  obtain ⟨found, mapping, -, hfound, -, hmapped⟩ :=
    (hsystem .usual (.ofFiles eightBytes) (.file 0)).2 _ hcontent admits
  exact ⟨hof, hexact _ hof, hgranularity, admits, ⟨alignment, hok, sound⟩, hcontent,
    ⟨found, mapping, hfound, hmapped⟩, hrefused,
    ((hcauses .usual (.ofFiles eightBytes) (.file 0)).1 _ hrefused).1⟩

end ModelBundle
