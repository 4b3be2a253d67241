import ModelBundle.Inspection
import ModelBundle.Proofs.Image.Reading

/-!
What the end of an image leaves out.  It is told from the tables as a header declares them, so it
covers every section, segment and slice, and the header tables only where they are declared in full
or something else reaches as far.
-/

namespace ModelBundle.Image

namespace Elf

def segmentHeaderSize (is64 : Bool) : Nat := View.totalWidth (Layout.segmentWidths ⟨is64, .little⟩)
def sectionHeaderSize (is64 : Bool) : Nat := View.totalWidth (Layout.sectionWidths ⟨is64, .little⟩)

example : segmentHeaderSize true = 56 ∧ sectionHeaderSize true = 64 := by decide
example : segmentHeaderSize false = 32 ∧ sectionHeaderSize false = 40 := by decide

/-- A table as the header declares it. -/
def HeaderTable.declared (table : HeaderTable) : Stretch :=
  ⟨table.offset.toNat, table.count.toNat * table.entrySize.toNat⟩

theorem HeaderTable.product_lt (table : HeaderTable) :
    table.count.toNat * table.entrySize.toNat < UInt64.size := by
  have hproduct := Nat.mul_lt_mul'' table.count.toNat_lt table.entrySize.toNat_lt
  exact Nat.lt_trans hproduct (by decide)

theorem HeaderTable.stretch_span (table : HeaderTable) : table.span.stretch = table.declared := by
  have hproduct := table.product_lt
  simpa [span, Span.stretch, declared, UInt64.toNat_mul] using hproduct

namespace Headers

def programHeaders (headers : Headers) : Stretch :=
  ⟨headers.programTable.offset.toNat, headers.segments.length * segmentHeaderSize headers.is64⟩

def sectionHeaders (headers : Headers) : Stretch :=
  ⟨headers.sectionTable.offset.toNat, headers.sections.length * sectionHeaderSize headers.is64⟩

def tables (headers : Headers) : List Stretch := [headers.programHeaders, headers.sectionHeaders]

/-- The declared tables, the sections that occupy the file, and the segments. -/
def extents (headers : Headers) : List Stretch :=
  headers.programTable.declared :: headers.sectionTable.declared ::
    ((headers.sections.filter (·.kind ≠ noBits)).map fun s => ⟨s.offset.toNat, s.size.toNat⟩) ++
    headers.segments.map fun s => ⟨s.offset.toNat, s.fileSize.toNat⟩

end Headers

end Elf

namespace Pe.Headers

/-- The declared headers, and the raw data of the sections. -/
def extents (headers : Headers) : List Stretch :=
  (headers.optional.toList.map fun h => ⟨0, h.headersSize.toNat⟩) ++
    headers.sections.map fun s => ⟨s.rawOffset.toNat, s.rawSize.toNat⟩

end Pe.Headers

namespace MachO

def Headers.headerSize (headers : Headers) : Nat := if headers.is64 then 32 else 28

def Headers.commands (headers : Headers) : Stretch :=
  ⟨0, headers.headerSize + headers.commandsSize.toNat⟩

def Headers.extents (headers : Headers) : List Stretch :=
  headers.segments.map fun s => ⟨s.fileOffset.toNat, s.fileSize.toNat⟩

def FatHeaders.table (headers : FatHeaders) : Stretch :=
  ⟨0, 8 + headers.slices.length * sliceSize⟩

def FatHeaders.extents (headers : FatHeaders) : List Stretch :=
  headers.slices.map fun s => ⟨s.offset.toNat, s.size.toNat⟩

end MachO

namespace Headers

def tables : Headers → List Stretch
  | elf headers => headers.tables
  | pe _ => []
  | machO headers => [headers.commands]
  | fat headers => [headers.table]

def extents : Headers → List Stretch
  | elf headers => headers.extents
  | pe headers => headers.extents
  | machO headers => headers.extents
  | fat headers => headers.extents

def spans : Headers → List Span
  | elf headers => headers.spans
  | pe headers => headers.spans
  | machO headers => headers.spans
  | fat headers => headers.spans

theorem imageEnd_eq (headers : Headers) :
    headers.summary.imageEnd = Span.farthest headers.spans := by
  cases headers <;> rfl

theorem map_stretch_spans (headers : Headers) :
    headers.spans.map Span.stretch = headers.extents := by
  cases headers with
  | elf headers =>
    have hprograms := headers.programTable.stretch_span
    have hsections := headers.sectionTable.stretch_span
    simp only [spans, extents, Elf.Headers.spans, Elf.Headers.extents, List.map_append,
      List.map_cons, List.map_map, hprograms, hsections]
    rfl
  | pe headers =>
    simp only [spans, extents, Pe.Headers.spans, Pe.Headers.extents, List.map_append, List.map_map]
    simp [Span.stretch, Function.comp_def]
  | machO headers =>
    simp only [spans, extents, MachO.Headers.spans, MachO.Headers.extents, List.map_map]
    rfl
  | fat headers =>
    simp only [spans, extents, MachO.FatHeaders.spans, MachO.FatHeaders.extents, List.map_map]
    simp [Span.stretch, Function.comp_def]

def Passes (headers : Headers) (table : Stretch) : Prop :=
  ∃ extent ∈ headers.extents, table.stop ≤ extent.stop ∨ UInt64.size - 1 ≤ extent.stop

theorem within_of_mem_extents {headers : Headers} {extent : Stretch}
    (hmem : extent ∈ headers.extents) : extent.Within headers.summary.imageEnd := by
  rw [← map_stretch_spans] at hmem
  obtain ⟨span, hspan, rfl⟩ := List.mem_map.mp hmem
  rw [imageEnd_eq]
  exact Span.within_farthest_of_mem hspan

theorem within_imageEnd_iff (headers : Headers) (table : Stretch) :
    table.Within headers.summary.imageEnd ↔ table.stop = 0 ∨ headers.Passes table := by
  have hspan : ∀ span : Span, table.Within span.stop ↔
      table.stop ≤ span.stretch.stop ∨ UInt64.size - 1 ≤ span.stretch.stop := by
    intro span
    rw [Stretch.Within, Span.toNat_stop]
    omega
  rw [imageEnd_eq, Span.within_farthest_iff, Passes, ← map_stretch_spans]
  simp [hspan]

/-- All header tables lie in front of the end of the image.  In an ELF image a table does if it is
declared in full, and in any image if something else that is described reaches as far. -/
def TablesPassed : Headers → Prop
  | elf headers =>
    (headers.segments = [] ∨
      Elf.segmentHeaderSize headers.is64 ≤ headers.programTable.entrySize.toNat ∨
      (elf headers).Passes headers.programHeaders) ∧
    (headers.sections = [] ∨
      headers.sectionTable.count ≠ 0 ∧
        Elf.sectionHeaderSize headers.is64 ≤ headers.sectionTable.entrySize.toNat ∨
      (elf headers).Passes headers.sectionHeaders)
  | pe _ => True
  | machO headers => (machO headers).Passes headers.commands
  | fat headers => (fat headers).Passes headers.table

end Headers

theorem Elf.within_iff {headers : Elf.Headers} {table : HeaderTable} (count : Nat) {size : Nat}
    (hmem : table.declared ∈ headers.extents) (hsize : 0 < size) {full : Prop}
    (hfull : full → count * size ≤ table.count.toNat * table.entrySize.toNat) :
    Stretch.Within ⟨table.offset.toNat, count * size⟩ (Headers.elf headers).summary.imageEnd ↔
      count = 0 ∨ full ∨ (Headers.elf headers).Passes ⟨table.offset.toNat, count * size⟩ := by
  rw [Headers.within_imageEnd_iff]
  have hpasses : count * size ≤ table.count.toNat * table.entrySize.toNat →
      (Headers.elf headers).Passes ⟨table.offset.toNat, count * size⟩ := fun hle =>
    ⟨table.declared, hmem, .inl (Nat.add_le_add_left hle _)⟩
  constructor
  · rintro (hzero | hpassed)
    · have hproduct : count * size = 0 := Nat.eq_zero_of_add_eq_zero_left hzero
      rcases Nat.mul_eq_zero.mp hproduct with hcount | hnothing
      · exact .inl hcount
      · omega
    · exact .inr (.inr hpassed)
  · rintro (rfl | hdeclared | hpassed)
    · exact .inr (hpasses (by simp))
    · exact .inr (hpasses (hfull hdeclared))
    · exact .inr hpassed

theorem elf_of_read {bytes : Bytes} {headers : Elf.Headers} (h : read bytes = .ok (.elf headers)) :
    Elf.read (View.ofBytes bytes) = .ok headers := by
  simp only [read, bind_eq_ok_iff, require_eq_ok] at h
  obtain ⟨start, -, h⟩ := h
  repeat' split at h
  all_goals simp only [map_eq_pure_bind, bind_eq_ok_iff, pure, Except.pure, Except.ok.injEq,
    reduceCtorEq, Headers.elf.injEq, and_false, exists_false] at h
  obtain ⟨found, hfound, rfl⟩ := h
  exact hfound

theorem Elf.sections_le {headers : Elf.Headers}
    (hlength : headers.sections ≠ [] → headers.sectionTable.count ≠ 0 →
      headers.sections.length = headers.sectionTable.count.toNat)
    (hcount : headers.sectionTable.count ≠ 0)
    (hsize : sectionHeaderSize headers.is64 ≤ headers.sectionTable.entrySize.toNat) :
    headers.sections.length * sectionHeaderSize headers.is64 ≤
      headers.sectionTable.count.toNat * headers.sectionTable.entrySize.toNat := by
  by_cases hsome : headers.sections = []
  · simp [hsome]
  · rw [hlength hsome hcount]
    exact Nat.mul_le_mul_left _ hsize

theorem tables_within_iff {bytes : Bytes} {headers : Headers} (h : read bytes = .ok headers) :
    (∀ table ∈ headers.tables, table.Within headers.summary.imageEnd) ↔ headers.TablesPassed := by
  cases headers with
  | elf headers =>
    obtain ⟨hprograms, hsections⟩ := Elf.lengths_of_read (elf_of_read h)
    have hsegmentSize : 0 < Elf.segmentHeaderSize headers.is64 := by
      cases headers.is64 <;> decide
    have hsectionSize : 0 < Elf.sectionHeaderSize headers.is64 := by
      cases headers.is64 <;> decide
    have hprogramTable : headers.programTable.declared ∈ headers.extents := by
      simp [Elf.Headers.extents]
    have hsectionTable : headers.sectionTable.declared ∈ headers.extents := by
      simp [Elf.Headers.extents]
    have hfirst := Elf.within_iff headers.segments.length hprogramTable hsegmentSize
      fun hle : Elf.segmentHeaderSize headers.is64 ≤ headers.programTable.entrySize.toNat =>
        hprograms ▸ Nat.mul_le_mul_left _ hle
    have hsecond := Elf.within_iff headers.sections.length hsectionTable hsectionSize
      fun hfull : headers.sectionTable.count ≠ 0 ∧
          Elf.sectionHeaderSize headers.is64 ≤ headers.sectionTable.entrySize.toNat =>
        Elf.sections_le hsections hfull.1 hfull.2
    simp only [Headers.tables, Elf.Headers.tables, List.forall_mem_cons, List.not_mem_nil,
      false_implies, implies_true, and_true, Headers.TablesPassed, ← List.length_eq_zero_iff]
    exact and_congr hfirst hsecond
  | pe headers => simp [Headers.tables, Headers.TablesPassed]
  | machO headers =>
    have hpos : headers.commands.stop ≠ 0 := by
      simp [MachO.Headers.commands, Stretch.stop, MachO.Headers.headerSize]
      split <;> omega
    simp [Headers.tables, Headers.TablesPassed, Headers.within_imageEnd_iff, hpos]
  | fat headers =>
    have hpos : headers.table.stop ≠ 0 := by simp [MachO.FatHeaders.table, Stretch.stop]
    simp [Headers.tables, Headers.TablesPassed, Headers.within_imageEnd_iff, hpos]

theorem Stretch.Within.lt_overlay {stretch : Stretch} {inspection : Inspection}
    {image : ImageSummary} (h : stretch.Within image.imageEnd)
    (hfits : inspection.fileSize < UInt64.size) {position : Nat} (hholds : stretch.Holds position)
    (hposition : position < inspection.fileSize) :
    position + (inspection.fileSize - image.imageEnd.toNat) < inspection.fileSize := by
  have := h.lt hholds (by omega)
  omega

/-- For all bytes that are told for an executable: everything that the headers describe lies in
front of the end of the image, and the header tables do exactly if they are passed, as those of a PE
image always are.  Then the overlay holds nothing of either. -/
theorem imageEnd_covers_iff {bytes : Bytes} {image : ImageSummary}
    (h : summarize bytes = .ok image) :
    ∃ headers, read bytes = .ok headers ∧ headers.summary = image ∧
      (∀ extent ∈ headers.extents, extent.Within image.imageEnd) ∧
      ((∀ table ∈ headers.tables, table.Within image.imageEnd) ↔ headers.TablesPassed) ∧
      ∀ inspection : Inspection, inspection.host = some image →
        inspection.fileSize < UInt64.size → headers.TablesPassed →
        ∃ overlay, inspection.overlayLength = some overlay ∧
          ∀ stretch ∈ headers.tables ++ headers.extents, ∀ position, stretch.Holds position →
            position < inspection.fileSize → position + overlay < inspection.fileSize := by
  unfold summarize at h
  split at h
  · rename_i headers hread
    cases h
    have hextents : ∀ extent ∈ headers.extents, extent.Within headers.summary.imageEnd :=
      fun extent => Headers.within_of_mem_extents
    have htables := tables_within_iff hread
    refine ⟨headers, hread, rfl, hextents, htables, ?_⟩
    intro inspection hhost hfits hpassed
    refine ⟨inspection.fileSize - headers.summary.imageEnd.toNat, ?_, ?_⟩
    · rw [Inspection.overlayLength, hhost, Option.map_some]
    · intro stretch hmem position hholds hposition
      have hwithin : stretch.Within headers.summary.imageEnd := by
        rcases List.mem_append.mp hmem with htable | hextent
        · exact htables.mpr hpassed stretch htable
        · exact hextents stretch hextent
      exact hwithin.lt_overlay hfits hholds hposition
  · cases h

def oneSlice : Bytes :=
  [0xca, 0xfe, 0xba, 0xbe, 0, 0, 0, 1] ++ List.replicate 8 0 ++ [0, 0, 0, 28, 0, 0, 0, 4] ++
    List.replicate 8 0

theorem imageEnd_covers_iff_oneSlice :
    summarize oneSlice = .ok ⟨.fatMachO, true, 0, true, 32⟩ ∧
      read oneSlice = .ok (.fat ⟨[⟨28, 4⟩]⟩) ∧
      (∀ table ∈ (Headers.fat ⟨[⟨28, 4⟩]⟩).tables, table.Within 32) ∧
      ∃ overlay, overlay = 8 ∧ ∀ stretch ∈
        (Headers.fat ⟨[⟨28, 4⟩]⟩).tables ++ (Headers.fat ⟨[⟨28, 4⟩]⟩).extents,
        ∀ position, stretch.Holds position → position < 40 → position + overlay < 40 := by
  have hsummarize : summarize oneSlice = .ok ⟨.fatMachO, true, 0, true, 32⟩ := by rfl
  have hread : read oneSlice = .ok (.fat ⟨[⟨28, 4⟩]⟩) := by rfl
  obtain ⟨headers, hheaders, -, -, htables, hoverlay⟩ := imageEnd_covers_iff hsummarize
  cases hread.symm.trans hheaders
  have hpassed : (Headers.fat ⟨[⟨28, 4⟩]⟩).TablesPassed :=
    ⟨⟨28, 4⟩, by decide, .inl (by decide)⟩
  obtain ⟨overlay, hlength, hholds⟩ :=
    hoverlay ⟨40, some ⟨.fatMachO, true, 0, true, 32⟩, none, none, false⟩ rfl (by decide) hpassed
  cases hlength
  exact ⟨hsummarize, hread, htables.mpr hpassed, 8, rfl, hholds⟩

/-- An ELF image that counts its section headers in the first of them, which is the only one. -/
def countedInside : Bytes :=
  [0x7f, 0x45, 0x4c, 0x46, 2, 1, 1] ++ List.replicate 9 0 ++ [2, 0, 62, 0, 1] ++
    List.replicate 19 0 ++ Bytes.littleEndian 8 64 ++ List.replicate 4 0 ++
    [64, 0, 56, 0, 0, 0, 64] ++ List.replicate 37 0 ++ Bytes.littleEndian 8 1 ++
    List.replicate 24 0

def headerOnly : Bytes := [0xcf, 0xfa, 0xed, 0xfe] ++ List.replicate 28 0
def noSlices : Bytes := [0xca, 0xfe, 0xba, 0xbe] ++ List.replicate 12 0

/-- The image ends where its section header begins, and the others in front of their first byte. -/
theorem imageEnd_countedInside :
    summarize countedInside = .ok ⟨.elf, true, 0, true, 64⟩ ∧
      (read countedInside).toOption.map Headers.tables = some [⟨0, 0⟩, ⟨64, 64⟩] ∧
      ¬ Stretch.Within ⟨64, 64⟩ 64 ∧
      summarize headerOnly = .ok ⟨.machO, true, 0, false, 0⟩ ∧
      (read headerOnly).toOption.map Headers.tables = some [⟨0, 32⟩] ∧
      ¬ Stretch.Within ⟨0, 32⟩ 0 ∧
      summarize noSlices = .ok ⟨.fatMachO, true, 0, true, 0⟩ ∧
      (read noSlices).toOption.map Headers.tables = some [⟨0, 8⟩] ∧
      ¬ Stretch.Within ⟨0, 8⟩ 0 := by
  decide +kernel

end ModelBundle.Image
