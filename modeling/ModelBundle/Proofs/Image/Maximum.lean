import ModelBundle.Proofs.Image.Coverage
import ModelBundle.Proofs.Trailers

/-!
The end of an image as a number: the greatest end of what its headers describe, capped once at the
largest word, although every single end is capped on the way.  Greatest ends do not depend on any
order, and products and sums that are not capped fit a word by the widths of their fields.
-/

namespace ModelBundle.Image

def Stretch.farthest (stretches : List Stretch) : Nat := (stretches.map stop).max?.getD 0

theorem Stretch.farthest_eq_foldl (stretches : List Stretch) :
    farthest stretches = (stretches.map stop).foldl max 0 := by
  rw [farthest, List.foldl_max, Nat.zero_max]

theorem Stretch.farthest_eq_of_perm {first second : List Stretch} (h : first.Perm second) :
    farthest first = farthest second := by
  rw [farthest_eq_foldl, farthest_eq_foldl]
  exact (h.map stop).foldl_eq 0

namespace Span

theorem toNat_farthest (spans : List Span) :
    (farthest spans).toNat = min (Stretch.farthest (spans.map stretch)) (UInt64.size - 1) := by
  -- The invariant: what has been reached is the greatest end so far, capped.
  suffices hcapped : ∀ (reach : UInt64) (most : Nat), reach.toNat = min most (UInt64.size - 1) →
      (spans.foldl (fun reach span => max reach span.stop) reach).toNat =
        min (((spans.map stretch).map Stretch.stop).foldl max most) (UInt64.size - 1) by
    rw [Stretch.farthest_eq_foldl]
    exact hcapped 0 0 (by simp)
  induction spans with
  | nil => exact fun reach most h => h
  | cons span rest ih =>
    intro reach most h
    have hstep : (max reach span.stop).toNat =
        min (max most span.stretch.stop) (UInt64.size - 1) := by
      rw [toNat_max, toNat_stop, h]
      omega
    simpa only [List.foldl_cons, List.map_cons] using ih _ _ hstep

/-- The farthest end by plain sums, if they all fit. -/
def farthest? (spans : List Span) : Option UInt64 :=
  spans.foldlM (fun reach span => (Word.add? span.offset span.length).map (max reach)) 0

theorem farthest?_eq {spans : List Span}
    (hfits : ∀ span ∈ spans, span.stretch.stop < UInt64.size) :
    farthest? spans = some (farthest spans) := by
  suffices hplain : ∀ reach : UInt64,
      spans.foldlM (fun reach span => (Word.add? span.offset span.length).map (max reach)) reach =
        some (spans.foldl (fun reach span => max reach span.stop) reach) from hplain 0
  induction spans with
  | nil => exact fun reach => rfl
  | cons span rest ih =>
    intro reach
    have hspan : span.offset.toNat + span.length.toNat < UInt64.size := hfits span (by simp)
    have hrest := ih fun other hmem => hfits other (List.mem_cons_of_mem _ hmem)
    rw [List.foldlM_cons, List.foldl_cons, stop, Word.add?_of_fits hspan,
      Word.cappedAdd_of_fits hspan]
    exact hrest _

end Span

namespace Elf

def HeaderTable.span? (table : HeaderTable) : Option Span :=
  (Word.mul? table.count.toUInt64 table.entrySize.toUInt64).map (Span.mk table.offset)

theorem HeaderTable.span?_eq (table : HeaderTable) : table.span? = some table.span := by
  have hfits : table.count.toUInt64.toNat * table.entrySize.toUInt64.toNat < UInt64.size :=
    table.product_lt
  rw [span?, Word.mul?_of_fits hfits]
  rfl

def Headers.contents (headers : Headers) : List Span :=
  ((headers.sections.filter (·.kind ≠ noBits)).map fun s => ⟨s.offset, s.size⟩) ++
    headers.segments.map fun s => ⟨s.offset, s.fileSize⟩

end Elf

theorem Pe.Headers.spans_fit (headers : Pe.Headers) :
    ∀ span ∈ headers.spans, span.stretch.stop < UInt64.size := by
  intro span hmem
  have hwide : (2 : Nat) ^ 32 + 2 ^ 32 ≤ UInt64.size := by decide
  simp only [Pe.Headers.spans, List.mem_append, List.mem_map] at hmem
  obtain ⟨header, -, rfl⟩ | ⟨part, -, rfl⟩ := hmem
  · have := header.headersSize.toNat_lt
    simp only [Span.stretch, Stretch.stop, UInt32.toNat_toUInt64, UInt64.toNat_zero]
    omega
  · have := part.rawOffset.toNat_lt
    have := part.rawSize.toNat_lt
    simp only [Span.stretch, Stretch.stop, UInt32.toNat_toUInt64]
    omega

theorem MachO.FatHeaders.spans_fit (headers : MachO.FatHeaders) :
    ∀ span ∈ headers.spans, span.stretch.stop < UInt64.size := by
  intro span hmem
  have hwide : (2 : Nat) ^ 32 + 2 ^ 32 ≤ UInt64.size := by decide
  simp only [MachO.FatHeaders.spans, List.mem_map] at hmem
  obtain ⟨slice, -, rfl⟩ := hmem
  have := slice.offset.toNat_lt
  have := slice.size.toNat_lt
  simp only [Span.stretch, Stretch.stop, UInt32.toNat_toUInt64]
  omega

namespace Headers

/-- The end of the image, refused where a product or sum that is not capped does not fit a word.
Not capped are the products in an ELF image, and the sums in a PE image and in a table of images. -/
def imageEnd? : Headers → Option UInt64
  | elf headers => do
    let programs ← headers.programTable.span?
    let sections ← headers.sectionTable.span?
    return Span.farthest (programs :: sections :: headers.contents)
  | pe headers => Span.farthest? headers.spans
  | machO headers => some (Span.farthest headers.spans)
  | fat headers => Span.farthest? headers.spans

theorem imageEnd?_eq (headers : Headers) :
    headers.imageEnd? = some headers.summary.imageEnd := by
  cases headers with
  | elf headers =>
    simp only [imageEnd?, Elf.HeaderTable.span?_eq, Option.bind_eq_bind, Option.bind_some]
    rfl
  | pe headers => exact Span.farthest?_eq headers.spans_fit
  | machO headers => rfl
  | fat headers => exact Span.farthest?_eq headers.spans_fit

/-- Both describe the same parts, in whatever order.  Of the sections of an ELF image only those
that occupy the file are compared. -/
def SameParts : Headers → Headers → Prop
  | elf first, elf second =>
    first.programTable = second.programTable ∧ first.sectionTable = second.sectionTable ∧
      (first.sections.filter (·.kind ≠ Elf.noBits)).Perm
        (second.sections.filter (·.kind ≠ Elf.noBits)) ∧
      first.segments.Perm second.segments
  | pe first, pe second =>
    first.optional = second.optional ∧ first.sections.Perm second.sections
  | machO first, machO second => first.segments.Perm second.segments
  | fat first, fat second => first.slices.Perm second.slices
  | _, _ => False

theorem SameParts.extents_perm {first second : Headers} (h : first.SameParts second) :
    first.extents.Perm second.extents := by
  match first, second, h with
  | elf first, elf second, ⟨hprograms, hsectionTable, hsections, hsegments⟩ =>
    simp only [extents, Elf.Headers.extents, hprograms, hsectionTable]
    exact (((hsections.map _).append (hsegments.map _)).cons _).cons _
  | pe first, pe second, ⟨hoptional, hsections⟩ =>
    simp only [extents, Pe.Headers.extents, hoptional]
    exact (hsections.map _).append_left _
  | machO first, machO second, hsegments => exact List.Perm.map _ hsegments
  | fat first, fat second, hslices => exact List.Perm.map _ hslices

theorem toNat_imageEnd (headers : Headers) : headers.summary.imageEnd.toNat =
    min (Stretch.farthest headers.extents) (UInt64.size - 1) := by
  rw [imageEnd_eq, Span.toNat_farthest, map_stretch_spans]

end Headers

/-- For all headers, of whatever fields and with any number of parts: no product and no sum wraps on
the way to the end of the image, and it is the greatest end of what is described, capped at the
largest word.  The order of sections, segments and slices makes no difference, nor do sections that
occupy nothing of the file. -/
theorem imageEnd_exact (headers : Headers) :
    headers.imageEnd? = some headers.summary.imageEnd ∧
      headers.summary.imageEnd.toNat =
        min (Stretch.farthest headers.extents) (UInt64.size - 1) ∧
      (headers.extents = [] → headers.summary.imageEnd = 0) ∧
      ∀ other, headers.SameParts other →
        other.summary.imageEnd = headers.summary.imageEnd := by
  have hcapped := headers.toNat_imageEnd
  refine ⟨headers.imageEnd?_eq, hcapped, ?_, ?_⟩
  · intro hnothing
    apply UInt64.toNat_inj.mp
    rw [hcapped, hnothing]
    rfl
  · intro other hsame
    apply UInt64.toNat_inj.mp
    rw [hcapped, other.toNat_imageEnd, Stretch.farthest_eq_of_perm hsame.extents_perm]

/-- Two segments, of which the second reaches farther than all else that occupies the file, and a
section without bits that says to end far behind it. -/
def twoSegments : Elf.Headers where
  is64 := true
  kind := Elf.fixedExecutable
  entry := 0
  programTable := ⟨64, 2, 56⟩
  sectionTable := ⟨176, 2, 64⟩
  segments := [⟨Elf.loadable, 0, 0, 176, 176⟩, ⟨Elf.loadable, 4096, 0, 8, 8⟩]
  sections := [⟨Elf.noBits, 0, 8192, 18446744073709551615, 0, 0⟩, ⟨1, 0, 304, 10, 0, 0⟩]
  hasInterpreter := false

/-- The other way round and without the section that has no bits, it is the same end.  Without any
segments a Mach-O image ends at zero, and an end behind the largest word is told as that word. -/
theorem imageEnd_exact_twoSegments :
    let turned := { twoSegments with
      segments := twoSegments.segments.reverse
      sections := twoSegments.sections.tail }
    (Headers.elf twoSegments).SameParts (.elf turned) ∧
      (Headers.elf twoSegments).imageEnd? = some 4104 ∧
      (Headers.elf turned).summary.imageEnd = (Headers.elf twoSegments).summary.imageEnd ∧
      (Headers.machO ⟨true, MachO.program, 0, 0, []⟩).extents = [] ∧
      (Headers.machO ⟨true, MachO.program, 0, 0, []⟩).summary.imageEnd = 0 ∧
      (Headers.machO ⟨true, MachO.program, 0, 0,
        [⟨[], 0, 18446744073709551615, 18446744073709551615⟩]⟩).summary.imageEnd.toNat =
          UInt64.size - 1 := by
  intro turned
  have hsame : (Headers.elf twoSegments).SameParts (.elf turned) :=
    ⟨rfl, rfl, List.Perm.of_eq (by decide), (List.reverse_perm _).symm⟩
  obtain ⟨hplain, -, -, hother⟩ := imageEnd_exact (.elf twoSegments)
  obtain ⟨-, -, hnothing, -⟩ := imageEnd_exact (.machO ⟨true, MachO.program, 0, 0, []⟩)
  obtain ⟨-, hcapped, -⟩ := imageEnd_exact (.machO ⟨true, MachO.program, 0, 0,
    [⟨[], 0, 18446744073709551615, 18446744073709551615⟩]⟩)
  exact ⟨hsame, hplain.trans (by decide), hother _ hsame, rfl, hnothing rfl,
    hcapped.trans (by decide)⟩

end ModelBundle.Image
