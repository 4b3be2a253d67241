import Mathlib.Data.List.Forall2
import ModelBundle.Inspection
import ModelBundle.Image.View
import ModelBundle.Proofs.Steps
import ModelBundle.Proofs.Trailers

/-!
What reading an image says about its header tables, and the spans they describe.  A table of
headers is read entry by entry, so it has as many entries as were asked for.
-/

namespace ModelBundle.Image

theorem require_eq_ok {α : Type} {what : String} {found : Option α} {value : α} :
    require what found = .ok value ↔ found = some value := by
  cases found <;> simp [require]

/-! Tables that were read. -/

theorem View.slice?_length {view : View} {offset size : Nat} {bytes : Bytes}
    (h : view.slice? offset size = some bytes) : bytes.length = size := by
  unfold slice? at h
  split at h
  · rename_i hholds
    have hrange : offset + size ≤ view.bytes.size := of_decide_eq_true hholds
    rw [← Option.some.inj h, Array.length_toList, Array.size_extract]
    omega
  · simp at h

theorem ByteOrder.value_lt (order : ByteOrder) (bytes : Bytes) :
    order.value bytes < 256 ^ bytes.length := by
  cases order with
  | little => exact Bytes.fromLittleEndian_lt bytes
  | big => simpa [value, Bytes.fromBigEndian] using Bytes.fromLittleEndian_lt bytes.reverse

theorem View.word?_lt {view : View} {order : ByteOrder} {width offset word : Nat}
    (h : view.word? order width offset = some word) : word < 256 ^ width := by
  unfold word? at h
  obtain ⟨bytes, hbytes, rfl⟩ := Option.map_eq_some_iff.mp h
  rw [← slice?_length hbytes]
  exact order.value_lt bytes

theorem View.words?_lt {view : View} {order : ByteOrder} {widths : List Nat} {offset : Nat}
    {words : List Nat} (h : view.words? order widths offset = some words) :
    List.Forall₂ (fun word width => word < 256 ^ width) words widths := by
  induction widths generalizing offset words with
  | nil =>
    cases h
    exact .nil
  | cons width widths ih =>
    simp only [words?, Option.bind_eq_bind, Option.bind_eq_some_iff, Option.pure_def,
      Option.some.injEq] at h
    obtain ⟨word, hword, rest, hrest, rfl⟩ := h
    exact .cons (word?_lt hword) (ih hrest)

theorem View.length_records? {view : View} {order : ByteOrder} {widths : List Nat} {stride : Nat}
    {count offset : Nat} {records : List (List Nat)}
    (h : view.records? order widths stride count offset = some records) :
    records.length = count := by
  induction count generalizing offset records with
  | zero => simp_all [View.records?]
  | succ count ih =>
    simp only [View.records?, Option.bind_eq_bind, Option.bind_eq_some_iff, Option.pure_def,
      Option.some.injEq] at h
    obtain ⟨record, -, rest, hrest, rfl⟩ := h
    simp [ih hrest]

theorem length_mapM {α β : Type} {convert : α → Option β} {list : List α} {converted : List β}
    (h : list.mapM convert = some converted) : converted.length = list.length := by
  induction list generalizing converted with
  | nil => simp_all
  | cons first rest ih =>
    simp only [List.mapM_cons, Option.bind_eq_bind, Option.bind_eq_some_iff, Option.pure_def,
      Option.some.injEq] at h
    obtain ⟨head, -, tail, htail, rfl⟩ := h
    simp [ih htail]

namespace Elf

theorem length_table {α : Type} {view : View} {layout : Layout} {what : String}
    {widths : List Nat} {convert : List Nat → Option α} {count offset : Nat} {entries : List α}
    (h : table view layout what widths convert count offset = .ok entries) :
    entries.length = count := by
  simp only [table, bind_eq_ok_iff, require_eq_ok] at h
  obtain ⟨-, -, records, hrecords, hentries⟩ := h
  rw [length_mapM hentries, View.length_records? hrecords]

theorem length_sections {view : View} {layout : Layout} {count offset : Nat}
    {found : List Section} (h : sections view layout count offset = .ok found)
    (hsome : found ≠ []) (hcount : count ≠ 0) : found.length = count := by
  unfold sections at h
  split at h
  · simp_all [pure, Except.pure]
  · simp only [bind_eq_ok_iff, require_eq_ok] at h
    obtain ⟨first, -, -, -, rest, hrest, hfound⟩ := h
    cases hfound
    have := length_table hrest
    simp only [List.length_cons]
    omega

theorem lengths_of_read {view : View} {headers : Headers} (h : read view = .ok headers) :
    headers.segments.length = headers.programTable.count.toNat ∧
      (headers.sections ≠ [] → headers.sectionTable.count ≠ 0 →
        headers.sections.length = headers.sectionTable.count.toNat) := by
  simp only [read, bind_eq_ok_iff, require_eq_ok] at h
  obtain ⟨layout, -, words, hwords, h⟩ := h
  split at h
  · rename_i programCount sectionSize sectionCount names
    simp only [bind_eq_ok_iff] at h
    obtain ⟨segments, hsegments, sections, hsections, -, -, -, -, -, -, -, -, -, -, h⟩ := h
    cases h
    have hbounds := View.words?_lt hwords
    simp only [Layout.headerWidths, List.forall₂_cons] at hbounds
    obtain ⟨-, -, -, -, -, -, -, -, -, hprograms, -, hsectionCount, -, -⟩ := hbounds
    dsimp only
    rw [UInt16.toNat_ofNat_of_lt' hprograms, UInt16.toNat_ofNat_of_lt' hsectionCount]
    refine ⟨length_table hsegments, fun hsome hcount => length_sections hsections hsome ?_⟩
    rintro rfl
    exact hcount rfl
  · cases h

end Elf

/-!
Stretches of a file in numbers that do not wrap, and how far the farthest of some spans reaches.
Offsets are told apart up to the largest word.
-/

structure Stretch where
  start : Nat
  length : Nat
deriving DecidableEq, Repr

namespace Stretch

def stop (stretch : Stretch) : Nat := stretch.start + stretch.length

def Holds (stretch : Stretch) (position : Nat) : Prop :=
  stretch.start ≤ position ∧ position < stretch.stop

def Within (stretch : Stretch) (reach : UInt64) : Prop :=
  min stretch.stop (UInt64.size - 1) ≤ reach.toNat

instance (stretch : Stretch) (reach : UInt64) : Decidable (stretch.Within reach) :=
  inferInstanceAs (Decidable (_ ≤ _))

theorem Within.lt {stretch : Stretch} {reach : UInt64} (h : stretch.Within reach) {position : Nat}
    (hholds : stretch.Holds position) (hposition : position < UInt64.size - 1) :
    position < reach.toNat := by
  unfold Within at h
  unfold Holds at hholds
  omega

end Stretch

namespace Span

def stretch (span : Span) : Stretch := ⟨span.offset.toNat, span.length.toNat⟩

theorem toNat_stop (span : Span) : span.stop.toNat = min span.stretch.stop (UInt64.size - 1) :=
  Word.toNat_cappedAdd span.offset span.length

theorem toNat_max (a b : UInt64) : (max a b).toNat = max a.toNat b.toNat := by
  have hmax : max a b = if a ≤ b then b else a := rfl
  rw [hmax]
  split <;> rename_i h <;> rw [UInt64.le_iff_toNat_le] at h <;> omega

theorem le_farthest_iff (spans : List Span) {n : Nat} (hpos : 0 < n) :
    n ≤ (farthest spans).toNat ↔ ∃ span ∈ spans, n ≤ span.stop.toNat := by
  suffices h : ∀ reach : UInt64,
      n ≤ (spans.foldl (fun reach span => max reach span.stop) reach).toNat ↔
        n ≤ reach.toNat ∨ ∃ span ∈ spans, n ≤ span.stop.toNat by
    rw [farthest, h]
    simp
    omega
  induction spans with
  | nil => simp
  | cons span rest ih =>
    intro reach
    have hmax : n ≤ max reach.toNat span.stop.toNat ↔ n ≤ reach.toNat ∨ n ≤ span.stop.toNat := by
      omega
    rw [List.foldl_cons, ih, toNat_max, hmax]
    simp [or_assoc]

theorem stop_le_farthest {spans : List Span} {span : Span} (hmem : span ∈ spans) :
    span.stop.toNat ≤ (farthest spans).toNat := by
  rcases Nat.eq_zero_or_pos span.stop.toNat with hzero | hpos
  · omega
  · exact (le_farthest_iff spans hpos).mpr ⟨span, hmem, Nat.le_refl _⟩

theorem within_farthest_of_mem {spans : List Span} {span : Span} (hmem : span ∈ spans) :
    span.stretch.Within (farthest spans) := by
  unfold Stretch.Within
  rw [← toNat_stop]
  exact stop_le_farthest hmem

theorem within_farthest_iff (spans : List Span) (stretch : Stretch) :
    stretch.Within (farthest spans) ↔
      stretch.stop = 0 ∨ ∃ span ∈ spans, stretch.Within span.stop := by
  unfold Stretch.Within
  by_cases hzero : stretch.stop = 0
  · simp [hzero]
  · have hpos : 0 < min stretch.stop (UInt64.size - 1) := by
      have : 0 < UInt64.size - 1 := by decide
      omega
    rw [le_farthest_iff spans hpos]
    simp [hzero]

end Span

end ModelBundle.Image
