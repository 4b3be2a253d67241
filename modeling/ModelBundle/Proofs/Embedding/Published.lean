import Mathlib.Algebra.Order.Floor.Div
import Mathlib.Order.Bounds.Basic
import ModelBundle.Bundle
import ModelBundle.Proofs.Embedding.RoundTrip
import ModelBundle.Proofs.Trailers

/-!
The file that a successful embedding leaves behind, and where the payload starts in it.  A host is
shorter than half of what a word can count, so rounding its length up to an alignment never wraps,
whatever the alignment.
-/

namespace ModelBundle.Bundle

/-! The same computation with operations that refuse to wrap and to divide by zero. -/

def ceilDiv? (a b : UInt64) : Option UInt64 := do
  let (quotient, rest) ← Word.divMod? a b
  if 0 < rest then Word.add? quotient 1 else some quotient

def payloadOffset? (hostSize : UInt64) (align : Option UInt64) : Option UInt64 :=
  match align with
  | some align =>
    if 1 < align then do Word.mul? (← ceilDiv? hostSize align) align else some hostSize
  | none => some hostSize

def gap? (hostSize : UInt64) (align : Option UInt64) : Option UInt64 := do
  Word.sub? (← payloadOffset? hostSize align) hostSize

theorem div_le_half (size : UInt64) {align : UInt64} (halign : 1 < align) :
    size.toNat / align.toNat ≤ size.toNat / 2 :=
  Nat.div_le_div_left (UInt64.lt_iff_toNat_lt.mp halign) Nat.two_pos

theorem toNat_ceilDiv {size align : UInt64} (halign : 1 < align) :
    (ceilDiv size align).toNat = size.toNat ⌈/⌉ align.toNat := by
  have hone : 1 < align.toNat := UInt64.lt_iff_toNat_lt.mp halign
  have hsplit := Nat.div_add_mod size.toNat align.toNat
  have hrest := Nat.mod_lt size.toNat (Nat.lt_trans Nat.one_pos hone)
  have hhalf := div_le_half size halign
  rw [Nat.mul_comm] at hsplit
  rw [Nat.ceilDiv_eq_add_pred_div, ceilDiv]
  symm
  split
  case isTrue hinexact =>
    rw [UInt64.lt_iff_toNat_lt, UInt64.toNat_mod, UInt64.toNat_zero] at hinexact
    have hnext : (size / align + 1).toNat = size.toNat / align.toNat + 1 := by
      have hword := size.toNat_lt
      rw [UInt64.toNat_add, UInt64.toNat_div, UInt64.toNat_one, Nat.mod_eq_of_lt (by omega)]
    rw [hnext]
    apply Nat.div_eq_of_lt_le
    · rw [Nat.add_mul]
      omega
    · rw [Nat.add_mul, Nat.add_mul]
      omega
  case isFalse hexact =>
    rw [UInt64.lt_iff_toNat_lt, UInt64.toNat_mod, UInt64.toNat_zero] at hexact
    rw [UInt64.toNat_div]
    apply Nat.div_eq_of_lt_le
    · omega
    · rw [Nat.add_mul]
      omega

theorem ceilDiv?_eq (size : UInt64) {align : UInt64} (halign : 1 < align) :
    ceilDiv? size align = some (ceilDiv size align) := by
  have hzero : align ≠ 0 := by
    rintro rfl
    simp at halign
  have hnext : (size / align).toNat + (1 : UInt64).toNat < UInt64.size := by
    have hhalf := div_le_half size halign
    have hword := size.toNat_lt
    rw [UInt64.toNat_div, UInt64.toNat_one, UInt64.size]
    omega
  simp only [ceilDiv?, Word.divMod?_of_ne_zero size hzero, Option.bind_eq_bind, Option.bind_some,
    Word.add?_of_fits hnext, ceilDiv]
  split <;> rfl

theorem mul_ceilDiv_lt {host : Nat} (hbounded : host < FileSystem.lengthLimit) {align : UInt64}
    (halign : 1 < align) : align.toNat * (host ⌈/⌉ align.toNat) < UInt64.size := by
  have hlimit : FileSystem.lengthLimit + FileSystem.lengthLimit = UInt64.size := rfl
  have hone : 1 < align.toNat := UInt64.lt_iff_toNat_lt.mp halign
  have hleast : ∀ {count}, host ⌈/⌉ align.toNat ≤ count ↔ host ≤ align.toNat * count :=
    ceilDiv_le_iff_le_mul (by omega)
  by_cases hlarge : host ≤ align.toNat
  · have hcount : host ⌈/⌉ align.toNat ≤ 1 := hleast.mpr (by omega)
    have := Nat.mul_le_mul_left align.toNat hcount
    have := align.toNat_lt_size
    omega
  · -- One multiple less would not do, and a multiple is less than the host.
    have hfewer : ¬ host ≤ align.toNat * (host ⌈/⌉ align.toNat - 1) :=
      mt hleast.mpr (by
        have hcount : ¬ host ⌈/⌉ align.toNat ≤ 0 := mt hleast.mp (by omega)
        omega)
    rw [Nat.mul_sub, Nat.mul_one] at hfewer
    omega

theorem payloadOffset_isLeast {host : Nat} (hbounded : host < FileSystem.lengthLimit)
    {align : UInt64} (halign : 1 < align) :
    IsLeast {start | align.toNat ∣ start ∧ host ≤ start}
      (payloadOffset (.ofNat host) (some align)).toNat := by
  have hlimit : FileSystem.lengthLimit + FileSystem.lengthLimit = UInt64.size := rfl
  have hone : 1 < align.toNat := UInt64.lt_iff_toNat_lt.mp halign
  have hhost : (UInt64.ofNat host).toNat = host := UInt64.toNat_ofNat_of_lt' (by omega)
  have hleast : ∀ {count}, host ⌈/⌉ align.toNat ≤ count ↔ host ≤ align.toNat * count :=
    ceilDiv_le_iff_le_mul (by omega)
  have hwide := mul_ceilDiv_lt hbounded halign
  have hoffset : (payloadOffset (.ofNat host) (some align)).toNat =
      align.toNat * (host ⌈/⌉ align.toNat) := by
    simp only [payloadOffset, halign, if_true]
    rw [UInt64.toNat_mul, toNat_ceilDiv halign, hhost, Nat.mul_comm, Nat.mod_eq_of_lt hwide]
  rw [hoffset]
  refine ⟨⟨Nat.dvd_mul_right _ _, hleast.mp (Nat.le_refl _)⟩, ?_⟩
  rintro _ ⟨⟨count, rfl⟩, hcount⟩
  exact Nat.mul_le_mul_left _ (hleast.mpr hcount)

theorem payloadOffset_of_le_one {host : Nat} (hbounded : host < FileSystem.lengthLimit)
    {align : Option UInt64} (h : ∀ least, align = some least → least ≤ 1) :
    (payloadOffset (.ofNat host) align).toNat = host := by
  have hlimit : FileSystem.lengthLimit + FileSystem.lengthLimit = UInt64.size := rfl
  have hhost : (UInt64.ofNat host).toNat = host := UInt64.toNat_ofNat_of_lt' (by omega)
  cases align with
  | none => exact hhost
  | some least =>
    simp only [payloadOffset, if_neg (UInt64.not_lt.mpr (h least rfl))]
    exact hhost

theorem payloadOffset_cases {host : Nat} (hbounded : host < FileSystem.lengthLimit)
    (align : Option UInt64) :
    ((∀ least, align = some least → least ≤ 1) ∧
      (payloadOffset (.ofNat host) align).toNat = host) ∨
    ∃ least, align = some least ∧ 1 < least ∧
      IsLeast {start | least.toNat ∣ start ∧ host ≤ start}
        (payloadOffset (.ofNat host) align).toNat := by
  by_cases hsmall : ∀ least, align = some least → least ≤ 1
  · exact .inl ⟨hsmall, payloadOffset_of_le_one hbounded hsmall⟩
  · simp only [not_forall, UInt64.not_le] at hsmall
    obtain ⟨least, rfl, hlarge⟩ := hsmall
    exact .inr ⟨least, rfl, hlarge, payloadOffset_isLeast hbounded hlarge⟩

theorem le_payloadOffset {host : Nat} (hbounded : host < FileSystem.lengthLimit)
    (align : Option UInt64) : host ≤ (payloadOffset (.ofNat host) align).toNat := by
  obtain ⟨-, hoffset⟩ | ⟨least, -, -, hleast⟩ := payloadOffset_cases hbounded align
  · exact Nat.le_of_eq hoffset.symm
  · exact hleast.1.2

theorem payloadOffset?_eq {host : Nat} (hbounded : host < FileSystem.lengthLimit)
    (align : Option UInt64) :
    payloadOffset? (.ofNat host) align = some (payloadOffset (.ofNat host) align) := by
  have hlimit : FileSystem.lengthLimit < UInt64.size := by decide
  have hhost : (UInt64.ofNat host).toNat = host := UInt64.toNat_ofNat_of_lt' (by omega)
  cases align with
  | none => rfl
  | some least =>
    by_cases hlarge : 1 < least
    · have hfits : (ceilDiv (.ofNat host) least).toNat * least.toNat < UInt64.size := by
        rw [toNat_ceilDiv hlarge, hhost, Nat.mul_comm]
        exact mul_ceilDiv_lt hbounded hlarge
      simp only [payloadOffset?, payloadOffset, if_pos hlarge, ceilDiv?_eq _ hlarge,
        Option.bind_eq_bind, Option.bind_some, Word.mul?_of_fits hfits]
    · simp only [payloadOffset?, payloadOffset, if_neg hlarge]

theorem sub_lt_of_isLeast {align host offset : Nat} (halign : 0 < align)
    (hleast : IsLeast {start | align ∣ start ∧ host ≤ start} offset) : offset - host < align := by
  by_contra hlong
  have hfewer : offset ≤ offset - align :=
    hleast.2 ⟨Nat.dvd_sub hleast.1.1 (Nat.dvd_refl align), by omega⟩
  omega

/-- Where the payload of a bundle starts, and what is in front of it. -/
structure ExactOffset (host : Bytes) (align : Option UInt64) (hostSize offset : UInt64) : Prop where
  /-- Nothing in the computation wraps or is divided by zero. -/
  checked : payloadOffset? hostSize align = some offset
  gap : gap? hostSize align = some (offset - hostSize)
  filled : host.length + (offset - hostSize).toNat = offset.toNat
  padded : ∀ size, (padding host ⟨offset, size⟩).length = (offset - hostSize).toNat
  short : (offset - hostSize).toNat < max (align.getD 1).toNat 1
  least : ∀ least, align = some least → 1 < least →
    IsLeast {start | least.toNat ∣ start ∧ host.length ≤ start} offset.toNat
  behind : (∀ least, align = some least → least ≤ 1) → offset.toNat = host.length
  pos : 0 < offset.toNat
  /-- A trailer is never refused for this offset. -/
  accepted : ∀ size fileSize, Trailer.check ⟨offset, size⟩ fileSize = .ok () ↔
    0 < size.toNat ∧ offset.toNat + size.toNat + Trailer.width = fileSize ∧
      fileSize < UInt64.size

/-- For every host that is not empty and every alignment. -/
theorem payloadOffset_exact {host : Bytes} (hsome : host ≠ [])
    (hbounded : host.length < FileSystem.lengthLimit) (align : Option UInt64) :
    let hostSize := UInt64.ofNat host.length
    ExactOffset host align hostSize (payloadOffset hostSize align) := by
  intro hostSize
  let offset := payloadOffset hostSize align
  have hlimit : FileSystem.lengthLimit < UInt64.size := by decide
  have hhost : hostSize.toNat = host.length := UInt64.toNat_ofNat_of_lt' (by omega)
  have hpos : 0 < host.length := List.length_pos_iff.mpr hsome
  have hle : hostSize ≤ offset := by
    rw [UInt64.le_iff_toNat_le, hhost]
    exact le_payloadOffset hbounded align
  have hgap : (offset - hostSize).toNat = offset.toNat - host.length := by
    rw [UInt64.toNat_sub_of_le _ _ hle, hhost]
  have hbehind : host.length ≤ offset.toNat := le_payloadOffset hbounded align
  have hfront : 0 < offset.toNat := Nat.lt_of_lt_of_le hpos hbehind
  have hchecked : payloadOffset? hostSize align = some offset := payloadOffset?_eq hbounded align
  refine ⟨hchecked, ?_, ?_, ?_, ?_, ?_, payloadOffset_of_le_one hbounded, hfront, ?_⟩
  · show gap? hostSize align = some (offset - hostSize)
    simp only [gap?, hchecked, Option.bind_eq_bind, Option.bind_some, Word.sub?_of_le hle]
  · rw [hgap]
    exact Nat.add_sub_cancel' hbehind
  · intro size
    rw [padding, List.length_replicate, hgap]
  · rw [hgap]
    obtain ⟨-, hoffset⟩ | ⟨least, rfl, hlarge, hleast⟩ := payloadOffset_cases hbounded align
    · have : offset.toNat = host.length := hoffset
      omega
    · have hone : 1 < least.toNat := UInt64.lt_iff_toNat_lt.mp hlarge
      have hshort : offset.toNat - host.length < least.toNat :=
        sub_lt_of_isLeast (by omega) hleast
      rw [Option.getD_some]
      omega
  · rintro least rfl hlarge
    exact payloadOffset_isLeast hbounded hlarge
  · intro size fileSize
    rw [Trailer.check_eq_ok_iff]
    exact and_iff_right hfront

/-- The largest alignment there is moves the payload of a host of one byte to the last offset. -/
theorem payloadOffset_exact_widest :
    ([0x7f] : Bytes) ≠ [] ∧ ([0x7f] : Bytes).length < FileSystem.lengthLimit ∧
      payloadOffset? 1 (some 18446744073709551615) = some 18446744073709551615 ∧
      gap? 1 (some 18446744073709551615) = some 18446744073709551614 ∧
      IsLeast {start | 18446744073709551615 ∣ start ∧ 1 ≤ start} 18446744073709551615 ∧
      (∀ least : UInt64, some 1 = some least → least ≤ 1) ∧ payloadOffset 1 (some 1) = 1 := by
  have hsome : ([0x7f] : Bytes) ≠ [] := by decide
  have hbounded : ([0x7f] : Bytes).length < FileSystem.lengthLimit := by decide
  have hsmall : ∀ least : UInt64, some 1 = some least → least ≤ 1 := by
    rintro least ⟨⟩
    decide
  have widest := payloadOffset_exact hsome hbounded (some 18446744073709551615)
  have narrowest := payloadOffset_exact hsome hbounded (some 1)
  exact ⟨hsome, hbounded, widest.checked, widest.gap, widest.least _ rfl (by decide), hsmall,
    UInt64.toNat_inj.mp (narrowest.behind hsmall)⟩

end ModelBundle.Bundle

/-!
The file that a successful embedding leaves behind.  It is written in four pieces, and it is the
whole bundle byte for byte; the name it was built under is free again, and it is no host any more.
-/

namespace ModelBundle

open ModelBundle.Action ModelBundle.Bundle FileSystem

namespace FileSystem

theorem openRead_of_data? {files : FileSystem} {path : Path} {data : FileData}
    (hdata : files.data? path = some data) (hpermits : permits data ownerRead = true) :
    ∃ id, files.openRead path = .ok (.file id) ∧ files.content? (.file id) = some data.content := by
  rw [data?_eq_bind, Option.bind_eq_some_iff] at hdata
  obtain ⟨id, hleads, hfile⟩ := hdata
  obtain ⟨location, hresolve⟩ := leads?_eq_some_iff.mp hleads
  refine ⟨id, openRead_eq_file_iff.mpr ⟨location, data, hresolve, hfile, hpermits⟩, ?_⟩
  rw [content?, hfile, Option.map_some]

theorem free_of_vacant {fs : FileSystem} {path : Path} {name : String}
    (hlast : (Path.components path).getLast? = some name) (hslash : Path.endsInSlash path = false)
    (hdot : name ≠ ".") (hdots : name ≠ "..")
    (hvacant : ∀ parent, fs.target path = .ok (.named parent name false) →
      fs.entry? (parent ++ [name]) = none) : fs.Free path := by
  intro location entry hfound
  obtain ⟨parent, htarget⟩ := target_of_resolve hfound hlast hdot hdots
  rw [hslash] at htarget
  rw [resolve_vacant htarget (hvacant parent htarget)] at hfound
  cases hfound

end FileSystem

namespace Bundle

theorem embed_of_located {host : Path} {world : World} {trailer : Trailer}
    (h : Trailer.located world.files host = .ok (some trailer)) (payload out : Path)
    (align : Option UInt64) :
    (embed host payload out align world).1 =
      .error (.alreadyEmbedded host trailer.offset trailer.size) := by
  have hlocate : Trailer.locate host world =
      (.ok (some trailer), (Trailer.locate host world).2) := by
    rw [← h]
    exact Prod.ext (Trailer.locate_fst host world) rfl
  have hread : readHost host payload out world =
      (.error (.alreadyEmbedded host trailer.offset trailer.size),
        (Trailer.locate host world).2) := by
    rw [readHost, bind_ok hlocate]
    rfl
  rw [embed_apply, prepare, bind_error hread]

namespace Attempt

variable {files built : FileSystem} {host payload out : Path} {align : Option UInt64}

theorem free_after (attempt : Attempt files host payload out align built) {after : FileSystem}
    (hrename : built.rename (Path.temporary out) out = .ok after)
    (free : files.Free (Path.temporary out)) : after.Free (Path.temporary out) := by
  obtain ⟨place, name, hout, -, placed, -⟩ := attempt.placed_out hrename free
  obtain ⟨-, hname, -, ⟨hdot, hdots, -⟩, -⟩ := target_eq_named_iff.mp hout
  obtain ⟨hlast, hslash⟩ := Path.getLast?_temporary out
  obtain ⟨hstem, hstems⟩ := Path.stem_ne_dot out
  apply free_of_vacant hlast hslash hstem hstems
  intro parent htarget
  have hbefore : files.target (Path.temporary out) =
      .ok (.named parent (Path.stem out ++ ".partial") false) := by
    refine target_of_new (fun entry h => ⟨attempt.id, h⟩) ?_ placed.working htarget
    intro location entry hentry
    rw [placed.names] at hentry
    split at hentry
    · exact .inl (Option.some.inj hentry).symm
    · exact .inr hentry
  have hother : place ++ [name] ≠ parent ++ [Path.stem out ++ ".partial"] := fun heq =>
    Path.stem_ne hname hdot hdots (List.append_singleton_inj.mp heq).2.symm
  rw [placed.names, if_neg hother]
  exact free.vacant hbefore

end Attempt

end Bundle

/-- What a bundle is: the file at the place of the output, with this data. -/
structure Bundle.Publishes (host payload out : Path) (align : Option UInt64) (before after : World)
    (trailer : Trailer) (hostData payloadData data : FileData) : Prop where
  read : before.files.data? host = some hostData
  copied : before.files.data? payload = some payloadData
  size : trailer.size.toNat = payloadData.content.length
  aligned : ∀ least, align = some least → 1 < least →
    IsLeast {start | least.toNat ∣ start ∧ hostData.content.length ≤ start} trailer.offset.toNat
  behind : (∀ least, align = some least → least ≤ 1) →
    trailer.offset.toNat = hostData.content.length
  content : data.content = hostData.content ++
    List.replicate (trailer.offset.toNat - hostData.content.length) 0 ++
    payloadData.content ++ Bytes.littleEndian 8 trailer.offset.toNat ++
    Bytes.littleEndian 8 payloadData.content.length
  mode : data.mode = hostData.mode
  placed : ∃ location id, before.files.place? out = some location ∧
    after.files.entry? location = some (.file id) ∧ after.files.file? id = some data
  free : after.files.Free (Path.temporary out)
  /-- Unless the way to the output leads through a link that stands at the output, which the bundle
  replaces. -/
  found : (before.files.without out).place? out = before.files.place? out →
    after.files.data? out = some data ∧ (Trailer.locate out after).1 = .ok (some trailer)
  /-- As long as its path leads to it, it is refused as the host of another bundle. -/
  refused : ∀ later : World, later.files.data? out = some data → ∀ payload' out' align',
    (embed out payload' out' align' later).1 =
      .error (.alreadyEmbedded out trailer.offset trailer.size)

/-- For all inputs and alignments, when the temporary name was free. -/
theorem embed_publishes_bundle {host payload out : Path} {align : Option UInt64} {world : World}
    {trailer : Trailer} (embedded : (embed host payload out align world).1 = .ok trailer)
    (free : world.files.Free (Path.temporary out)) :
    ∃ hostData payloadData data, Publishes host payload out align world
      (embed host payload out align world).2 trailer hostData payloadData data := by
  obtain ⟨built, attempt, verified, rfl, hrename⟩ := verified_of_embed embedded
  obtain ⟨place, name, hout, -, placed, hfile⟩ := attempt.placed_out hrename free
  obtain ⟨-, hsize⟩ := verified.layout
  obtain ⟨hpermits, hending⟩ := verified.opened
  have hoffset : attempt.parts.trailer.offset =
      payloadOffset (.ofNat attempt.hostData.content.length) align := by
    rw [attempt.prepared.parts]
  have hbounded : attempt.hostData.content.length < lengthLimit := by
    have := verified.bounded
    have := verified.layout.1
    omega
  -- What is read from the output depends on the content and the mode of it alone.
  have hlocated : ∀ later : World, later.files.data? out = some attempt.data →
      Trailer.located later.files out = .ok (some attempt.parts.trailer) := by
    intro later hlater
    obtain ⟨id, hopen, hcontent⟩ := openRead_of_data? hlater hpermits
    rw [Trailer.located_of_openRead hopen hcontent, hending]
  refine ⟨attempt.hostData, attempt.payloadData, attempt.data, attempt.prepared.data.1,
    attempt.prepared.data.2, hsize, ?_, ?_, ?_, verified.mode,
    ⟨place ++ [name], attempt.id, by rw [place?, hout], by rw [placed.names, if_pos rfl], hfile⟩,
    attempt.free_after hrename free, ?_, ?_⟩
  · rintro least rfl hleast
    rw [hoffset]
    exact payloadOffset_isLeast hbounded hleast
  · intro hleast
    rw [hoffset]
    exact payloadOffset_of_le_one hbounded hleast
  · rw [verified.content, ← hsize, Bundle.content, padding, Trailer.encode, List.append_assoc _ _
      (Bytes.littleEndian 8 attempt.parts.trailer.size.toNat)]
  · intro apart
    obtain ⟨⟨location, hresolve⟩, -⟩ := attempt.resolve_out hrename free apart
    have hdata : (embed host payload out align world).2.files.data? out = some attempt.data := by
      simp only [data?, hresolve, hfile]
    exact ⟨hdata, by rw [Trailer.locate_fst, hlocated _ hdata]⟩
  · intro later hlater payload' out' align'
    exact embed_of_located (hlocated later hlater) payload' out' align'

def fatImage : Bytes :=
  [0xca, 0xfe, 0xba, 0xbe, 0, 0, 0, 1] ++
    [0, 0, 0, 7, 0, 0, 0, 3, 0, 0, 0, 28, 0, 0, 0, 10, 0, 0, 0, 0] ++ List.replicate 10 0xcc

def fatHost : FileSystem where
  entries := [(["work"], .directory), (["work", "host"], .file 0), (["work", "m"], .file 1)]
  files := [(0, ⟨fatImage, 0o755⟩), (1, ⟨Magic.gguf ++ [1], 0o644⟩)]
  working := ["work"]

theorem data_fatHost : fatHost.data? "host" = some ⟨fatImage, 0o755⟩ ∧
    fatHost.data? "m" = some ⟨Magic.gguf ++ [1], 0o644⟩ := by
  decide +kernel

theorem embed_fatHost :
    (embed "host" "m" "out" (some 16) (.ofFiles fatHost)).1 = .ok ⟨48, 5⟩ := by
  decide +kernel

theorem free_fatHost : fatHost.Free (Path.temporary "out") := by
  intro location entry h
  have hmissing : fatHost.resolve false (Path.temporary "out") =
      .ok (.missing ["work"] "out.partial" false) := by
    decide +kernel
  rw [hmissing] at h
  cases h

theorem apart_fatHost : (fatHost.without "out").place? "out" = fatHost.place? "out" := by
  decide +kernel

/-- The bundle is written, and a second one on top of it is refused. -/
theorem embed_publishes_bundle_fatHost :
    let after := (embed "host" "m" "out" (some 16) (.ofFiles fatHost)).2
    (embed "host" "m" "out" (some 16) (.ofFiles fatHost)).1 = .ok ⟨48, 5⟩ ∧
      fatHost.Free (Path.temporary "out") ∧
      (fatHost.without "out").place? "out" = fatHost.place? "out" ∧
      (∃ data, after.files.data? "out" = some data ∧ data.mode = 0o755 ∧
        data.content = fatImage ++ List.replicate 10 0 ++ (Magic.gguf ++ [1]) ++
          [48, 0, 0, 0, 0, 0, 0, 0] ++ [5, 0, 0, 0, 0, 0, 0, 0]) ∧
      (Trailer.locate "out" after).1 = .ok (some ⟨48, 5⟩) ∧
      (embed "out" "m" "again" none after).1 = .error (.alreadyEmbedded "out" 48 5) := by
  intro after
  obtain ⟨hostData, payloadData, data, publishes⟩ :=
    embed_publishes_bundle embed_fatHost free_fatHost
  cases data_fatHost.1.symm.trans publishes.read
  cases data_fatHost.2.symm.trans publishes.copied
  obtain ⟨hdata, hlocate⟩ := publishes.found apart_fatHost
  exact ⟨embed_fatHost, free_fatHost, apart_fatHost, ⟨data, hdata, publishes.mode,
    publishes.content⟩, hlocate, publishes.refused after hdata "m" "again" none⟩

/-- The bundle replaces the link by which its own name goes, and no trailer is found there. -/
theorem locate_of_embed_linkedOutput :
    (embed "host" "m" "x/x" none (.ofFiles linkedOutput)).1 = .ok ⟨40, 4⟩ ∧
      linkedOutput.resolve false (Path.temporary "x/x") =
        .ok (.missing ["work"] "x.partial" false) ∧
      (Trailer.locate "x/x" (embed "host" "m" "x/x" none (.ofFiles linkedOutput)).2).1 =
        .error (.io (.system .notADirectory)) := by
  decide +kernel

end ModelBundle
