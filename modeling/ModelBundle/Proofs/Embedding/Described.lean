import ModelBundle.Proofs.Embedding.Published
import ModelBundle.Proofs.Inspecting

/-!
A bundle is described as the parts it was made from.  The boundary that an inspection takes from the
trailer is the one the writer used, so the executable it reports is read from the host and its
padding alone.
-/

namespace ModelBundle

open ModelBundle.Action ModelBundle.Bundle FileSystem

namespace Bundle

theorem take_content {host : Bytes} (payload : Bytes) {trailer : Trailer}
    (hhost : host.length ≤ trailer.offset.toNat) :
    (content host payload trailer).take trailer.offset.toNat = host ++ padding host trailer := by
  have hfront : (host ++ padding host trailer).length = trailer.offset.toNat := by
    rw [List.length_append, length_padding]
    omega
  rw [content, List.append_assoc, ← hfront, List.take_left]

theorem located_of_readHost {host payload out : Path} {world world' : World} {content : Bytes}
    (h : readHost host payload out world = (.ok content, world')) :
    Trailer.located world.files host = .ok none := by
  obtain ⟨found, looked, hlocate, h⟩ := bind_eq_ok h
  rw [← Trailer.locate_fst, hlocate]
  cases found with
  | none => rfl
  | some found => cases h

theorem bare_of_embed {host payload out : Path} {align : Option UInt64} {world : World}
    {trailer : Trailer} (embedded : (embed host payload out align world).1 = .ok trailer)
    {data : FileData} (hdata : world.files.data? host = some data) :
    ∃ handle, world.files.openRead host = .ok handle ∧
      world.files.content? handle = some data.content ∧ Trailer.ending? data.content = none := by
  rcases hembed : embed host payload out align world with ⟨result, after⟩
  rw [hembed] at embedded
  dsimp only at embedded
  subst embedded
  obtain ⟨parts, checked, hprepare, -⟩ := bind_eq_ok hembed
  obtain ⟨content, looked, hhost, -⟩ := bind_eq_ok hprepare
  obtain ⟨id, hopen, hcontent⟩ :=
    read_eq_ok_iff.mp (readWhole_eq_ok_iff.mp (read_of_readHost hhost)).1
  have hlocated := located_of_readHost hhost
  rw [Trailer.located_of_openRead hopen hcontent, Except.ok.injEq] at hlocated
  have hsame : data.content = content := by
    obtain ⟨location, found, hresolve, hfile, -⟩ := openRead_eq_file_iff.mp hopen
    simp only [data?, hresolve, hfile, Option.some.injEq] at hdata
    simp only [content?, hfile, hdata, Option.map_some, Option.some.injEq] at hcontent
    exact hcontent
  rw [hsame]
  exact ⟨_, hopen, hcontent, hlocated⟩

end Bundle

theorem Magic.startsView_take_iff (view : Bytes) :
    startsView (view.take 4) = true ↔ gguf <+: view := by
  rw [startsView_iff, leading, List.take_take, List.prefix_iff_eq_take]
  exact eq_comm

namespace Inspection

theorem ofContent_bare {content : Bytes} (h : Trailer.ending? content = none) :
    (ofContent content).host = (Image.summarize content).toOption := by
  simp only [ofContent, h, List.take_length]

theorem ofContent_bundle {host payload : Bytes} {trailer : Trailer}
    (hhost : host.length ≤ trailer.offset.toNat) (hsize : trailer.size.toNat = payload.length)
    (hending : Trailer.ending? (content host payload trailer) = some trailer) :
    ofContent (content host payload trailer) =
      { fileSize := trailer.offset.toNat + payload.length + 16
        host := (Image.summarize (host ++ padding host trailer)).toOption
        trailer := some trailer
        payloadMagic := some (payload.take 4)
        payloadValid := Magic.startsView (payload.take 4) } := by
  have hlength : (content host payload trailer).length =
      trailer.offset.toNat + payload.length + 16 := by
    rw [length_content, Nat.max_eq_right hhost]
    rfl
  simp only [ofContent, hending, hlength, take_content payload hhost, slice_content hhost hsize,
    Option.map_some, Option.any_some]

theorem overlayLength_of_le {inspection : Inspection} {image : ImageSummary}
    (himage : inspection.host = some image) (h : image.imageEnd.toNat ≤ inspection.fileSize) :
    ∃ overlay, inspection.overlayLength = some overlay ∧
      image.imageEnd.toNat + overlay = inspection.fileSize := by
  refine ⟨_, by rw [overlayLength, himage, Option.map_some], ?_⟩
  omega

/-- A report tells the parts that a bundle was made from; `bare` is the report on the host alone. -/
structure Describes (inspection bare : Inspection) (host payload : Bytes) (trailer : Trailer) :
    Prop where
  fileSize : inspection.fileSize = trailer.offset.toNat + payload.length + 16
  embedded : inspection.trailer = some trailer
  magic : inspection.payloadMagic = some (payload.take 4)
  valid : inspection.payloadValid = true ↔ Magic.gguf <+: payload
  image : inspection.host = (Image.summarize
    (host ++ List.replicate (trailer.offset.toNat - host.length) 0)).toOption
  unpadded : trailer.offset.toNat = host.length → inspection.host = bare.host
  overlay : ∀ image, inspection.host = some image →
    image.imageEnd.toNat ≤ trailer.offset.toNat →
      ∃ overlay, inspection.overlayLength = some overlay ∧
        image.imageEnd.toNat + overlay = inspection.fileSize ∧ payload.length + 16 ≤ overlay

end Inspection

/-- For all inputs and alignments, when the temporary name was free and the way to the output does
not lead through a link that stands at the output: what is reported about the output are the parts
it was made from.  The executable is read from exactly the host and its padding; without padding it
is the one that is reported about the host.  If the image ends in front of the payload, everything
behind the image is overlay, payload and trailer included. -/
theorem inspect_of_embed {host payload out : Path} {align : Option UInt64} {world : World}
    {trailer : Trailer} (page : Page)
    (embedded : (embed host payload out align world).1 = .ok trailer)
    (free : world.files.Free (Path.temporary out))
    (apart : (world.files.without out).place? out = world.files.place? out) :
    ∃ hostData payloadData inspection bare, world.files.data? host = some hostData ∧
      world.files.data? payload = some payloadData ∧
      (Inspection.inspect out page (embed host payload out align world).2).1 = .ok inspection ∧
      (Inspection.inspect host page world).1 = .ok bare ∧
      inspection.Describes bare hostData.content payloadData.content trailer := by
  obtain ⟨built, attempt, verified, rfl, hrename⟩ := verified_of_embed embedded
  obtain ⟨hopen, regular⟩ := verified.opened_out hrename free apart
  obtain ⟨hfront, hsize⟩ := verified.layout
  obtain ⟨handle, hbareOpen, hbareContent, hbareEnding⟩ :=
    bare_of_embed embedded attempt.prepared.data.1
  have hbareRegular : world.files.Regular handle attempt.hostData.content :=
    ⟨hbareContent, by
      have := verified.bounded
      omega⟩
  obtain ⟨_, hinspect, -⟩ := Inspection.inspect_regular page hopen regular
  obtain ⟨_, hbare, -⟩ := Inspection.inspect_regular page hbareOpen hbareRegular
  have hending := verified.opened.2
  rw [verified.content] at hinspect hending
  rw [Inspection.ofContent_bundle hfront hsize hending] at hinspect
  refine ⟨attempt.hostData, attempt.payloadData, _, _, attempt.prepared.data.1,
    attempt.prepared.data.2, by rw [hinspect], by rw [hbare],
    { fileSize := rfl
      embedded := rfl
      magic := rfl
      valid := Magic.startsView_take_iff _
      image := rfl
      unpadded := fun hunpadded => ?_
      overlay := fun image himage hend => ?_ }⟩
  · rw [Inspection.ofContent_bare hbareEnding]
    simp [padding, hunpadded]
  · obtain ⟨overlay, hoverlay, hsum⟩ := Inspection.overlayLength_of_le himage (by
      dsimp only
      omega)
    refine ⟨overlay, hoverlay, hsum, ?_⟩
    dsimp only at hsum
    omega

/-- The image ends at 38, ten zeros follow, and the overlay begins with these. -/
theorem inspect_of_embed_fatHost :
    (embed "host" "m" "out" (some 16) (.ofFiles fatHost)).1 = .ok ⟨48, 5⟩ ∧
      fatHost.Free (Path.temporary "out") ∧
      (fatHost.without "out").place? "out" = fatHost.place? "out" ∧
      ∃ inspection, (Inspection.inspect "out" .usual
          (embed "host" "m" "out" (some 16) (.ofFiles fatHost)).2).1 = .ok inspection ∧
        inspection.fileSize = 69 ∧ inspection.trailer = some ⟨48, 5⟩ ∧
        inspection.payloadMagic = some Magic.gguf ∧ inspection.payloadValid = true ∧
        inspection.host = some ⟨.fatMachO, true, 0, true, 38⟩ ∧
        inspection.overlayLength = some 31 := by
  obtain ⟨hostData, payloadData, inspection, bare, hhost, hpayload, hinspect, -, describes⟩ :=
    inspect_of_embed .usual embed_fatHost free_fatHost apart_fatHost
  cases data_fatHost.1.symm.trans hhost
  cases data_fatHost.2.symm.trans hpayload
  have himage : inspection.host = some ⟨.fatMachO, true, 0, true, 38⟩ := by
    have hsummary : (Image.summarize (fatImage ++ List.replicate 10 0)).toOption =
        some ⟨.fatMachO, true, 0, true, 38⟩ := by
      decide +kernel
    exact describes.image.trans hsummary
  obtain ⟨overlay, hlength, hsum, -⟩ := describes.overlay _ himage (by decide)
  have hrest : overlay = 31 := by
    rw [describes.fileSize] at hsum
    exact Nat.add_left_cancel (n := 38) hsum
  exact ⟨embed_fatHost, free_fatHost, apart_fatHost, inspection, hinspect, describes.fileSize,
    describes.embedded, describes.magic, describes.valid.mpr (List.prefix_append _ _), himage,
    hrest ▸ hlength⟩

/-- The bundle replaces the link by which its own name goes, and there is no file to describe. -/
theorem inspect_of_embed_linkedOutput :
    (embed "host" "m" "x/x" none (.ofFiles linkedOutput)).1 = .ok ⟨40, 4⟩ ∧
      linkedOutput.resolve false (Path.temporary "x/x") =
        .ok (.missing ["work"] "x.partial" false) ∧
      (Inspection.inspect "x/x" .usual
        (embed "host" "m" "x/x" none (.ofFiles linkedOutput)).2).1 =
        .error (.io (.system .notADirectory)) := by
  decide +kernel

end ModelBundle
