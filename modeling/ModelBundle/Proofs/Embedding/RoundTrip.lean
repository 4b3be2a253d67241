import Mathlib.Control.Monad.Basic
import ModelBundle.Proofs.Embedding.Inputs
import ModelBundle.Proofs.Loading.Embedded

/-!
A bundle is loaded as the payload it was made from.  Writing and reading meet at the output: it
leads to a regular file that ends in the trailer which was returned.
-/

namespace ModelBundle

open ModelBundle.Action ModelBundle.Bundle FileSystem

def FileSystem.Free (fs : FileSystem) (path : Path) : Prop :=
  ∀ location entry, fs.resolve false path ≠ .ok (.found location entry)

theorem FileSystem.Free.vacant {fs : FileSystem} {path : Path} (free : fs.Free path)
    {parent : Location} {name : String}
    (htarget : fs.target path = .ok (.named parent name false)) :
    fs.entry? (parent ++ [name]) = none := by
  cases hstood : fs.entry? (parent ++ [name]) with
  | none => rfl
  | some stood => exact absurd (resolve_name htarget hstood) (free _ _)

namespace Bundle

/-! What a success says about the temporary file just before it is renamed. -/

theorem opened_of_write {path : Path} {parts : Parts} {world world' : World} {done : Unit}
    (h : write path parts world = (.ok done, world')) :
    (∃ id opened, world.files.create path = .ok (id, opened) ∧ parts.payload ≠ .file id) ∧
      parts.trailer.offset.toNat + parts.trailer.size.toNat + Trailer.width < lengthLimit := by
  obtain ⟨id, entered, hstart, -⟩ := bind_eq_ok h
  have hopened : ∃ id opened, world.files.create path = .ok (id, opened) := by
    unfold onFiles at hstart
    split at hstart
    · exact ⟨_, _, ‹_›⟩
    · cases hstart
  obtain ⟨id, opened, hcreate⟩ := hopened
  by_cases aliased : parts.payload = .file id
  · rw [write_aliased hcreate aliased] at h
    cases h
  · obtain ⟨files, mode, -, -, hwrite⟩ := write_eq hcreate aliased
    rw [hwrite] at h
    exact ⟨⟨id, opened, hcreate, aliased⟩, (written_eq_ok (congrArg Prod.fst h)).2.2⟩

theorem located_of_verify {path : Path} {trailer : Trailer} {world world' : World} {done : Unit}
    (h : verify path trailer world = (.ok done, world')) :
    Trailer.located world.files path = .ok (some trailer) := by
  obtain ⟨found, looked, hlocate, h⟩ := bind_eq_ok h
  split at h
  · rename_i hsame
    rw [← Trailer.locate_fst, hlocate, hsame]
  · obtain ⟨_, _, _, h⟩ := bind_eq_ok h
    cases h

theorem verified_of_build {host temporary : Path} {parts : Parts} {world built : World}
    {done : Unit} (h : build host temporary parts world = (.ok done, built)) :
    (∃ id opened, world.files.create temporary = .ok (id, opened) ∧ parts.payload ≠ .file id) ∧
      parts.trailer.offset.toNat + parts.trailer.size.toNat + Trailer.width < lengthLimit ∧
      Trailer.located built.files temporary = .ok (some parts.trailer) := by
  obtain ⟨_, wrote, hwrite, h⟩ := bind_eq_ok h
  obtain ⟨_, found, -, h⟩ := bind_eq_ok h
  obtain ⟨_, permitted, -, hverify⟩ := bind_eq_ok h
  have hfiles := keeps_files_verify temporary parts.trailer permitted
  rw [hverify] at hfiles
  obtain ⟨hopened, hfinish⟩ := opened_of_write hwrite
  refine ⟨hopened, hfinish, ?_⟩
  rw [hfiles]
  exact located_of_verify hverify

theorem publish_eq_ok {host out : Path} {parts : Parts} {world published : World} {done : Unit}
    (h : publish host out parts world = (.ok done, published)) :
    ∃ built, build host (Path.temporary out) parts world = (.ok (), built) ∧
      built.files.rename (Path.temporary out) out = .ok published.files := by
  rw [publish_apply] at h
  rcases hbuild : build host (Path.temporary out) parts world with ⟨error | done, built⟩
  · rw [hbuild] at h
    cases h
  · rw [hbuild] at h
    refine ⟨built, rfl, ?_⟩
    dsimp only at h
    split at h
    · cases h
    · rename_i hrename
      cases h
      exact hrename

/-! The layout of a bundle. -/

theorem length_padding (host : Bytes) (trailer : Trailer) :
    (padding host trailer).length = trailer.offset.toNat - host.length := by
  simp [padding]

theorem length_content (host payload : Bytes) (trailer : Trailer) :
    (content host payload trailer).length =
      max host.length trailer.offset.toNat + payload.length + Trailer.width := by
  simp only [content, List.length_append, length_padding, Trailer.encode,
    Bytes.length_littleEndian, Trailer.width]
  omega

theorem slice_content {host payload : Bytes} {trailer : Trailer}
    (hhost : host.length ≤ trailer.offset.toNat) (hsize : trailer.size.toNat = payload.length) :
    Bytes.slice (content host payload trailer) trailer.offset.toNat trailer.size.toNat =
      payload := by
  have hfront : (host ++ padding host trailer).length = trailer.offset.toNat := by
    rw [List.length_append, length_padding]
    omega
  rw [Bytes.slice, content, List.append_assoc, ← hfront, List.drop_left, hsize, List.take_left]

theorem payloadOffset_granularity (page : Page) (hostSize : UInt64) :
    payloadOffset hostSize (some (Mapping.granularity page)) % Mapping.granularity page = 0 := by
  have hdvd : (Mapping.granularity page).toNat ∣ 2 ^ 64 := by
    rw [Mapping.toNat_granularity, Nat.one_shiftLeft]
    exact Nat.pow_dvd_pow 2 (Nat.le_of_lt page.bits.isLt)
  apply UInt64.toNat_inj.mp
  rw [payloadOffset, UInt64.toNat_mod]
  split
  · -- A product that wraps does so at a multiple of the granularity.
    rw [UInt64.toNat_mul, Nat.mod_mod_of_dvd _ hdvd, Nat.mul_mod_left]
    rfl
  · rename_i hone
    have hsmall : (Mapping.granularity page).toNat = 1 := by
      have hpos := Word.toNat_pos_iff.mpr (Mapping.granularity_ne_zero page)
      have hle := UInt64.le_iff_toNat_le.mp (UInt64.not_lt.mp hone)
      have : (1 : UInt64).toNat = 1 := rfl
      omega
    rw [hsmall, Nat.mod_one]
    rfl

namespace Draft

variable {files built : FileSystem} {out : Path}

theorem placed_out (draft : Draft files out built) {after : FileSystem}
    (hrename : built.rename (Path.temporary out) out = .ok after)
    (free : files.Free (Path.temporary out)) :
    ∃ place name, files.target out = .ok (.named place name false) ∧
      files.entry? (place ++ [name]) ≠ some .directory ∧
      Placed files after (place ++ [name]) draft.id ∧
      after.file? draft.id = some draft.data := by
  obtain ⟨parent, htarget⟩ := draft.target
  obtain ⟨place, name, entry, hout, hdirectory, -, hentry, hnames, hworking, hfiles⟩ :=
    draft.renamed htarget (not_twins_of_vacant htarget (free.vacant htarget)) hrename
  refine ⟨place, name, hout, hdirectory, ?_, ?_⟩
  · exact draft.placed htarget (free.vacant htarget) hentry hnames hworking hfiles
  · rw [file?, hfiles]
    exact draft.rewritten.written

end Draft

namespace Attempt

variable {files built : FileSystem} {host payload out : Path} {align : Option UInt64}

/-- The temporary file holds a whole bundle with the permissions of the host, and its trailer was
found there. -/
structure Verified (attempt : Attempt files host payload out align built) : Prop where
  content : attempt.data.content =
    content attempt.hostData.content attempt.payloadData.content attempt.parts.trailer
  mode : attempt.data.mode = attempt.hostData.mode
  bounded : attempt.parts.trailer.offset.toNat + attempt.parts.trailer.size.toNat + Trailer.width <
    lengthLimit
  located : Trailer.located built (Path.temporary out) = .ok (some attempt.parts.trailer)

variable {attempt : Attempt files host payload out align built}

theorem Verified.opened (verified : attempt.Verified) :
    permits attempt.data ownerRead = true ∧
      Trailer.ending? attempt.data.content = some attempt.parts.trailer := by
  obtain ⟨handle, found, hopen, hcontent, -⟩ := Trailer.located_some verified.located
  obtain ⟨location, hcreated⟩ := leads?_eq_some_iff.mp attempt.created.found
  have hresolve : built.resolve true (Path.temporary out) =
      .ok (.found location (.file attempt.id)) := by
    rw [← hcreated]
    exact resolve_congr attempt.entry?_built attempt.rewritten.working _ _
  have hhandle : permits attempt.data ownerRead = true ∧ handle = .file attempt.id := by
    simp only [openRead, hresolve, attempt.rewritten.written] at hopen
    split at hopen
    · cases hopen
      exact ⟨‹_›, rfl⟩
    · cases hopen
  obtain ⟨hpermits, rfl⟩ := hhandle
  refine ⟨hpermits, ?_⟩
  have hdata : built.content? (.file attempt.id) = some attempt.data.content := by
    simp only [content?, attempt.rewritten.written, Option.map_some]
  have hlocated := verified.located
  rw [Trailer.located_of_openRead hopen hdata] at hlocated
  exact Except.ok.inj hlocated

theorem Verified.layout (verified : attempt.Verified) :
    attempt.hostData.content.length ≤ attempt.parts.trailer.offset.toNat ∧
      attempt.parts.trailer.size.toNat = attempt.payloadData.content.length := by
  have hcheck := Trailer.check_of_ending verified.opened.2
  have hsum := (Trailer.check_eq_ok_iff.mp hcheck).2.2.1
  rw [verified.content, length_content] at hsum
  have hsize : attempt.parts.trailer.size.toNat ≤ attempt.payloadData.content.length := by
    rw [attempt.prepared.parts]
    exact (UInt64.toNat_ofNat' ▸ Nat.mod_le _ _)
  omega

theorem Verified.slice (verified : attempt.Verified) :
    Bytes.slice attempt.data.content attempt.parts.trailer.offset.toNat
      attempt.parts.trailer.size.toNat = attempt.payloadData.content := by
  rw [verified.content]
  exact slice_content verified.layout.1 verified.layout.2

/-- The output leads to the new file, unless its own way went through the link that stood there:
taking that away must leave the directory where it was. -/
theorem resolve_out (attempt : Attempt files host payload out align built) {after : FileSystem}
    (hrename : built.rename (Path.temporary out) out = .ok after)
    (free : files.Free (Path.temporary out))
    (apart : (files.without out).place? out = files.place? out) :
    (∃ location, after.resolve true out = .ok (.found location (.file attempt.id))) ∧
      after.file? attempt.id = some attempt.data := by
  obtain ⟨place, name, hout, hdirectory, placed, hfile⟩ := attempt.placed_out hrename free
  have hsmall : (files.without out).target out = .ok (.named place name false) := by
    have hplace : (files.without out).place? out = some (place ++ [name]) := by
      rw [apart, place?, hout]
    unfold place? at hplace
    split at hplace
    · rename_i place' name' slash htarget'
      obtain ⟨rfl, rfl⟩ := List.append_singleton_inj.mp (Option.some.inj hplace)
      have hslash := (target_eq_named_iff.mp htarget').2.2.2.2
      have hclosed := (target_eq_named_iff.mp hout).2.2.2.2
      rw [htarget', hslash, ← hclosed]
    · cases hplace
  -- What led to the directory before, other than through the output itself, still does.
  have hafter : after.target out = .ok (.named place name false) := by
    refine target_mono ?_ (placed.working.trans (file?_without files out 0).2.symm) hsmall
    intro location found hfound
    rw [entry?_without hout hdirectory] at hfound
    rw [placed.names]
    split at hfound
    · cases hfound
    · rw [if_neg ‹_›]
      exact hfound
  have hentry : after.entry? (place ++ [name]) = some (.file attempt.id) := by
    rw [placed.names, if_pos rfl]
  exact ⟨⟨_, resolve_name_of_ne_link hafter hentry (fun _ h => by cases h) true⟩, hfile⟩

theorem Verified.opened_out (verified : attempt.Verified) {after : FileSystem}
    (hrename : built.rename (Path.temporary out) out = .ok after)
    (free : files.Free (Path.temporary out))
    (apart : (files.without out).place? out = files.place? out) :
    after.openRead out = .ok (.file attempt.id) ∧
      after.Regular (.file attempt.id) attempt.data.content := by
  obtain ⟨⟨location, hresolve⟩, hfile⟩ := attempt.resolve_out hrename free apart
  have hcheck := Trailer.check_of_ending verified.opened.2
  have hbounded := verified.bounded
  refine ⟨openRead_eq_file_iff.mpr ⟨location, _, hresolve, hfile, verified.opened.1⟩, ?_, ?_⟩
  · simp only [content?, hfile, Option.map_some]
  · have hsum := (Trailer.check_eq_ok_iff.mp hcheck).2.2.1
    omega

end Attempt

theorem verified_of_embed {host payload out : Path} {align : Option UInt64} {world : World}
    {trailer : Trailer} (h : (embed host payload out align world).1 = .ok trailer) :
    ∃ built, ∃ attempt : Attempt world.files host payload out align built,
      attempt.Verified ∧ attempt.parts.trailer = trailer ∧
      built.rename (Path.temporary out) out = .ok (embed host payload out align world).2.files := by
  rcases hembed : embed host payload out align world with ⟨result, after⟩
  rw [hembed] at h
  dsimp only at h
  subst h
  obtain ⟨parts, checked, hprepare, h⟩ := bind_eq_ok hembed
  obtain ⟨done, published, hpublish, h⟩ := bind_eq_ok h
  cases h
  have hfiles := keeps_files_prepare host payload out align world
  rw [hprepare] at hfiles
  obtain ⟨hostId, payloadId, hostData, payloadData, prepared⟩ := prepared_of_prepare hprepare
  rw [← hfiles] at prepared ⊢
  obtain ⟨built, hbuild, hrename⟩ := publish_eq_ok hpublish
  obtain ⟨⟨id, opened, hcreate, -⟩, hbounded, hlocated⟩ := verified_of_build hbuild
  obtain ⟨data, hwritten, hgrown, hdone⟩ := build_spec prepared hcreate
  rw [hbuild] at hwritten hdone
  let attempt : Attempt checked.files host payload out align built.files :=
    ⟨⟨id, opened, hcreate, data, hwritten⟩, parts, hostId, payloadId, hostData, payloadData,
      prepared, hgrown⟩
  have hcontent : data.content = content hostData.content payloadData.content parts.trailer := by
    rw [hdone () rfl]
  have hmode : data.mode = hostData.mode := by
    rw [hdone () rfl]
  exact ⟨built.files, attempt, ⟨hcontent, hmode, hbounded, hlocated⟩, rfl, hrename⟩

end Bundle

/-- For all inputs, alignments and settings: what was embedded is loaded, from where the returned
trailer says, unless it lacks the magic and the loader insists on that.  The temporary name must
have been free.  The way to the output must not lead through a link that stands at the output,
because the bundle replaces it. -/
theorem load_of_embed {host payload out : Path} {align : Option UInt64} {world : World}
    {trailer : Trailer} {settings : LoadSettings} {mapper : Mapper}
    (embedded : (embed host payload out align world).1 = .ok trailer)
    (free : world.files.Free (Path.temporary out))
    (apart : (world.files.without out).place? out = world.files.place? out)
    (faithful : mapper.FaithfulOn (embed host payload out align world).2.files)
    (fits : Loader.Fits settings mapper trailer.size) :
    ∃ hostData payloadData, world.files.data? host = some hostData ∧
      world.files.data? payload = some payloadData ∧
      trailer.offset = payloadOffset (.ofNat hostData.content.length) align ∧
      trailer.size.toNat = payloadData.content.length ∧
      let loaded := Loader.load (some out)
        ((embed host payload out align world).2, .new settings mapper)
      if payloadData.content.take 4 ≠ Magic.gguf ∧ settings.policy = .abort then
        loaded.1 = .error (.invalidMagic (payloadData.content.take 4))
      else ∃ id model, loaded.1 = .ok id ∧ loaded.2.1.model? id = some model ∧
        model.bytes = payloadData.content ∧
        model.source = .embedded out trailer.offset trailer.size ∧
        model.valid = decide (payloadData.content.take 4 = Magic.gguf) ∧
        ∀ page, mapper = .system page →
          model.payload.kind = (if settings.shouldMap trailer.size then .mapped else .buffered) ∧
          (align = some (Mapping.granularity page) →
            ∀ region, model.payload = .mapped region → region.adjustment = 0) := by
  -- The writing side: the output is a regular file that ends in the trailer.
  obtain ⟨built, attempt, verified, rfl, hrename⟩ := verified_of_embed embedded
  obtain ⟨hopen, regular⟩ := verified.opened_out hrename free apart
  have hending := verified.opened.2
  have hslice := verified.slice
  have hoffset : attempt.parts.trailer.offset =
      payloadOffset (.ofNat attempt.hostData.content.length) align := by
    rw [attempt.prepared.parts]
  refine ⟨attempt.hostData, attempt.payloadData, attempt.prepared.data.1, attempt.prepared.data.2,
    hoffset, verified.layout.2, ?_⟩
  -- The reading side: whatever ends in that trailer is loaded.
  obtain ⟨asked, hasked, hload⟩ :=
    Loader.load_embedded .new rfl hopen regular hending faithful fits
  rw [hslice, Loader.judged_eq] at hload
  dsimp only
  split
  · rw [if_pos ‹_›] at hload
    exact hload
  · rw [if_neg ‹_›] at hload
    obtain ⟨id, hok, hmodel⟩ := hload
    obtain ⟨-, hpos, hsum, -⟩ := Trailer.check_eq_ok_iff.mp (Trailer.check_of_ending hending)
    have hregular := hasked ▸ regular
    have hbytes := Loader.bytes_brought settings asked (hasked ▸ faithful)
      hregular.opened attempt.parts.trailer.offset attempt.parts.trailer.size
    rw [hslice] at hbytes
    have hrange : attempt.parts.trailer.offset.toNat + attempt.parts.trailer.size.toNat ≤
        attempt.data.content.length := by omega
    refine ⟨id, _, hok, hmodel, hbytes, rfl, rfl, ?_⟩
    rintro page rfl
    have hsystem :=
      Loader.brought_system page settings hregular hpos hrange attempt.payloadData.content
    refine ⟨hsystem.1, ?_⟩
    rintro rfl region hmapped
    rw [hsystem.2 region hmapped, hoffset]
    exact payloadOffset_granularity page _

/-- A host of one byte, and a payload that ends in a trailer of its own: by itself it would be a
bundle with one byte in front and a payload of three. -/
def nested : FileSystem where
  entries := [(["work"], .directory), (["work", "host"], .file 0), (["work", "m"], .file 1)]
  files := [(0, ⟨[0x7f], 0o755⟩), (1, ⟨Magic.gguf ++ Trailer.encode ⟨1, 3⟩, 0o644⟩)]
  working := ["work"]

theorem load_of_embed_nested :
    Trailer.ending? (Magic.gguf ++ Trailer.encode ⟨1, 3⟩) = some ⟨1, 3⟩ ∧
      (embed "host" "m" "out" (some 8) (.ofFiles nested)).1 = .ok ⟨8, 20⟩ ∧
      nested.Free "out.partial" ∧
      (nested.without "out").place? "out" = nested.place? "out" ∧
      ∃ id model, (Loader.load (some "out") ((embed "host" "m" "out" (some 8) (.ofFiles nested)).2,
          .new .default .system)).1 = .ok id ∧
        (Loader.load (some "out") ((embed "host" "m" "out" (some 8) (.ofFiles nested)).2,
          .new .default .system)).2.1.model? id = some model ∧
        model.bytes = Magic.gguf ++ Trailer.encode ⟨1, 3⟩ ∧
        model.source = .embedded "out" 8 20 ∧ model.valid = true ∧
        model.payload.kind = .mapped := by
  have hembed : (embed "host" "m" "out" (some 8) (.ofFiles nested)).1 = .ok ⟨8, 20⟩ := by
    decide +kernel
  have hfree : nested.Free "out.partial" := by
    intro location entry h
    have hmissing : nested.resolve false "out.partial" =
        .ok (.missing ["work"] "out.partial" false) := by
      decide +kernel
    rw [hmissing] at h
    cases h
  have hplace : (nested.without "out").place? "out" = nested.place? "out" := by decide +kernel
  have hfits : Loader.Fits .default .system 20 := .inl ⟨⟨_, rfl⟩, rfl⟩
  obtain ⟨hostData, payloadData, -, hpayload, -, -, hload⟩ :=
    load_of_embed hembed hfree hplace (Mapper.system_faithfulOn _ _) hfits
  have hread : nested.data? "m" = some ⟨Magic.gguf ++ Trailer.encode ⟨1, 3⟩, 0o644⟩ := by
    decide +kernel
  cases hread.symm.trans hpayload
  rw [if_neg (by decide)] at hload
  obtain ⟨id, model, hok, hmodel, hbytes, hsource, hvalid, hsystem⟩ := hload
  exact ⟨rfl, hembed, hfree, hplace, id, model, hok, hmodel, hbytes, hsource, hvalid,
    (hsystem _ rfl).1⟩

def linkedOutput : FileSystem where
  entries := [(["work"], .directory), (["work", "host"], .file 0), (["work", "m"], .file 1),
    (["work", "x"], .link ".")]
  files := [(0, ⟨List.replicate 40 0x11, 0o644⟩), (1, ⟨Magic.gguf, 0o644⟩)]
  working := ["work"]

/-- The bundle replaces the link by which its own name goes, and that name leads nowhere then. -/
theorem load_of_embed_linkedOutput :
    (embed "host" "m" "x/x" none (.ofFiles linkedOutput)).1 = .ok ⟨40, 4⟩ ∧
      linkedOutput.resolve false (Path.temporary "x/x") =
        .ok (.missing ["work"] "x.partial" false) ∧
      (Loader.load (some "x/x") ((embed "host" "m" "x/x" none (.ofFiles linkedOutput)).2,
        .new .default .system)).1 = .error .noModel := by
  decide +kernel

end ModelBundle
