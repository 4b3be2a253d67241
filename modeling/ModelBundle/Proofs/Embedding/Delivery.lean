import ModelBundle.Proofs.Containers
import ModelBundle.Proofs.Embedding.Published

/-!
Embedding a payload that changes after its size was seen.  The size in the trailer is the one that
was seen, the bytes are those that are delivered, and the file is as long as was written; the three
agree in every bundle that gets its name.
-/

namespace ModelBundle

open ModelBundle.Action ModelBundle.Bundle FileSystem

namespace FileSystem

def overwrite (files : FileSystem) (path : Path) (content : Bytes) : FileSystem :=
  match files.leads? path with
  | some id => files.setContent id content
  | none => files

def Bounded (files : FileSystem) (path : Path) : Prop :=
  ∀ data, files.data? path = some data → data.content.length < lengthLimit

section Overwrite

variable (files : FileSystem) (path : Path) (content : Bytes)

@[simp] theorem entry?_overwrite (location : Location) :
    entry? (files.overwrite path content) location = files.entry? location := by
  unfold overwrite
  split <;> rfl

@[simp] theorem working_overwrite : (files.overwrite path content).working = files.working := by
  unfold overwrite
  split <;> rfl

@[simp] theorem leads?_overwrite (other : Path) :
    (files.overwrite path content).leads? other = files.leads? other := by
  unfold leads?
  rw [resolve_congr (files.entry?_overwrite path content) (files.working_overwrite path content)]

theorem file?_overwrite {id : Nat} {data : FileData} (h : files.file? id = some data) :
    ∃ now, (files.overwrite path content).file? id = some { data with content := now } ∧
      (files.leads? path = some id → now = content) := by
  cases hpath : files.leads? path with
  | none =>
    refine ⟨data.content, ?_, fun h => by cases h⟩
    rw [overwrite, hpath]
    exact h
  | some other =>
    have hsame : files.overwrite path content = files.setContent other content := by
      rw [overwrite, hpath]
    rw [hsame, file?_setContent]
    by_cases heq : other = id
    · refine ⟨content, ?_, fun _ => rfl⟩
      rw [if_pos heq, heq, h]
      rfl
    · refine ⟨data.content, ?_, fun h => absurd (Option.some.inj h) heq⟩
      rw [if_neg heq, h]

end Overwrite

end FileSystem

namespace Bundle

/-- An embedding during which the files change: after the inputs were checked, and before anything
is written. -/
def embedAmid (change : FileSystem → FileSystem) (host payload out : Path)
    (align : Option UInt64) : Action World Trailer := do
  let parts ← prepare host payload out align
  Action.modify fun world => { world with files := change world.files }
  publish host out parts
  Action.modify fun world =>
    world.note (.embedded parts.trailer.size parts.trailer.offset out)
  return parts.trailer

theorem embedAmid_apply (change : FileSystem → FileSystem) (host payload out : Path)
    (align : Option UInt64) (world : World) :
    embedAmid change host payload out align world = match prepare host payload out align world with
      | (.error error, checked) => (.error error, checked)
      | (.ok parts, checked) =>
        match publish host out parts { checked with files := change checked.files } with
        | (.error error, left) => (.error error, left)
        | (.ok (), left) => (.ok parts.trailer,
          left.note (.embedded parts.trailer.size parts.trailer.offset out)) := by
  simp only [embedAmid, bind_apply]
  rcases prepare host payload out align world with ⟨error | parts, checked⟩
  · simp only
  · simp only [modify_apply, pure_apply]
    rcases publish host out parts { checked with files := change checked.files }
      with ⟨error | done, left⟩ <;> simp only

theorem embedAmid_id : embedAmid id = embed := by
  funext host payload out align world
  rw [embedAmid_apply, embed_apply]
  rcases prepare host payload out align world with ⟨error | parts, checked⟩ <;> rfl

/-! What the parts say before anything is written. -/

section Prepared

variable {files : FileSystem} {host payload : Path} {align : Option UInt64} {parts : Parts}
  {hostId payloadId : Nat} {hostData payloadData : FileData}

theorem Prepared.trailer_eq
    (prepared : Prepared files host payload align parts hostId payloadId hostData payloadData)
    (bounded : ∀ path ∈ [host, payload], files.Bounded path) :
    hostData.content.length ≤ parts.trailer.offset.toNat ∧
      parts.trailer.size.toNat = payloadData.content.length := by
  have hhost := bounded host (by simp) _ prepared.data.1
  have hpayload := bounded payload (by simp) _ prepared.data.2
  have hlimit : lengthLimit < UInt64.size := by decide
  rw [prepared.parts]
  refine ⟨le_payloadOffset hhost align, ?_⟩
  exact UInt64.toNat_ofNat_of_lt' (by omega)

theorem Prepared.sound
    (prepared : Prepared files host payload align parts hostId payloadId hostData payloadData)
    (bounded : ∀ path ∈ [host, payload], files.Bounded path) :
    0 < parts.host.length ∧ parts.host.length ≤ parts.trailer.offset.toNat ∧
      0 < parts.trailer.size.toNat := by
  have hhost : parts.host = hostData.content := by
    rw [prepared.parts]
  obtain ⟨hoffset, hsize⟩ := prepared.trailer_eq bounded
  have hnonempty := prepared.nonempty
  have hmagic := prepared.magic
  rw [hhost]
  exact ⟨hnonempty, hoffset, by omega⟩

theorem Prepared.head
    (prepared : Prepared files host payload align parts hostId payloadId hostData payloadData) :
    parts.head.length = 4 := by
  rw [prepared.parts]
  exact (List.length_take ..).trans (Nat.min_eq_left prepared.magic)

end Prepared

theorem ends_of_written {parts : Parts} {rest : Bytes} {done : Unit}
    (hwritten : (written parts rest).1 = .ok done) (hhost : 0 < parts.host.length)
    (hoffset : parts.host.length ≤ parts.trailer.offset.toNat)
    (hsize : 0 < parts.trailer.size.toNat) : parts.trailer.Ends (written parts rest).2 := by
  obtain ⟨hcontent, hdelivered, -⟩ := written_eq_ok hwritten
  have hwidth : Trailer.width = 16 := rfl
  have hlength := length_content parts.host (parts.head ++ rest) parts.trailer
  rw [hcontent]
  refine ⟨by omega, ?_, by omega, hsize, by omega⟩
  rw [hlength, content, ← Trailer.encode]
  apply List.drop_left'
  simp only [List.length_append, length_padding] at hdelivered ⊢
  omega

namespace Draft

variable {files built : FileSystem} {out : Path}

theorem target_built (draft : Draft files out built) :
    ∃ parent, files.target (Path.temporary out) =
        .ok (.named parent (Path.stem out ++ ".partial") false) ∧
      built.target (Path.temporary out) =
        .ok (.named parent (Path.stem out ++ ".partial") false) := by
  obtain ⟨parent, htarget⟩ := draft.target
  exact ⟨parent, htarget, target_mono (fun _ _ h => draft.kept h) draft.working htarget⟩

theorem data?_built (draft : Draft files out built) :
    built.data? (Path.temporary out) = some draft.data := by
  have hleads : built.leads? (Path.temporary out) = some draft.id := by
    rw [← draft.created.found]
    unfold leads?
    rw [resolve_congr draft.entry?_built draft.rewritten.working]
  rw [data?_eq_bind, hleads]
  exact draft.rewritten.written

theorem located (draft : Draft files out built) (hpermits : permits draft.data ownerRead = true) :
    Trailer.located built (Path.temporary out) = .ok (Trailer.ending? draft.data.content) := by
  obtain ⟨id, hopen, hcontent⟩ := openRead_of_data? draft.data?_built hpermits
  exact Trailer.located_of_openRead hopen hcontent

theorem free_discarded (draft : Draft files out built) :
    (built.without (Path.temporary out)).Free (Path.temporary out) := by
  obtain ⟨parent, htarget, hbuilt⟩ := draft.target_built
  obtain ⟨hlast, hslash⟩ := Path.getLast?_temporary out
  obtain ⟨hdot, hdots⟩ := Path.stem_ne_dot out
  apply free_of_vacant hlast hslash hdot hdots
  intro other hother
  have hsame := target_mono (fun _ _ h => entry?_of_without h)
    (file?_without built (Path.temporary out) 0).2.symm hother
  rw [hbuilt] at hsame
  cases hsame
  rw [draft.entry?_discarded htarget, if_pos rfl]

theorem apart_of_free (draft : Draft files out built) (free : files.Free (Path.temporary out))
    {place : Location} (hplace : files.place? out = some place) :
    draft.opened.entry? place ≠ some (.file draft.id) := by
  obtain ⟨parent, htarget, -⟩ := draft.target_built
  rcases draft.occupied_or_vacant htarget with ⟨entry, -, hstood, -⟩ | ⟨-, hentries, hunnamed⟩
  · cases hstood.symm.trans (free.vacant htarget)
  · rw [← draft.entry?_built, entry?_set (by simp) hentries, if_neg (place_ne_temporary hplace)]
    exact hunnamed place

theorem spares_discarded (draft : Draft files out built) {place : Location}
    (hplace : files.place? out = some place)
    (apart : draft.opened.entry? place ≠ some (.file draft.id)) :
    (built.without (Path.temporary out)).at? place = files.at? place := by
  obtain ⟨parent, htarget, -⟩ := draft.target_built
  have hentry : FileSystem.entry? (built.without (Path.temporary out)) place =
      files.entry? place := by
    rw [draft.entry?_discarded htarget, if_neg (place_ne_temporary hplace), draft.entry?_built]
    cases hopened : draft.opened.entry? place with
    | none =>
      cases hstood : files.entry? place with
      | none => rfl
      | some entry => cases hopened.symm.trans (draft.created.kept place entry hstood)
    | some entry =>
      rcases draft.created.new place entry hopened with rfl | hstood
      · exact absurd hopened apart
      · exact hstood.symm
  rw [at?, at?, hentry]
  rcases hstood : files.entry? place with _ | (id | _ | target)
  · simp only [Option.map_none]
  · have hne : id ≠ draft.id := by
      rintro rfl
      exact apart (draft.created.kept place _ hstood)
    simp only [Option.map_some, Entry.number?, Option.bind_some, draft.others hne,
      (file?_without built (Path.temporary out) id).1]
  · simp only [Option.map_some, Entry.number?, Option.bind_none]
  · simp only [Option.map_some, Entry.number?, Option.bind_none]

theorem file_renamed (draft : Draft files out built) {after : FileSystem}
    (hrename : built.rename (Path.temporary out) out = .ok after) :
    ∃ place, files.place? out = some place ∧ after.file? draft.id = some draft.data ∧
      ∀ id, after.entry? place = some (.file id) → id = draft.id := by
  obtain ⟨parent, htarget, hbuilt⟩ := draft.target_built
  have hfound : ∀ id, built.entry? (parent ++ [Path.stem out ++ ".partial"]) = some (.file id) →
      id = draft.id := by
    intro id hentry
    have hresolve := resolve_name_of_ne_link hbuilt hentry (fun _ h => by cases h) true
    rw [resolve_congr draft.entry?_built draft.rewritten.working] at hresolve
    have hfound := draft.created.found
    rw [leads?, hresolve] at hfound
    exact Option.some.inj hfound
  by_cases twins : files.Twins (Path.temporary out) out
  · obtain rfl := draft.renamed_twins twins hrename
    obtain ⟨here, place, id, hhere, hplace, hown, hother⟩ := twins
    simp only [place?, htarget, Option.some.injEq] at hhere
    subst hhere
    refine ⟨place, hplace, draft.rewritten.written, fun other hid => ?_⟩
    cases (draft.kept hother).symm.trans hid
    exact hfound id (draft.kept hown)
  · obtain ⟨above, name, entry, hout, -, -, hentry, hnames, -, hfiles⟩ :=
      draft.renamed htarget twins hrename
    refine ⟨above ++ [name], by rw [place?, hout], ?_, fun id hid => ?_⟩
    · rw [file?, hfiles]
      exact draft.rewritten.written
    · rw [hnames, if_pos rfl] at hid
      cases hid
      exact hfound id hentry

end Draft

theorem permits_of_prepare {host payload out : Path} {align : Option UInt64} {world checked : World}
    {parts : Parts} (h : prepare host payload out align world = (.ok parts, checked))
    {data : FileData} (hdata : world.files.data? host = some data) :
    permits data ownerRead = true := by
  obtain ⟨content, looked, hhost, -⟩ := bind_eq_ok h
  obtain ⟨id, hopen, -⟩ := read_eq_ok_iff.mp (readWhole_eq_ok_iff.mp (read_of_readHost hhost)).1
  obtain ⟨location, found, hresolve, hfound, hpermits⟩ := openRead_eq_file_iff.mp hopen
  have hsame : world.files.data? host = some found := by
    simp only [data?, hresolve, hfound]
  cases hdata.symm.trans hsame
  exact hpermits

/-- A draft is brought to its end as it was written.  One that was not written whole is given up; in
one that was, the trailer is found, and only the renaming is left. -/
def Draft.Finishes {files built : FileSystem} {out : Path} (draft : Draft files out built)
    (trailer : Trailer) (ended : Except LoadError Unit) {α : Type} (value : α)
    (result : Except LoadError α) (after : FileSystem) : Prop :=
  match ended with
  | .error error => result = .error error ∧ after = built.without (Path.temporary out)
  | .ok () => trailer.Ends draft.data.content ∧
      Trailer.located built (Path.temporary out) = .ok (some trailer) ∧
      match built.rename (Path.temporary out) out with
      | .error fault => result = .error (.io fault) ∧ after = built
      | .ok renamed => result = .ok value ∧ after = renamed

theorem Draft.Finishes.map {files built : FileSystem} {out : Path} {draft : Draft files out built}
    {trailer : Trailer} {ended : Except LoadError Unit} {α β : Type} {value : α}
    {result : Except LoadError α} {after : FileSystem}
    (h : draft.Finishes trailer ended value result after) (f : α → β) :
    draft.Finishes trailer ended (f value) (result.map f) after := by
  unfold Finishes at h ⊢
  split at h
  · obtain ⟨rfl, hafter⟩ := h
    exact ⟨rfl, hafter⟩
  · obtain ⟨ends, hlocated, h⟩ := h
    refine ⟨ends, hlocated, ?_⟩
    split at h
    · obtain ⟨rfl, hafter⟩ := h
      exact ⟨rfl, hafter⟩
    · obtain ⟨rfl, hafter⟩ := h
      exact ⟨rfl, hafter⟩

theorem publish_ends {host out : Path} {parts : Parts} {world : World} {hostId id : Nat}
    {hostData : FileData} {opened : FileSystem} (hhost : world.files.leads? host = some hostId)
    (hhostFile : world.files.file? hostId = some hostData)
    (hpermits : permits hostData ownerRead = true)
    (hcreate : world.files.create (Path.temporary out) = .ok (id, opened))
    (apart : parts.payload ≠ .file id) (hnonempty : 0 < parts.host.length)
    (hoffset : parts.host.length ≤ parts.trailer.offset.toNat)
    (hsize : 0 < parts.trailer.size.toNat) :
    let ended := written parts (remainder world.files parts.payload parts.head.length)
    let published := publish host out parts world
    ∃ built, ∃ draft : Draft world.files out built, draft.id = id ∧ draft.opened = opened ∧
      draft.Finishes parts.trailer ended.1 () published.1 published.2.files := by
  intro ended published
  obtain ⟨built, mode, hwritten, hbuild⟩ := build_eq hhost hhostFile hcreate apart
  let draft : Draft world.files out built := ⟨id, opened, hcreate, ⟨ended.2, mode⟩, hwritten⟩
  refine ⟨built, draft, rfl, rfl, ?_⟩
  cases hended : ended.1 with
  | error error =>
    rw [hended] at hbuild
    simp only [published, publish_apply, hbuild]
    exact ⟨rfl, files_discard _ _⟩
  | ok done =>
    rw [hended] at hbuild
    obtain ⟨rfl, hbuild⟩ := hbuild
    have ends : parts.trailer.Ends draft.data.content :=
      ends_of_written hended hnonempty hoffset hsize
    have hfits : draft.data.content.length < UInt64.size := by
      have hlimit : lengthLimit + lengthLimit = UInt64.size := rfl
      have hwidth : Trailer.width = 16 := rfl
      have := (written_eq_ok hended).2.2
      have := ends.total
      omega
    let wrote : World := { world with files := built }
    have hlocated : Trailer.located wrote.files (Path.temporary out) =
        .ok (some parts.trailer) := by
      rw [draft.located hpermits, (Trailer.ending?_eq_some_iff hfits).mpr ends]
    obtain ⟨looked, hverify, hlooked⟩ := verify_of_located hlocated
    refine ⟨ends, hlocated, ?_⟩
    simp only [published, publish_apply, hbuild.trans hverify, hlooked]
    cases wrote.files.rename (Path.temporary out) out with
    | error fault => exact ⟨rfl, hlooked⟩
    | ok after => exact ⟨rfl, rfl⟩

section Amid

variable {host payload out : Path} {align : Option UInt64} {world checked : World} {parts : Parts}
  {now : Bytes} {id : Nat} {opened : FileSystem}

theorem embedAmid_of_prepare (change : FileSystem → FileSystem)
    (hprepare : prepare host payload out align world = (.ok parts, checked)) :
    let ran := embedAmid change host payload out align world
    ∃ changed : World, changed.files = change world.files ∧
      ran.1 = (publish host out parts changed).1.map (fun _ => parts.trailer) ∧
      ran.2.files = (publish host out parts changed).2.files := by
  have hfiles := keeps_files_prepare host payload out align world
  rw [hprepare] at hfiles
  refine ⟨{ checked with files := change checked.files }, congrArg change hfiles, ?_⟩
  rw [embedAmid_apply, hprepare]
  dsimp only
  rcases publish host out parts { checked with files := change checked.files }
    with ⟨error | done, left⟩ <;> exact ⟨rfl, rfl⟩

/-- If the host still has its mode and the payload delivers this, the embedding ends accordingly. -/
theorem embedAmid_ends (change : FileSystem → FileSystem) {rest : Bytes}
    (bounded : ∀ path ∈ [host, payload], world.files.Bounded path)
    (hprepare : prepare host payload out align world = (.ok parts, checked))
    (hhost : ∀ data, world.files.data? host = some data → ∃ id now,
      (change world.files).leads? host = some id ∧
      (change world.files).file? id = some { data with content := now })
    (hrest : remainder (change world.files) parts.payload parts.head.length = rest)
    (hcreate : (change world.files).create (Path.temporary out) = .ok (id, opened))
    (apart : parts.payload ≠ .file id) :
    let ran := embedAmid change host payload out align world
    ∃ built, ∃ draft : Draft (change world.files) out built, draft.id = id ∧
      draft.opened = opened ∧
      draft.Finishes parts.trailer (written parts rest).1 parts.trailer ran.1 ran.2.files := by
  intro ran
  obtain ⟨_, _, hostData, _, prepared⟩ := prepared_of_prepare hprepare
  obtain ⟨changed, hchanged, hresult, hleft⟩ := embedAmid_of_prepare change hprepare
  obtain ⟨hostId, now, hleads, hfile⟩ := hhost _ prepared.data.1
  have hpermits := permits_of_prepare hprepare prepared.data.1
  obtain ⟨hnonempty, hoffset, hsize⟩ := prepared.sound bounded
  rw [← hchanged] at hleads hfile hcreate hrest ⊢
  obtain ⟨built, draft, hid, hopened, finishes⟩ :=
    publish_ends hleads hfile hpermits hcreate apart hnonempty hoffset hsize
  rw [hrest] at finishes
  refine ⟨built, draft, hid, hopened, ?_⟩
  simp only [ran, hresult, hleft]
  exact finishes.map fun _ => parts.trailer

theorem embedAmid_overwrite (bounded : ∀ path ∈ [host, payload], world.files.Bounded path)
    (hprepare : prepare host payload out align world = (.ok parts, checked))
    (hcreate : (world.files.overwrite payload now).create (Path.temporary out) = .ok (id, opened))
    (apart : parts.payload ≠ .file id) :
    let ran := embedAmid (·.overwrite payload now) host payload out align world
    ∃ built, ∃ draft : Draft (world.files.overwrite payload now) out built,
      draft.id = id ∧ draft.opened = opened ∧ draft.Finishes parts.trailer
        (written parts (now.drop 4)).1 parts.trailer ran.1 ran.2.files := by
  obtain ⟨hostId, payloadId, hostData, payloadData, prepared⟩ := prepared_of_prepare hprepare
  refine embedAmid_ends (·.overwrite payload now) bounded hprepare ?_ ?_ hcreate apart
  · intro data hdata
    cases prepared.data.1.symm.trans hdata
    obtain ⟨other, hfile, -⟩ := world.files.file?_overwrite payload now prepared.hostFile
    exact ⟨hostId, other, (leads?_overwrite ..).trans prepared.host, hfile⟩
  · obtain ⟨other, hfile, hother⟩ := world.files.file?_overwrite payload now prepared.payloadFile
    cases hother prepared.payload
    rw [prepared.head, prepared.parts]
    simp only [remainder, content?, hfile, Option.map_some, Option.getD_some]

theorem created_of_embedAmid {trailer : Trailer} {change : FileSystem → FileSystem}
    (hprepare : prepare host payload out align world = (.ok parts, checked))
    (h : (embedAmid change host payload out align world).1 = .ok trailer) :
    parts.trailer = trailer ∧ ∃ id opened,
      (change checked.files).create (Path.temporary out) = .ok (id, opened) ∧
        parts.payload ≠ .file id := by
  rw [embedAmid_apply, hprepare] at h
  dsimp only at h
  rcases hpublish : publish host out parts { checked with files := change checked.files }
    with ⟨error | done, left⟩
  · rw [hpublish] at h
    cases h
  · rw [hpublish] at h
    cases h
    obtain ⟨built, hbuild, -⟩ := publish_eq_ok hpublish
    exact ⟨rfl, (verified_of_build hbuild).1⟩

end Amid

end Bundle

/-- The payload is not as long as was seen, or the bundle is longer than a file can be. -/
def Bundle.Spoiled (trailer : Trailer) (delivered : Nat) : Prop :=
  delivered ≠ trailer.size.toNat ∨ lengthLimit ≤ trailer.offset.toNat + delivered + 16

/-- How an embedding ends whose payload delivers this many bytes, from the opening of the temporary
file on. -/
structure Bundle.Ending (before opened : FileSystem) (out : Path) (id : Nat) (trailer : Trailer)
    (delivered : Nat) (result : Except LoadError Trailer) (after : FileSystem) : Prop where
  short : delivered ≠ trailer.size.toNat → trailer.offset.toNat + delivered < lengthLimit →
    result = .error (.shortRead trailer.offset trailer.size delivered)
  large : lengthLimit ≤ trailer.offset.toNat + delivered ∨
      delivered = trailer.size.toNat ∧ lengthLimit ≤ trailer.offset.toNat + delivered + 16 →
    result = .error (.io (.system .fileTooLarge))
  withdrawn : Spoiled trailer delivered → after.Free (Path.temporary out)
  traceless : Spoiled trailer delivered → before.Free (Path.temporary out) → before.Unchanged after
  /-- Unless it is the very file that was opened under the temporary name, which was taken then. -/
  spared : Spoiled trailer delivered → ∀ place, before.place? out = some place →
    before.Free (Path.temporary out) ∨ opened.entry? place ≠ some (.file id) →
      after.at? place = before.at? place
  /-- The trailer is found, so that only the renaming is left. -/
  whole : delivered = trailer.size.toNat →
    trailer.offset.toNat + delivered + 16 < lengthLimit → ∃ built data,
      built.data? (Path.temporary out) = some data ∧ trailer.Ends data.content ∧
      Trailer.located built (Path.temporary out) = .ok (some trailer) ∧
      match built.rename (Path.temporary out) out with
      | .error fault => result = .error (.io fault) ∧ after = built
      | .ok renamed => result = .ok trailer ∧ after = renamed

/-- A file that gets the name of the output ends in its trailer and is as long as that tells. -/
def Bundle.Published (before : FileSystem) (out : Path) (trailer : Trailer) (after : FileSystem) :
    Prop :=
  ∃ place id data, before.place? out = some place ∧ after.file? id = some data ∧
    trailer.Ends data.content ∧ ∀ other, after.entry? place = some (.file other) → other = id

/-- How an embedding ends whatever its payload delivers. -/
structure Bundle.Delivers (seen before : FileSystem) (payload out : Path) (parts : Parts)
    (delivered : Nat) (result : Except LoadError Trailer) (after : FileSystem) : Prop where
  size : ∃ data, seen.data? payload = some data ∧
    data.content.length = parts.trailer.size.toNat
  ends : ∀ id opened, before.create (Path.temporary out) = .ok (id, opened) →
    parts.payload ≠ .file id →
    Ending before opened out id parts.trailer delivered result after
  /-- A payload that is written over never comes to an end. -/
  overwritten : ∀ id opened, before.create (Path.temporary out) = .ok (id, opened) →
    parts.payload = .file id → ∃ error, result = .error error
  published : ∀ trailer, result = .ok trailer → Published before out trailer after

namespace Bundle.Draft

variable {before built after : FileSystem} {out : Path} {parts : Parts} {rest : Bytes}
  {result : Except LoadError Trailer}

theorem Finishes.given_up {draft : Draft before out built} {ended : Except LoadError Unit}
    {error : LoadError} (h : draft.Finishes parts.trailer ended parts.trailer result after)
    (hended : ended = .error error) :
    result = .error error ∧ after = built.without (Path.temporary out) := by
  subst hended
  exact h

theorem Finishes.ending {draft : Draft before out built}
    (h : draft.Finishes parts.trailer (written parts rest).1 parts.trailer result after)
    {delivered : Nat} (hdelivered : parts.head.length + rest.length = delivered) :
    Ending before draft.opened out draft.id parts.trailer delivered result after := by
  have hspoiled : Spoiled parts.trailer delivered →
      after = built.without (Path.temporary out) := by
    intro spoiled
    by_cases hlarge : lengthLimit ≤ parts.trailer.offset.toNat + delivered ∨
        delivered = parts.trailer.size.toNat ∧
          lengthLimit ≤ parts.trailer.offset.toNat + delivered + 16
    · exact (h.given_up (written_large hdelivered hlarge)).2
    · rw [not_or, Nat.not_le, not_and, Nat.not_le] at hlarge
      have hother : delivered ≠ parts.trailer.size.toNat := fun hsame =>
        spoiled.elim (· hsame) (Nat.not_le.mpr (hlarge.2 hsame))
      exact (h.given_up (written_short hdelivered hlarge.1 hother)).2
  refine ⟨?_, ?_, ?_, ?_, ?_, ?_⟩
  · exact fun hother hstop => (h.given_up (written_short hdelivered hstop hother)).1
  · exact fun hlarge => (h.given_up (written_large hdelivered hlarge)).1
  · intro spoiled
    rw [hspoiled spoiled]
    exact draft.free_discarded
  · intro spoiled free
    rw [hspoiled spoiled]
    obtain ⟨parent, htarget⟩ := draft.target
    exact (unchanged_discarded_iff draft).mpr ⟨_, remove_of_vacant htarget (free.vacant htarget)⟩
  · intro spoiled place hplace hapart
    rw [hspoiled spoiled]
    exact draft.spares_discarded hplace (hapart.elim (draft.apart_of_free · hplace) fun h => h)
  · intro hsame hfits
    rw [written_whole hdelivered hsame hfits] at h
    exact ⟨built, draft.data, draft.data?_built, h⟩

theorem Finishes.published {draft : Draft before out built} {ended : Except LoadError Unit}
    {trailer : Trailer} (h : draft.Finishes trailer ended trailer result after)
    (hok : result = .ok trailer) : Published before out trailer after := by
  cases ended with
  | error error => cases hok.symm.trans h.1
  | ok done =>
    obtain ⟨ends, -, h⟩ := h
    cases hrename : built.rename (Path.temporary out) out with
    | error fault =>
      rw [hrename] at h
      cases hok.symm.trans h.1
    | ok renamed =>
      rw [hrename] at h
      obtain ⟨place, hplace, hfile, hnamed⟩ := draft.file_renamed hrename
      rw [h.2]
      exact ⟨place, draft.id, draft.data, hplace, hfile, ends, hnamed⟩

end Bundle.Draft

/-- For all inputs and alignments, and for everything that the payload may deliver behind its first
four bytes once its size was seen. -/
theorem embedAmid_delivers {host payload out : Path} {align : Option UInt64} {world : World}
    {parts : Parts} (prepared : (prepare host payload out align world).1 = .ok parts)
    (bounded : ∀ path ∈ [host, payload], world.files.Bounded path) (now : Bytes) :
    let ran := embedAmid (·.overwrite payload now) host payload out align world
    Delivers world.files (world.files.overwrite payload now) payload out parts
      (4 + (now.drop 4).length) ran.1 ran.2.files := by
  intro ran
  obtain ⟨checked, hprepare⟩ : ∃ checked,
      prepare host payload out align world = (.ok parts, checked) := ⟨_, Prod.ext prepared rfl⟩
  have hfiles := keeps_files_prepare host payload out align world
  rw [hprepare] at hfiles
  have hopened : ∀ trailer, ran.1 = .ok trailer → parts.trailer = trailer ∧ ∃ id opened,
      (world.files.overwrite payload now).create (Path.temporary out) = .ok (id, opened) ∧
        parts.payload ≠ .file id := by
    intro trailer hok
    have hmade := created_of_embedAmid hprepare hok
    rwa [hfiles] at hmade
  obtain ⟨_, _, _, payloadData, prepared⟩ := prepared_of_prepare hprepare
  refine ⟨⟨payloadData, prepared.data.2, (prepared.trailer_eq bounded).2.symm⟩,
    fun id opened hcreate apart => ?_, fun id opened hcreate same => ?_, fun trailer hok => ?_⟩
  · obtain ⟨built, draft, rfl, rfl, finishes⟩ :=
      embedAmid_overwrite bounded hprepare hcreate apart
    exact finishes.ending (by rw [prepared.head])
  · cases hended : ran.1 with
    | error error => exact ⟨error, rfl⟩
    | ok trailer =>
      obtain ⟨-, other, made, hmade, apart⟩ := hopened trailer hended
      cases hcreate.symm.trans hmade
      exact absurd same apart
  · obtain ⟨rfl, id, opened, hcreate, apart⟩ := hopened trailer hok
    obtain ⟨built, draft, -, -, finishes⟩ := embedAmid_overwrite bounded hprepare hcreate apart
    exact finishes.published hok

/-- The payload is cut behind its magic, or gets another content of the same length: then the bundle
is refused, or ends in its trailer all the same. -/
theorem embedAmid_delivers_nested :
    let cut := Magic.gguf
    let other := Magic.gguf ++ List.replicate 16 7
    let ran := fun now =>
      embedAmid (·.overwrite "m" now) "host" "m" "out" (some 8) (.ofFiles nested)
    (prepare "host" "m" "out" (some 8) (.ofFiles nested)).1 =
        .ok ⟨[0x7f], .file 1, Magic.gguf, ⟨8, 20⟩⟩ ∧
      (∀ path ∈ ["host", "m"], nested.Bounded path) ∧
      (ran cut).1 = .error (.shortRead 8 20 4) ∧ (ran cut).2.files.Free "out.partial" ∧
      (ran other).1 = .ok ⟨8, 20⟩ ∧
      ∃ id data, (ran other).2.files.file? id = some data ∧ Trailer.Ends ⟨8, 20⟩ data.content := by
  intro cut other ran
  have hprepared : (prepare "host" "m" "out" (some 8) (.ofFiles nested)).1 =
      .ok ⟨[0x7f], .file 1, Magic.gguf, ⟨8, 20⟩⟩ := by
    decide +kernel
  have hhost : nested.data? "host" = some ⟨[0x7f], 0o755⟩ := by decide +kernel
  have hpayload : nested.data? "m" = some ⟨Magic.gguf ++ Trailer.encode ⟨1, 3⟩, 0o644⟩ := by
    decide +kernel
  have hbounded : ∀ path ∈ ["host", "m"], nested.Bounded path := by
    intro path hpath data hdata
    simp only [List.mem_cons, List.not_mem_nil, or_false] at hpath
    rcases hpath with rfl | rfl
    · cases hhost.symm.trans hdata
      decide
    · cases hpayload.symm.trans hdata
      decide
  have hcreate : ((nested.overwrite "m" cut).create "out.partial").map Prod.fst = .ok 2 := by
    decide +kernel
  cases hopened : (nested.overwrite "m" cut).create "out.partial" with
  | error fault =>
    rw [hopened] at hcreate
    cases hcreate
  | ok made =>
    obtain ⟨id, opened⟩ := made
    rw [hopened, Except.map, Except.ok.injEq] at hcreate
    cases hcreate
    have ending := (embedAmid_delivers hprepared hbounded cut).ends 2 opened hopened (by decide)
    have hok : (ran other).1 = .ok ⟨8, 20⟩ := by decide +kernel
    obtain ⟨place, id, data, -, hfile, ends, -⟩ :=
      (embedAmid_delivers hprepared hbounded other).published _ hok
    have hcut := ending.short (by decide) (by decide)
    have hfree := ending.withdrawn (.inl (by decide))
    refine ⟨hprepared, hbounded, hcut, hfree, hok, id, data, ?_, ends⟩
    simpa only [ran] using hfile

/-- A host, a payload and an output, to which a link leads under the temporary name. -/
def aliased : FileSystem where
  entries := [(["host"], .file 0), (["m"], .file 1), (["out"], .file 2),
    (["out.partial"], .link "out")]
  files := [(0, ⟨[0x7f], 0o755⟩), (1, ⟨Magic.gguf ++ [1, 2, 3, 4], 0o644⟩), (2, ⟨[5], 0o644⟩)]
  working := []

/-- There a payload that is cut is told, and the output is written over all the same; one that stays
as it is leaves a link to itself in the place of the bundle.  And a payload that would begin where
no file ends is not told to be cut. -/
theorem embedAmid_delivers_aliased :
    let world := World.ofFiles aliased
    let cut := embedAmid (·.overwrite "m" Magic.gguf) "host" "m" "out" none world
    let kept := embedAmid id "host" "m" "out" none world
    let far :=
      embedAmid (·.overwrite "m" Magic.gguf) "host" "m" "out" (some 0x8000000000000000) world
    cut.1 = .error (.shortRead 1 8 4) ∧ aliased.data? "out" = some ⟨[5], 0o644⟩ ∧
      (cut.2.files.data? "out").map FileData.content = some (0x7f :: Magic.gguf) ∧
      kept.1 = .ok ⟨1, 8⟩ ∧ (Trailer.locate "out" kept.2).1 = .error (.io (.system .tooManyLinks)) ∧
      far.1 = .error (.io (.system .fileTooLarge)) := by
  decide +kernel

end ModelBundle
