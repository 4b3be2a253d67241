import ModelBundle.Bundle
import ModelBundle.Proofs.FileSystem.Changes
import ModelBundle.Proofs.Trailers

/-!
What building a bundle does to the files.  Nothing is written before everything has been checked,
and then only the one file that was opened under the temporary name changes.
-/

namespace ModelBundle.Bundle

open ModelBundle.Action

/-! Checking the inputs. -/

theorem keeps_files_readHost (host payload out : Path) :
    Keeps World.files (readHost host payload out) := by
  apply keeps_bind ((Trailer.keeps_silent_locate host).map World.files)
  intro found
  cases found with
  | some found => exact keeps_fail _ _
  | none =>
    apply keeps_bind (keeps_get _)
    intro world
    dsimp only
    split
    · exact keeps_fail _ _
    · split
      · exact keeps_fail _ _
      · exact keeps_bind (fun _ => rfl) fun _ => keeps_pure _ _

theorem keeps_files_readPayload (payload : Path) :
    Keeps World.files (readPayload payload) := by
  apply keeps_bind (keeps_get _)
  intro world
  dsimp only
  split
  · exact keeps_fail _ _
  · split
    · exact keeps_fail _ _
    · split
      · exact keeps_fail _ _
      · split
        · exact keeps_bind (fun _ => rfl) fun _ => keeps_pure _ _
        · exact keeps_pure _ _

theorem keeps_files_prepare (host payload out : Path) (align : Option UInt64) :
    Keeps World.files (prepare host payload out align) := by
  apply keeps_bind (keeps_files_readHost host payload out)
  intro content
  apply keeps_bind (keeps_files_readPayload payload)
  intro opened
  dsimp only
  split
  · exact keeps_fail _ _
  · exact keeps_pure _ _

theorem read_of_readHost {host payload out : Path} {world world' : World} {content : Bytes}
    (h : readHost host payload out world = (.ok content, world')) :
    world.files.readWhole host = .ok content := by
  obtain ⟨found, looked, hlocate, h⟩ := bind_eq_ok h
  have hfiles : looked.files = world.files := by
    have := (Trailer.keeps_silent_locate host).map World.files world
    rw [hlocate] at this
    exact this
  cases found with
  | some found => cases h
  | none =>
    obtain ⟨seen, same, hget, h⟩ := bind_eq_ok h
    cases hget
    by_cases hsame : (looked.files.sameFile out host || looked.files.sameFile out payload) = true
    · simp only [hsame, if_true] at h
      cases h
    cases hread : looked.files.readWhole host with
    | error fault =>
      simp only [hsame, hread] at h
      cases h
    | ok read =>
      simp only [hsame, hread] at h
      obtain ⟨_, _, _, h⟩ := bind_eq_ok h
      cases h
      rw [← hfiles, hread]

theorem opened_of_readPayload {payload : Path} {world world' : World}
    {handle : Handle} {size : Nat} {head : Bytes}
    (h : readPayload payload world = (.ok (handle, size, head), world')) :
    ∃ content, world.files.openRead payload = .ok handle ∧
      world.files.content? handle = some content ∧ size = content.length ∧
      4 ≤ content.length ∧ head = content.take 4 := by
  obtain ⟨seen, same, hget, h⟩ := bind_eq_ok h
  cases hget
  cases hopen : world.files.openRead payload with
  | error fault =>
    simp only [hopen] at h
    cases h
  | ok opened =>
    by_cases hsize : world.files.size opened < Magic.gguf.length
    · simp only [hopen, hsize, if_true] at h
      cases h
    cases hcontent : world.files.content? opened with
    | none =>
      simp only [hopen, hsize, hcontent, if_false] at h
      cases h
    | some content =>
      simp only [hopen, hsize, hcontent, if_false] at h
      have hresult : (handle, size, head) =
          (opened, world.files.size opened, content.take Magic.gguf.length) := by
        by_cases hmagic : (!Magic.startsView (content.take Magic.gguf.length)) = true
        · simp only [hmagic, if_true] at h
          obtain ⟨_, _, _, h⟩ := bind_eq_ok h
          cases h
          rfl
        · simp only [hmagic] at h
          cases h
          rfl
      have hleast : Magic.gguf.length = 4 := rfl
      rw [FileSystem.size_eq hcontent, hleast] at hsize
      simp only [Prod.mk.injEq] at hresult
      obtain ⟨rfl, rfl, rfl⟩ := hresult
      exact ⟨content, rfl, hcontent, FileSystem.size_eq hcontent, by omega, rfl⟩

structure Prepared (files : FileSystem) (host payload : Path) (align : Option UInt64)
    (parts : Parts) (hostId payloadId : Nat) (hostData payloadData : FileData) : Prop where
  host : files.leads? host = some hostId
  hostFile : files.file? hostId = some hostData
  hostHeld : Memory.Holds hostData.content.length
  payload : files.leads? payload = some payloadId
  payloadFile : files.file? payloadId = some payloadData
  nonempty : 0 < hostData.content.length
  magic : 4 ≤ payloadData.content.length
  parts : parts = {
    host := hostData.content
    payload := .file payloadId
    head := payloadData.content.take 4
    trailer := ⟨payloadOffset (.ofNat hostData.content.length) align,
      .ofNat payloadData.content.length⟩ }

theorem prepared_of_prepare {host payload out : Path} {align : Option UInt64}
    {world world' : World} {parts : Parts}
    (h : prepare host payload out align world = (.ok parts, world')) :
    ∃ hostId payloadId hostData payloadData, Prepared world.files host payload align parts hostId
      payloadId hostData payloadData := by
  obtain ⟨content, looked, hhost, h⟩ := bind_eq_ok h
  have hfiles : looked.files = world.files := by
    have := keeps_files_readHost host payload out world
    rw [hhost] at this
    exact this
  obtain ⟨⟨handle, size, head⟩, opened, hpayload, h⟩ := bind_eq_ok h
  by_cases hnonempty : content.length = 0
  · simp only [hnonempty, if_true] at h
    cases h
  simp only [hnonempty, if_false] at h
  cases h
  obtain ⟨hread, hheld⟩ := FileSystem.readWhole_eq_ok_iff.mp (read_of_readHost hhost)
  obtain ⟨hostId, hopen, hcontent⟩ := FileSystem.read_eq_ok_iff.mp hread
  obtain ⟨location, hostData, hresolve, hdata, -⟩ := FileSystem.openRead_eq_file_iff.mp hopen
  obtain ⟨bytes, hopen', hcontent', rfl, hmagic, rfl⟩ := opened_of_readPayload hpayload
  rw [hfiles] at hopen' hcontent'
  cases handle with
  | directory => cases hcontent'
  | file payloadId =>
    obtain ⟨location', payloadData, hresolve', hdata', -⟩ :=
      FileSystem.openRead_eq_file_iff.mp hopen'
    simp only [FileSystem.content?, hdata, Option.map_some, Option.some.injEq] at hcontent
    simp only [FileSystem.content?, hdata', Option.map_some, Option.some.injEq] at hcontent'
    subst hcontent hcontent'
    exact ⟨hostId, payloadId, hostData, payloadData,
      FileSystem.leads?_eq_some_iff.mpr ⟨location, hresolve⟩, hdata, hheld,
      FileSystem.leads?_eq_some_iff.mpr ⟨location', hresolve'⟩, hdata', by omega, hmagic, rfl⟩

/-! Writing. -/

/-- Of these files only one changed since it was opened: in its content and mode. -/
structure Rewritten (before after : FileSystem) (id : Nat) (data : FileData) : Prop where
  entries : after.entries = before.entries
  working : after.working = before.working
  others : ∀ other, other ≠ id → after.file? other = before.file? other
  written : after.file? id = some data

theorem Rewritten.append {before after : FileSystem} {id : Nat} {data : FileData}
    (h : Rewritten before after id data) (bytes : Bytes) :
    Rewritten before (after.append id bytes) id
      { data with content := data.content ++ bytes } where
  entries := h.entries
  working := h.working
  others := by
    intro other hother
    rw [FileSystem.file?_append, if_neg (Ne.symm hother)]
    exact h.others other hother
  written := by
    rw [FileSystem.file?_append, if_pos rfl, h.written]
    rfl

theorem Rewritten.setMode {before after : FileSystem} {id : Nat} {data : FileData}
    (h : Rewritten before after id data) {path : Path} (hpath : before.leads? path = some id)
    (mode : Nat) : ∃ files, after.setMode path mode = .ok files ∧
      Rewritten before files id { data with mode } := by
  obtain ⟨location, hresolve⟩ := FileSystem.leads?_eq_some_iff.mp hpath
  have hsame : after.resolve true path = before.resolve true path := by
    apply FileSystem.resolve_congr
    · exact FileSystem.entry?_congr h.entries
    · exact h.working
  refine ⟨{ after with files := Table.update after.files id fun data => { data with mode } }, ?_,
    h.entries, h.working, ?_, ?_⟩
  · unfold FileSystem.setMode
    rw [hsame, hresolve]
  · intro other hother
    rw [← h.others other hother]
    exact (Table.get?_update _ _ _ _).trans (if_neg (Ne.symm hother))
  · refine (Table.get?_update _ _ _ _).trans ?_
    rw [if_pos rfl, show Table.get? after.files id = some data from h.written]
    rfl

/-- What is written can be told from either input: it is empty or longer than both. -/
def Outgrows (content host payload : Bytes) : Prop :=
  content = [] ∨ host.length < content.length ∧ payload.length < content.length

/-- How writing ends if the payload delivers these bytes behind its head, and what the file holds
then. -/
def written (parts : Parts) (rest : Bytes) : Except LoadError Unit × Bytes :=
  let delivered := parts.head.length + rest.length
  let stop := parts.trailer.offset.toNat + delivered
  let front := parts.host ++ padding parts.host parts.trailer ++ parts.head ++ rest
  if FileSystem.lengthLimit ≤ stop then (.error (.io (.system .fileTooLarge)), [])
  else if delivered ≠ parts.trailer.size.toNat then
    (.error (.shortRead parts.trailer.offset parts.trailer.size delivered), front)
  else if FileSystem.lengthLimit ≤ stop + Trailer.width then
    (.error (.io (.system .fileTooLarge)), front)
  else (.ok (), front ++ parts.trailer.encode)

theorem written_eq_ok {parts : Parts} {rest : Bytes} {done : Unit}
    (h : (written parts rest).1 = .ok done) :
    (written parts rest).2 = content parts.host (parts.head ++ rest) parts.trailer ∧
      (parts.head ++ rest).length = parts.trailer.size.toNat ∧
      parts.trailer.offset.toNat + parts.trailer.size.toNat + Trailer.width <
        FileSystem.lengthLimit := by
  unfold written at h ⊢
  dsimp only at h ⊢
  split at h
  · cases h
  · split at h
    · cases h
    · split at h
      · cases h
      · rename_i hlong hsame hfits
        rw [if_neg hlong, if_neg hsame, if_neg hfits]
        rw [Decidable.not_not] at hsame
        refine ⟨by simp only [content, List.append_assoc], ?_, by omega⟩
        rw [List.length_append, hsame]

section Written

variable {parts : Parts} {rest : Bytes} {delivered : Nat}

theorem written_short (hdelivered : parts.head.length + rest.length = delivered)
    (hstop : parts.trailer.offset.toNat + delivered < FileSystem.lengthLimit)
    (hother : delivered ≠ parts.trailer.size.toNat) :
    (written parts rest).1 =
      .error (.shortRead parts.trailer.offset parts.trailer.size delivered) := by
  unfold written
  dsimp only
  rw [hdelivered, if_neg (Nat.not_le.mpr hstop), if_pos hother]

theorem written_large (hdelivered : parts.head.length + rest.length = delivered)
    (hlarge : FileSystem.lengthLimit ≤ parts.trailer.offset.toNat + delivered ∨
      delivered = parts.trailer.size.toNat ∧
        FileSystem.lengthLimit ≤ parts.trailer.offset.toNat + delivered + Trailer.width) :
    (written parts rest).1 = .error (.io (.system .fileTooLarge)) := by
  unfold written
  dsimp only
  rw [hdelivered]
  split
  · rfl
  · obtain ⟨hsame, hlarge⟩ := hlarge.resolve_left ‹_›
    rw [if_neg (not_not_intro hsame), if_pos hlarge]

theorem written_whole (hdelivered : parts.head.length + rest.length = delivered)
    (hsame : delivered = parts.trailer.size.toNat)
    (hfits : parts.trailer.offset.toNat + delivered + Trailer.width < FileSystem.lengthLimit) :
    (written parts rest).1 = .ok () := by
  unfold written
  dsimp only
  rw [hdelivered, if_neg (by omega), if_neg (not_not_intro hsame), if_neg (Nat.not_le.mpr hfits)]

end Written

theorem length_written (parts : Parts) (rest : Bytes) :
    (written parts rest).2 = [] ∨
      parts.host.length + (parts.head ++ rest).length ≤ (written parts rest).2.length := by
  unfold written
  dsimp only
  split
  · exact .inl rfl
  · refine .inr ?_
    split
    · simp only [List.length_append]
      omega
    · split <;>
      · simp only [List.length_append]
        omega

theorem complete_eq {before : FileSystem} {id mode : Nat} (world : World) (parts : Parts)
    (rest : Bytes) (hopened : Rewritten before world.files id ⟨[], mode⟩) :
    ∃ files, Rewritten before files id ⟨(written parts rest).2, mode⟩ ∧
      complete id parts rest world = ((written parts rest).1, { world with files }) := by
  have hfront :=
    hopened.append (parts.host ++ padding parts.host parts.trailer ++ parts.head ++ rest)
  unfold complete written
  dsimp only
  split
  · exact ⟨world.files, hopened, rfl⟩
  · simp only [append, bind_apply, modify_apply]
    split
    · exact ⟨_, hfront, rfl⟩
    · split
      · exact ⟨_, hfront, rfl⟩
      · exact ⟨_, hfront.append parts.trailer.encode, rfl⟩

section Build

variable {host payload temporary : Path} {align : Option UInt64} {parts : Parts}
  {hostId payloadId id : Nat} {hostData payloadData : FileData} {world : World}
  {opened : FileSystem}

theorem remainder_opened {handle : Handle}
    (hcreate : world.files.create temporary = .ok (id, opened)) (apart : handle ≠ .file id)
    (position : Nat) :
    remainder opened handle position = remainder world.files handle position := by
  have created := FileSystem.created_of_create hcreate
  cases handle with
  | directory => rfl
  | file other =>
    have hother : other ≠ id := fun h => apart (congrArg Handle.file h)
    simp only [remainder, FileSystem.content?, created.others other hother]

theorem write_eq (hcreate : world.files.create temporary = .ok (id, opened))
    (apart : parts.payload ≠ .file id) :
    let ended := written parts (remainder world.files parts.payload parts.head.length)
    ∃ files mode, Rewritten opened files id ⟨ended.2, mode⟩ ∧
      (∀ old, world.files.file? id = some old → old.mode = mode) ∧
      write temporary parts world = (ended.1, { world with files }) := by
  intro ended
  obtain ⟨mode, hemptied, hmode⟩ := (FileSystem.created_of_create hcreate).emptied
  have hstart : onFiles (fun files => files.create temporary) world =
      (.ok id, { world with files := opened }) := by
    simp only [onFiles, hcreate]
  obtain ⟨files, hwritten, hcomplete⟩ := complete_eq { world with files := opened } parts
    (remainder world.files parts.payload parts.head.length)
    ⟨rfl, rfl, fun _ _ => rfl, hemptied⟩
  refine ⟨files, mode, hwritten, hmode, ?_⟩
  rw [write, bind_ok hstart]
  simp only [if_neg apart, bind_apply, get_apply, remainder_opened hcreate apart, hcomplete, ended]

theorem write_aliased (hcreate : world.files.create temporary = .ok (id, opened))
    (aliased : parts.payload = .file id) :
    write temporary parts world =
      (.error (.io (.system .fileTooLarge)), { world with files := opened }) := by
  have hstart : onFiles (fun files => files.create temporary) world =
      (.ok id, { world with files := opened }) := by
    simp only [onFiles, hcreate]
  rw [write, bind_ok hstart]
  simp only [if_pos aliased, fail_apply]

theorem Prepared.remainder
    (prepared : Prepared world.files host payload align parts hostId payloadId hostData
      payloadData) :
    parts.head ++ remainder world.files parts.payload parts.head.length = payloadData.content := by
  have hlength : (payloadData.content.take 4).length = 4 := by
    rw [List.length_take, Nat.min_eq_left prepared.magic]
  rw [prepared.parts]
  simp only [Bundle.remainder, FileSystem.content?, prepared.payloadFile, Option.map_some,
    Option.getD_some, hlength, List.take_append_drop]

theorem outgrows_written (prepared : Prepared world.files host payload align parts hostId payloadId
    hostData payloadData) :
    Outgrows (written parts (remainder world.files parts.payload parts.head.length)).2
      hostData.content payloadData.content := by
  have hlength := length_written parts (remainder world.files parts.payload parts.head.length)
  have hhost : parts.host = hostData.content := by
    rw [prepared.parts]
  rw [prepared.remainder, hhost] at hlength
  have := prepared.nonempty
  have := prepared.magic
  exact hlength.imp_right fun hlong => by omega

theorem metadata_apply (path : Path) (world : World) :
    metadata path world = match world.files.metadata path with
      | .ok found => (.ok found, world)
      | .error fault => (.error (.io fault), world) := by
  simp only [metadata, onFiles]
  cases world.files.metadata path <;> rfl

theorem keeps_files_verify (path : Path) (trailer : Trailer) :
    Keeps World.files (verify path trailer) := by
  apply keeps_bind ((Trailer.keeps_silent_locate path).map World.files)
  intro found
  split
  · exact keeps_pure _ _
  · refine keeps_bind (fun world => ?_) fun _ => keeps_fail _ _
    rw [metadata_apply]
    split <;> rfl

theorem verify_of_located {path : Path} {trailer : Trailer}
    (h : Trailer.located world.files path = .ok (some trailer)) :
    ∃ looked, verify path trailer world = (.ok (), looked) ∧ looked.files = world.files := by
  have hlocate : Trailer.locate path world =
      (.ok (some trailer), (Trailer.locate path world).2) :=
    Prod.ext ((Trailer.locate_fst path world).trans h) rfl
  refine ⟨(Trailer.locate path world).2, ?_,
    (Trailer.keeps_silent_locate path).map World.files world⟩
  rw [verify, bind_ok hlocate, if_pos rfl, pure_apply]

theorem metadata_of_host (hleads : world.files.leads? host = some hostId)
    (hfile : world.files.file? hostId = some hostData)
    (hcreate : world.files.create temporary = .ok (id, opened)) {after : FileSystem}
    {data : FileData} (hafter : Rewritten opened after id data)
    (hmode : ∀ old, world.files.file? id = some old → old.mode = data.mode) :
    ∃ size, after.metadata host = .ok (size, hostData.mode) := by
  have created := FileSystem.created_of_create hcreate
  obtain ⟨location, hresolve⟩ := FileSystem.leads?_eq_some_iff.mp hleads
  have hfound : after.resolve true host = .ok (.found location (.file hostId)) := by
    apply FileSystem.resolve_found_mono _ (hafter.working.trans created.working) hresolve
    intro place entry hentry
    rw [FileSystem.entry?_congr hafter.entries]
    exact created.kept place entry hentry
  have hdata : ∃ found, after.file? hostId = some found ∧ found.mode = hostData.mode := by
    by_cases heq : hostId = id
    · subst heq
      exact ⟨data, hafter.written, (hmode hostData hfile).symm⟩
    · refine ⟨hostData, ?_, rfl⟩
      rw [hafter.others _ heq, created.others _ heq, hfile]
  obtain ⟨found, hafter, hsame⟩ := hdata
  refine ⟨found.content.length, ?_⟩
  rw [FileSystem.metadata, hfound]
  simp only [hafter, hsame]

theorem build_eq (hleads : world.files.leads? host = some hostId)
    (hfile : world.files.file? hostId = some hostData)
    (hcreate : world.files.create temporary = .ok (id, opened))
    (apart : parts.payload ≠ .file id) :
    let ended := written parts (remainder world.files parts.payload parts.head.length)
    ∃ files mode, Rewritten opened files id ⟨ended.2, mode⟩ ∧
      match ended.1 with
      | .error error => build host temporary parts world = (.error error, { world with files })
      | .ok () => mode = hostData.mode ∧
          build host temporary parts world =
            verify temporary parts.trailer { world with files } := by
  intro ended
  have created := FileSystem.created_of_create hcreate
  obtain ⟨files, mode, hwritten, hmode, hwrite⟩ := write_eq hcreate apart
  cases hended : ended.1 with
  | error error =>
    refine ⟨files, mode, hwritten, ?_⟩
    simp only [build, bind_apply, hwrite]
    rw [show (written parts (remainder world.files parts.payload parts.head.length)).1 =
      .error error from hended]
  | ok done =>
    obtain ⟨size, hmetadata⟩ := metadata_of_host hleads hfile hcreate hwritten hmode
    obtain ⟨after, hset, hfinal⟩ := hwritten.setMode created.found hostData.mode
    refine ⟨after, hostData.mode, hfinal, rfl, ?_⟩
    simp only [build, bind_apply, hwrite]
    rw [show (written parts (remainder world.files parts.payload parts.head.length)).1 =
      .ok done from hended]
    simp only [metadata_apply, hmetadata, onFiles, hset]
    rfl

/-- Building writes the file that was opened under the temporary name and no other.  What it holds
in the end, also after a failure, is neither input. -/
theorem build_spec (prepared : Prepared world.files host payload align parts hostId payloadId
      hostData payloadData)
    (hcreate : world.files.create temporary = .ok (id, opened)) :
    ∃ data, Rewritten opened (build host temporary parts world).2.files id data ∧
      Outgrows data.content hostData.content payloadData.content ∧
      ∀ done, (build host temporary parts world).1 = .ok done →
        data = ⟨content hostData.content payloadData.content parts.trailer, hostData.mode⟩ := by
  by_cases aliased : parts.payload = .file id
  · obtain ⟨mode, hemptied, -⟩ := (FileSystem.created_of_create hcreate).emptied
    rw [build, bind_error (write_aliased hcreate aliased)]
    exact ⟨⟨[], mode⟩, ⟨rfl, rfl, fun _ _ => rfl, hemptied⟩, .inl rfl, fun done h => by cases h⟩
  · obtain ⟨files, mode, hwritten, hbuild⟩ :=
      build_eq prepared.host prepared.hostFile hcreate aliased
    cases hended : (written parts (remainder world.files parts.payload parts.head.length)).1 with
    | error error =>
      rw [hended] at hbuild
      rw [hbuild]
      exact ⟨⟨_, mode⟩, hwritten, outgrows_written prepared, fun done h => by cases h⟩
    | ok done =>
      rw [hended] at hbuild
      obtain ⟨rfl, hbuild⟩ := hbuild
      have hhost : parts.host = hostData.content := by
        rw [prepared.parts]
      rw [hbuild, keeps_files_verify]
      refine ⟨⟨_, hostData.mode⟩, hwritten, outgrows_written prepared, fun _ _ => ?_⟩
      rw [(written_eq_ok hended).1, prepared.remainder, hhost]

theorem files_discard (path : Path) (world : World) :
    (discard path world).files = world.files.without path := by
  unfold discard FileSystem.without
  cases world.files.remove path <;> rfl

end Build

end ModelBundle.Bundle
