import ModelBundle.Proofs.Embedding.Delivery

/-!
Which arguments an embedding accepts.  The first objection to them that applies is told, and nothing
is written; without one, only the files that are to be written can stand in the way.
-/

namespace ModelBundle

open ModelBundle.Action ModelBundle.Bundle FileSystem

namespace FileSystem

def Missing (files : FileSystem) (path : Path) : Prop :=
  files.openRead path = .error (.system .noSuchFile)

def Denied (files : FileSystem) (path : Path) : Prop :=
  ∃ data, files.data? path = some data ∧ permits data ownerRead = false

def Plain (files : FileSystem) (path : Path) : Prop :=
  (∃ data, files.data? path = some data ∧ data.content.length < lengthLimit) ∨ files.Missing path

theorem Missing.data? {files : FileSystem} {path : Path} (h : files.Missing path) :
    files.data? path = none := by
  unfold Missing openRead at h
  unfold FileSystem.data?
  split at h
  · simp only [*]
  · simp only [*]
  · split at h
    · split at h <;> cases h
    · simp only [*]
  · cases h
  · simp only [*]

theorem not_missing_of_data? {files : FileSystem} {path : Path} {data : FileData}
    (h : files.data? path = some data) : ¬ files.Missing path := by
  intro hmissing
  cases h.symm.trans hmissing.data?

theorem not_denied_of_data? {files : FileSystem} {path : Path} {data : FileData}
    (h : files.data? path = some data) (hpermits : permits data ownerRead = true) :
    ¬ files.Denied path := by
  rintro ⟨found, hfound, hdenied⟩
  cases h.symm.trans hfound
  cases hpermits.symm.trans hdenied

theorem Denied.openRead {files : FileSystem} {path : Path} (h : files.Denied path) :
    files.openRead path = .error (.system .permissionDenied) := by
  obtain ⟨data, hdata, hdenied⟩ := h
  rw [data?_eq_bind, Option.bind_eq_some_iff] at hdata
  obtain ⟨id, hleads, hfile⟩ := hdata
  obtain ⟨location, hresolve⟩ := leads?_eq_some_iff.mp hleads
  simp only [FileSystem.openRead, hresolve, hfile, hdenied, Bool.false_eq_true, if_false]

theorem data?_of_read {files : FileSystem} {path : Path} {content : Bytes}
    (h : files.read path = .ok content) :
    ∃ data, files.data? path = some data ∧ data.content = content := by
  obtain ⟨id, hopen, hcontent⟩ := read_eq_ok_iff.mp h
  obtain ⟨location, data, hresolve, hfile, -⟩ := openRead_eq_file_iff.mp hopen
  refine ⟨data, by simp only [FileSystem.data?, hresolve, hfile], ?_⟩
  simpa only [content?, hfile, Option.map_some, Option.some.injEq] using hcontent

theorem Plain.bounded {files : FileSystem} {path : Path} (plain : files.Plain path) :
    files.Bounded path := by
  intro data hdata
  rcases plain with ⟨found, hfound, hbounded⟩ | hmissing
  · cases hdata.symm.trans hfound
    exact hbounded
  · cases hdata.symm.trans hmissing.data?

/-- A file can get this name: there is one, without a slash behind it, and no directory has it. -/
def Replaceable (files : FileSystem) (path : Path) : Prop :=
  ∃ parent name, files.target path = .ok (.named parent name false) ∧
    files.entry? (parent ++ [name]) ≠ some .directory

theorem sameFile_eq_true_iff {files : FileSystem} {a b : Path} :
    files.sameFile a b = true ↔
      ∃ location, files.canonical? a = some location ∧ files.canonical? b = some location := by
  unfold sameFile
  cases files.canonical? a with
  | none => simp
  | some first =>
    cases files.canonical? b with
    | none => simp
    | some second => simp [eq_comm]

end FileSystem

/-- Of some objections, each of which says with which errors it applies, the first that applies does
so with this error. -/
inductive First : List (LoadError → Prop) → LoadError → Prop where
  | here {objection : LoadError → Prop} {rest : List (LoadError → Prop)} {error : LoadError} :
      objection error → First (objection :: rest) error
  | later {objection : LoadError → Prop} {rest : List (LoadError → Prop)} {error : LoadError} :
      (∀ other, ¬ objection other) → First rest error → First (objection :: rest) error

theorem First.unique {objections : List (LoadError → Prop)} {error other : LoadError}
    (definite : ∀ objection ∈ objections, ∀ a b, objection a → objection b → a = b)
    (h : First objections error) (h' : First objections other) : error = other := by
  induction h with
  | here happlies =>
    cases h' with
    | here happlies' => exact definite _ (List.mem_cons_self ..) _ _ happlies happlies'
    | later hnot => exact absurd happlies (hnot _)
  | later hnot _ ih =>
    cases h' with
    | here happlies' => exact absurd happlies' (hnot _)
    | later _ h' => exact ih (fun _ hmem => definite _ (List.mem_cons_of_mem _ hmem)) h'

def Clear (objections : List (LoadError → Prop)) : Prop :=
  ∀ objection ∈ objections, ∀ error, ¬ objection error

theorem clear_cons {objection : LoadError → Prop} {rest : List (LoadError → Prop)} :
    Clear (objection :: rest) ↔ (∀ error, ¬ objection error) ∧ Clear rest :=
  List.forall_mem_cons

theorem clear_nil : Clear [] :=
  fun _ h => absurd h List.not_mem_nil

theorem Clear.append {first second : List (LoadError → Prop)} (h : Clear first)
    (h' : Clear second) : Clear (first ++ second) :=
  List.forall_mem_append.mpr ⟨h, h'⟩

theorem First.not_clear {objections : List (LoadError → Prop)} {error : LoadError}
    (h : First objections error) : ¬ Clear objections := by
  intro clear
  induction h with
  | here happlies => exact (clear_cons.mp clear).1 _ happlies
  | later _ _ ih => exact ih (clear_cons.mp clear).2

theorem First.append {first : List (LoadError → Prop)} {error : LoadError} (h : First first error)
    (second : List (LoadError → Prop)) : First (first ++ second) error := by
  induction h with
  | here happlies => exact .here happlies
  | later hnot _ ih => exact .later hnot ih

theorem First.prepend {first second : List (LoadError → Prop)} {error : LoadError}
    (clear : Clear first) (h : First second error) : First (first ++ second) error := by
  induction first with
  | nil => exact h
  | cons objection rest ih =>
    obtain ⟨hnot, clear⟩ := clear_cons.mp clear
    exact .later hnot (ih clear)

/-- An outcome goes with these objections: it is the first that applies, or there is none. -/
def Tells (objections : List (LoadError → Prop)) {α : Type} : Except LoadError α → Prop
  | .error error => First objections error
  | .ok _ => Clear objections

namespace Bundle

section Objections

variable (files : FileSystem) (host payload out : Path)

def hostMissing (error : LoadError) : Prop :=
  files.Missing host ∧ error = .notFound host

def hostDenied (error : LoadError) : Prop :=
  files.Denied host ∧ error = .io (.system .permissionDenied)

def hostEmbedded (error : LoadError) : Prop :=
  ∃ (data : FileData) (trailer : Trailer), files.data? host = some data ∧
    trailer.Ends data.content ∧ error = .alreadyEmbedded host trailer.offset trailer.size

/-- The output is there, and is the same place as an input, however the paths are spelled. -/
def overwriting (error : LoadError) : Prop :=
  (∃ location, files.canonical? out = some location ∧
    (files.canonical? host = some location ∨ files.canonical? payload = some location)) ∧
    error = .io (.overwritesInput out)

def hostUnheld (error : LoadError) : Prop :=
  ∃ data, files.data? host = some data ∧ ¬ Memory.Holds data.content.length ∧
    error = .io (.outOfMemory data.content.length .wholeFile)

def payloadMissing (error : LoadError) : Prop :=
  files.Missing payload ∧ error = .notFound payload

def payloadDenied (error : LoadError) : Prop :=
  files.Denied payload ∧ error = .io (.system .permissionDenied)

def payloadSmall (error : LoadError) : Prop :=
  ∃ data, files.data? payload = some data ∧ data.content.length < 4 ∧
    error = .tooSmall payload data.content.length 4

def hostEmpty (error : LoadError) : Prop :=
  (∃ data, files.data? host = some data ∧ data.content.length = 0) ∧ error = .tooSmall host 0 1

def hostObjections : List (LoadError → Prop) :=
  [hostMissing files host, hostDenied files host, hostEmbedded files host,
    overwriting files host payload out, hostUnheld files host]

def payloadObjections : List (LoadError → Prop) :=
  [payloadMissing files payload, payloadDenied files payload, payloadSmall files payload]

/-- What there may be to object to in the arguments, in the order in which it is told. -/
def objections : List (LoadError → Prop) :=
  hostObjections files host payload out ++ payloadObjections files payload ++ [hostEmpty files host]

end Objections

/-! Facts about the files that leave no room for an objection. -/

theorem not_hostEmbedded_of_short {files : FileSystem} {host : Path} {data : FileData}
    (hdata : files.data? host = some data) (hshort : data.content.length < 16) (error : LoadError) :
    ¬ hostEmbedded files host error := by
  rintro ⟨found, trailer, hfound, ends, -⟩
  cases hdata.symm.trans hfound
  have hwidth : Trailer.width = 16 := rfl
  have := ends.total
  omega

theorem not_hostUnheld_of_data? {files : FileSystem} {host : Path} {data : FileData}
    (hdata : files.data? host = some data) (holds : Memory.Holds data.content.length)
    (error : LoadError) : ¬ hostUnheld files host error := by
  rintro ⟨found, hfound, hnone, -⟩
  cases hdata.symm.trans hfound
  exact hnone holds

theorem not_payloadSmall_of_data? {files : FileSystem} {payload : Path} {data : FileData}
    (hdata : files.data? payload = some data) (henough : 4 ≤ data.content.length)
    (error : LoadError) : ¬ payloadSmall files payload error := by
  rintro ⟨found, hfound, hsmall, -⟩
  cases hdata.symm.trans hfound
  omega

theorem not_hostEmpty_of_data? {files : FileSystem} {host : Path} {data : FileData}
    (hdata : files.data? host = some data) (hfull : data.content.length ≠ 0)
    (error : LoadError) : ¬ hostEmpty files host error := by
  rintro ⟨⟨found, hfound, hempty⟩, -⟩
  cases hdata.symm.trans hfound
  exact hfull hempty

theorem not_overwriting_of_absent {files : FileSystem} {host payload out : Path}
    (hout : files.canonical? out = none) (error : LoadError) :
    ¬ overwriting files host payload out error := by
  rintro ⟨⟨location, hlocation, -⟩, -⟩
  cases hout.symm.trans hlocation

/-! What checking the inputs comes to. -/

section Checks

variable {host payload out : Path} {world : World}

theorem readHost_of_error {fault : Fault} (hopen : world.files.openRead host = .error fault) :
    (readHost host payload out world).1 = .error (.ofOpen host fault) := by
  have hlocate : Trailer.locate host world = (.error (.ofOpen host fault), world) := by
    simp only [Trailer.locate, hopen]
  rw [readHost, bind_error hlocate]

theorem readHost_fst {content : Bytes} (hread : world.files.read host = .ok content) :
    (readHost host payload out world).1 = match Trailer.ending? content with
      | some found => .error (.alreadyEmbedded host found.offset found.size)
      | none =>
        if world.files.sameFile out host || world.files.sameFile out payload then
          .error (.io (.overwritesInput out))
        else if Memory.Holds content.length then .ok content
        else .error (.io (.outOfMemory content.length .wholeFile)) := by
  obtain ⟨id, hopen, hcontent⟩ := read_eq_ok_iff.mp hread
  have hlocate : Trailer.locate host world =
      (.ok (Trailer.ending? content), (Trailer.locate host world).2) :=
    Prod.ext
      ((Trailer.locate_fst host world).trans (Trailer.located_of_openRead hopen hcontent)) rfl
  have hfiles : (Trailer.locate host world).2.files = world.files :=
    (Trailer.keeps_silent_locate host).map World.files world
  rw [readHost, bind_ok hlocate]
  cases Trailer.ending? content with
  | some found => rfl
  | none =>
    simp only [bind_apply, get_apply, hfiles, FileSystem.readWhole, hread]
    split
    · rfl
    · split <;> rfl

theorem readPayload_of_error {fault : Fault}
    (hopen : world.files.openRead payload = .error fault) :
    (readPayload payload world).1 = .error (.ofOpen payload fault) := by
  simp only [readPayload, bind_apply, get_apply, hopen, fail_apply]

theorem readPayload_fst {content : Bytes} (hread : world.files.read payload = .ok content) :
    ∃ handle, (readPayload payload world).1 =
      if content.length < 4 then .error (.tooSmall payload content.length 4)
      else .ok (handle, content.length, content.take 4) := by
  obtain ⟨id, hopen, hcontent⟩ := read_eq_ok_iff.mp hread
  have hleast : Magic.gguf.length = 4 := rfl
  refine ⟨.file id, ?_⟩
  simp only [readPayload, bind_apply, get_apply, hopen, size_eq hcontent, hleast]
  split
  · rfl
  · simp only [hcontent]
    split <;> rfl

theorem readHost_tells (plain : world.files.Plain host) :
    Tells (hostObjections world.files host payload out) (readHost host payload out world).1 := by
  rcases plain with ⟨data, hdata, hbounded⟩ | hmissing
  · have hthere : ∀ error, ¬ hostMissing world.files host error :=
      fun _ h => not_missing_of_data? hdata h.1
    cases hpermits : permits data ownerRead with
    | false =>
      have hdenied : world.files.Denied host := ⟨data, hdata, hpermits⟩
      rw [readHost_of_error hdenied.openRead]
      exact .later hthere (.here ⟨hdenied, rfl⟩)
    | true =>
    have hreadable : ∀ error, ¬ hostDenied world.files host error :=
      fun _ h => not_denied_of_data? hdata hpermits h.1
    obtain ⟨id, hopen, hcontent⟩ := openRead_of_data? hdata hpermits
    have hlimit : lengthLimit < UInt64.size := by decide
    have hending : ∀ trailer, Trailer.ending? data.content = some trailer ↔
        trailer.Ends data.content :=
      fun _ => Trailer.ending?_eq_some_iff (Nat.lt_trans hbounded hlimit)
    rw [readHost_fst (read_of_openRead hopen hcontent)]
    cases hfound : Trailer.ending? data.content with
    | some found =>
      exact .later hthere (.later hreadable
        (.here ⟨data, found, hdata, (hending found).mp hfound, rfl⟩))
    | none =>
      have hbare : ∀ error, ¬ hostEmbedded world.files host error := by
        rintro error ⟨other, trailer, hother, ends, -⟩
        cases hdata.symm.trans hother
        cases hfound.symm.trans ((hending trailer).mpr ends)
      have hsame : (world.files.sameFile out host || world.files.sameFile out payload) = true ↔
          ∃ location, world.files.canonical? out = some location ∧
            (world.files.canonical? host = some location ∨
              world.files.canonical? payload = some location) := by
        rw [Bool.or_eq_true, sameFile_eq_true_iff, sameFile_eq_true_iff, ← exists_or]
        simp only [and_or_left]
      dsimp only
      split
      · rename_i hoverwrites
        exact .later hthere (.later hreadable (.later hbare (.here ⟨hsame.mp hoverwrites, rfl⟩)))
      · rename_i hapart
        have hspares : ∀ error, ¬ overwriting world.files host payload out error :=
          fun _ h => hapart (hsame.mpr h.1)
        split
        · rename_i holds
          exact clear_cons.mpr ⟨hthere, clear_cons.mpr ⟨hreadable,
            clear_cons.mpr ⟨hbare, clear_cons.mpr ⟨hspares,
              clear_cons.mpr ⟨not_hostUnheld_of_data? hdata holds, clear_nil⟩⟩⟩⟩⟩
        · rename_i hnone
          exact .later hthere (.later hreadable (.later hbare (.later hspares
            (.here ⟨data, hdata, hnone, rfl⟩))))
  · rw [readHost_of_error hmissing]
    exact .here ⟨hmissing, rfl⟩

theorem readPayload_tells (plain : world.files.Plain payload) :
    Tells (payloadObjections world.files payload) (readPayload payload world).1 := by
  rcases plain with ⟨data, hdata, -⟩ | hmissing
  · have hthere : ∀ error, ¬ payloadMissing world.files payload error :=
      fun _ h => not_missing_of_data? hdata h.1
    cases hpermits : permits data ownerRead with
    | false =>
      have hdenied : world.files.Denied payload := ⟨data, hdata, hpermits⟩
      rw [readPayload_of_error hdenied.openRead]
      exact .later hthere (.here ⟨hdenied, rfl⟩)
    | true =>
    have hreadable : ∀ error, ¬ payloadDenied world.files payload error :=
      fun _ h => not_denied_of_data? hdata hpermits h.1
    obtain ⟨id, hopen, hcontent⟩ := openRead_of_data? hdata hpermits
    obtain ⟨handle, hresult⟩ := readPayload_fst (read_of_openRead hopen hcontent)
    rw [hresult]
    split
    · rename_i hsmall
      exact .later hthere (.later hreadable (.here ⟨data, hdata, hsmall, rfl⟩))
    · rename_i hlarge
      have henough : ∀ error, ¬ payloadSmall world.files payload error := by
        rintro error ⟨other, hother, hsmall, -⟩
        cases hdata.symm.trans hother
        exact hlarge hsmall
      exact clear_cons.mpr ⟨hthere, clear_cons.mpr ⟨hreadable,
        clear_cons.mpr ⟨henough, clear_nil⟩⟩⟩
  · rw [readPayload_of_error hmissing]
    exact .here ⟨hmissing, rfl⟩

theorem prepare_of_error {align : Option UInt64} {error : LoadError}
    (h : (readHost host payload out world).1 = .error error) :
    (prepare host payload out align world).1 = .error error := by
  have hhost : readHost host payload out world =
      (.error error, (readHost host payload out world).2) := Prod.ext h rfl
  rw [prepare, bind_error hhost]

theorem prepare_of_readHost {align : Option UInt64} {content : Bytes}
    (h : (readHost host payload out world).1 = .ok content) :
    ∃ looked : World, looked.files = world.files ∧
      (prepare host payload out align world).1 = match (readPayload payload looked).1 with
      | .error error => .error error
      | .ok (handle, size, head) =>
        if content.length = 0 then .error (.tooSmall host 0 1)
        else .ok ⟨content, handle, head,
          ⟨payloadOffset (.ofNat content.length) align, .ofNat size⟩⟩ := by
  have hhost : readHost host payload out world =
      (.ok content, (readHost host payload out world).2) := Prod.ext h rfl
  refine ⟨_, keeps_files_readHost host payload out world, ?_⟩
  rw [prepare, bind_ok hhost, bind_apply]
  rcases readPayload payload (readHost host payload out world).2
    with ⟨error | ⟨handle, size, head⟩, opened⟩
  · rfl
  · dsimp only
    split <;> rfl

end Checks

theorem prepare_tells {host payload out : Path} {world : World} (align : Option UInt64)
    (plain : ∀ path ∈ [host, payload], world.files.Plain path) :
    Tells (objections world.files host payload out)
      (prepare host payload out align world).1 := by
  have hhost : Tells (hostObjections world.files host payload out) _ :=
    readHost_tells (plain host (by simp))
  cases hread : (readHost host payload out world).1 with
  | error error =>
    rw [hread] at hhost
    rw [prepare_of_error hread]
    exact (hhost.append _).append _
  | ok content =>
    rw [hread] at hhost
    have hcontent : world.files.read host = .ok content := (readWhole_eq_ok_iff.mp
      (read_of_readHost
        (Prod.ext hread rfl : readHost host payload out world = (.ok content, _)))).1
    obtain ⟨data, hdata, rfl⟩ := data?_of_read hcontent
    obtain ⟨looked, hlooked, hprepare⟩ := prepare_of_readHost hread
    have hpayload :=
      readPayload_tells (hlooked ▸ plain payload (by simp) : looked.files.Plain payload)
    rw [hprepare]
    rw [hlooked] at hpayload
    cases hopened : (readPayload payload looked).1 with
    | error error =>
      rw [hopened] at hpayload
      exact (First.prepend hhost hpayload).append _
    | ok opened =>
      rw [hopened] at hpayload
      have clear := Clear.append hhost hpayload
      dsimp only
      split
      · rename_i hempty
        exact First.prepend clear (.here ⟨⟨data, hdata, hempty⟩, rfl⟩)
      · rename_i hfull
        refine clear.append (clear_cons.mpr ⟨?_, clear_nil⟩)
        rintro error ⟨⟨other, hother, hempty⟩, -⟩
        cases hdata.symm.trans hother
        exact hfull hempty

theorem definite_objections (files : FileSystem) (host payload out : Path) :
    ∀ objection ∈ objections files host payload out,
      ∀ a b, objection a → objection b → a = b := by
  simp only [objections, hostObjections, payloadObjections, List.cons_append, List.nil_append,
    List.forall_mem_cons, List.not_mem_nil, false_imp_iff, implies_true, and_true]
  refine ⟨?_, ?_, ?_, ?_, ?_, ?_, ?_, ?_, ?_⟩
  · rintro a b ⟨-, rfl⟩ ⟨-, rfl⟩
    rfl
  · rintro a b ⟨-, rfl⟩ ⟨-, rfl⟩
    rfl
  · rintro a b ⟨data, first, hdata, hfirst, rfl⟩ ⟨other, second, hother, hsecond, rfl⟩
    cases hdata.symm.trans hother
    rw [hfirst.unique hsecond]
  · rintro a b ⟨-, rfl⟩ ⟨-, rfl⟩
    rfl
  · rintro a b ⟨data, hdata, -, rfl⟩ ⟨other, hother, -, rfl⟩
    cases hdata.symm.trans hother
    rfl
  · rintro a b ⟨-, rfl⟩ ⟨-, rfl⟩
    rfl
  · rintro a b ⟨-, rfl⟩ ⟨-, rfl⟩
    rfl
  · rintro a b ⟨data, hdata, -, rfl⟩ ⟨other, hother, -, rfl⟩
    cases hdata.symm.trans hother
    rfl
  · rintro a b ⟨-, rfl⟩ ⟨-, rfl⟩
    rfl

theorem unnamed_of_free {files opened : FileSystem} {out : Path} {id : Nat}
    (hcreate : files.create (Path.temporary out) = .ok (id, opened))
    (free : files.Free (Path.temporary out)) (location : Location) :
    files.entry? location ≠ some (.file id) := by
  obtain ⟨mode, hemptied, -⟩ := (created_of_create hcreate).emptied
  let draft : Draft files out opened :=
    ⟨id, opened, hcreate, ⟨[], mode⟩, ⟨rfl, rfl, fun _ _ => rfl, hemptied⟩⟩
  obtain ⟨parent, htarget, -⟩ := draft.target_built
  rcases draft.occupied_or_vacant htarget with ⟨entry, -, hstood, -⟩ | ⟨-, -, hunnamed⟩
  · cases hstood.symm.trans (free.vacant htarget)
  · exact hunnamed location

theorem Draft.rename_ok {files built : FileSystem} {out : Path} (draft : Draft files out built)
    (replaceable : files.Replaceable out) :
    ∃ after, built.rename (Path.temporary out) out = .ok after := by
  obtain ⟨above, htarget, hbuilt⟩ := draft.target_built
  obtain ⟨parent, name, hout, hdirectory⟩ := replaceable
  obtain ⟨entry, hentry, hother⟩ : ∃ entry,
      built.entry? (above ++ [Path.stem out ++ ".partial"]) = some entry ∧ entry ≠ .directory := by
    rcases draft.occupied_or_vacant htarget with ⟨entry, hother, -, hentry⟩ | ⟨-, hentries, -⟩
    · exact ⟨entry, hentry, hother⟩
    · refine ⟨.file draft.id, ?_, fun h => by cases h⟩
      rw [entry?_set (by simp) hentries, if_pos rfl]
  refine rename_of_named hbuilt hentry hother
    (target_mono (fun _ _ h => draft.kept h) draft.working hout) fun hstood => ?_
  rcases draft.new hstood with hfile | hstood
  · cases hfile
  · exact hdirectory hstood

section Accepted

variable {host payload out : Path} {align : Option UInt64} {world checked : World} {parts : Parts}

/-- Once the inputs are accepted, only the files to be written can stand in the way. -/
theorem embed_succeeds_iff (bounded : ∀ path ∈ [host, payload], world.files.Bounded path)
    (hprepare : prepare host payload out align world = (.ok parts, checked))
    (free : world.files.Free (Path.temporary out)) :
    (∃ trailer, (embed host payload out align world).1 = .ok trailer) ↔
      (∃ id opened, world.files.create (Path.temporary out) = .ok (id, opened)) ∧
        world.files.Replaceable out ∧
        parts.trailer.offset.toNat + parts.trailer.size.toNat + 16 < lengthLimit := by
  obtain ⟨hostId, payloadId, hostData, payloadData, prepared⟩ := prepared_of_prepare hprepare
  constructor
  · rintro ⟨trailer, hok⟩
    obtain ⟨built, attempt, verified, htrailer, hrename⟩ := verified_of_embed hok
    obtain ⟨place, name, hout, hdirectory, -⟩ := attempt.placed_out hrename free
    rw [← embedAmid_id] at hok
    obtain ⟨hsame, -⟩ := created_of_embedAmid hprepare hok
    refine ⟨⟨attempt.id, attempt.opened, attempt.create⟩, ⟨place, name, hout, hdirectory⟩, ?_⟩
    rw [hsame, ← htrailer]
    exact verified.bounded
  · rintro ⟨⟨made, opened, hcreate⟩, replaceable, hfits⟩
    have apart : parts.payload ≠ .file made := by
      rw [prepared.parts]
      intro heq
      cases heq
      obtain ⟨location, hnamed⟩ := named_of_leads? prepared.payload
      exact unnamed_of_free hcreate free location hnamed
    have hdelivered : parts.head.length +
        (remainder world.files parts.payload parts.head.length).length =
          parts.trailer.size.toNat := by
      rw [← List.length_append, prepared.remainder, (prepared.trailer_eq bounded).2]
    obtain ⟨built, draft, -, -, finishes⟩ := embedAmid_ends id bounded hprepare
      (fun data hdata => ⟨hostId, data.content, prepared.host, by
        cases prepared.data.1.symm.trans hdata
        exact prepared.hostFile⟩) rfl hcreate apart
    obtain ⟨after, hrename⟩ := draft.rename_ok replaceable
    have hwhole := written_whole hdelivered rfl hfits
    simp only [id_eq] at finishes
    rw [hwhole] at finishes
    obtain ⟨-, -, hends⟩ := finishes
    rw [hrename] at hends
    rw [← embedAmid_id]
    exact ⟨_, hends.1⟩

end Accepted

end Bundle

/-- For all arguments and alignments, when each input is a file or is missing.  The first objection
decides, and leaves the files as they are.  Without one, and with the temporary name free, the
embedding succeeds exactly when a temporary file can be opened, a file can get the name of the
output, and a file can be as long as the bundle.  Neither a host that is no known executable nor a
payload without its magic is among the objections. -/
theorem embed_accepts {host payload out : Path} (align : Option UInt64) (world : World)
    (plain : ∀ path ∈ [host, payload], world.files.Plain path) :
    let ran := embed host payload out align world
    (∀ error, First (objections world.files host payload out) error →
      ran.1 = .error error ∧ ran.2.files = world.files) ∧
    (Clear (objections world.files host payload out) → world.files.Free (Path.temporary out) →
      ∃ hostData payloadData, world.files.data? host = some hostData ∧
        world.files.data? payload = some payloadData ∧
        ((∃ trailer, ran.1 = .ok trailer) ↔
          (∃ id opened, world.files.create (Path.temporary out) = .ok (id, opened)) ∧
            world.files.Replaceable out ∧
            (payloadOffset (.ofNat hostData.content.length) align).toNat +
              payloadData.content.length + 16 < lengthLimit)) := by
  intro ran
  have htells : Tells (objections world.files host payload out)
      (prepare host payload out align world).1 := prepare_tells align plain
  have hfiles := keeps_files_prepare host payload out align world
  cases hprepare : prepare host payload out align world with
  | mk result checked =>
  rw [hprepare] at htells hfiles
  cases result with
  | error told =>
    refine ⟨?_, fun clear => absurd clear htells.not_clear⟩
    intro error first
    have hran : ran = (.error told, checked) := by
      simp only [ran, embed_apply, hprepare]
    rw [hran, first.unique (definite_objections _ _ _ _) htells]
    exact ⟨rfl, hfiles⟩
  | ok parts =>
    refine ⟨fun error first => absurd htells first.not_clear, fun _ free => ?_⟩
    have bounded : ∀ path ∈ [host, payload], world.files.Bounded path :=
      fun path hpath => (plain path hpath).bounded
    obtain ⟨hostId, payloadId, hostData, payloadData, prepared⟩ := prepared_of_prepare hprepare
    have hoffset : parts.trailer.offset =
        payloadOffset (.ofNat hostData.content.length) align := by
      rw [prepared.parts]
    refine ⟨hostData, payloadData, prepared.data.1, prepared.data.2, ?_⟩
    rw [← hoffset, ← (prepared.trailer_eq bounded).2]
    exact embed_succeeds_iff bounded hprepare free

/-- A host of one byte, the same host without the right to read it, an empty one, a payload without
its magic, and one that is too small. -/
def meagre : FileSystem where
  entries := [(["work"], .directory), (["work", "host"], .file 0), (["work", "locked"], .file 1),
    (["work", "nothing"], .file 2), (["work", "m"], .file 3), (["work", "tiny"], .file 4)]
  files := [(0, ⟨[0x7f], 0o755⟩), (1, ⟨[0x7f], 0o111⟩), (2, ⟨[], 0o644⟩),
    (3, ⟨[1, 2, 3, 4], 0o644⟩), (4, ⟨[1], 0o644⟩)]
  working := ["work"]

theorem plain_meagre : ∀ path ∈ ["host", "locked", "nothing", "m", "tiny"], meagre.Plain path := by
  have hdata : ∀ path ∈ ["host", "locked", "nothing", "m", "tiny"],
      (meagre.data? path).any (fun data => decide (data.content.length < lengthLimit)) = true := by
    decide +kernel
  intro path hpath
  obtain ⟨data, hfound, hbounded⟩ := Option.any_eq_true _ _ |>.mp (hdata path hpath)
  exact .inl ⟨data, hfound, of_decide_eq_true hbounded⟩

theorem ready_meagre : meagre.Free "out.partial" ∧
    (∃ id opened, meagre.create "out.partial" = .ok (id, opened)) ∧ meagre.Replaceable "out" := by
  refine ⟨?_, ?_, ["work"], "out", by decide +kernel, by decide +kernel⟩
  · intro location entry h
    have hmissing : meagre.resolve false "out.partial" =
        .ok (.missing ["work"] "out.partial" false) := by
      decide +kernel
    rw [hmissing] at h
    cases h
  · have hcreate : (meagre.create "out.partial").isOk = true := by decide +kernel
    cases h : meagre.create "out.partial" with
    | error fault =>
      rw [h] at hcreate
      cases hcreate
    | ok made => exact ⟨made.1, made.2, rfl⟩

/-- An unknown host takes a payload without its magic.  An empty host with a payload that is too
small is refused for the payload, or for the output if that is the payload by another name. -/
theorem embed_accepts_meagre :
    (∃ trailer, (embed "host" "m" "out" none (.ofFiles meagre)).1 = .ok trailer) ∧
      (embed "nothing" "tiny" "out" none (.ofFiles meagre)).1 = .error (.tooSmall "tiny" 1 4) ∧
      (embed "nothing" "tiny" "../work/tiny" none (.ofFiles meagre)).1 =
        .error (.io (.overwritesInput "../work/tiny")) ∧
      (embed "nothing" "tiny" "../work/tiny" none (.ofFiles meagre)).2.files = meagre := by
  have hhost : meagre.data? "host" = some ⟨[0x7f], 0o755⟩ := by decide +kernel
  have hnothing : meagre.data? "nothing" = some ⟨[], 0o644⟩ := by decide +kernel
  have hpayload : meagre.data? "m" = some ⟨[1, 2, 3, 4], 0o644⟩ := by decide +kernel
  have htiny : meagre.data? "tiny" = some ⟨[1], 0o644⟩ := by decide +kernel
  have hout : meagre.canonical? "out" = none := by decide +kernel
  have hagain : meagre.canonical? "../work/tiny" = some ["work", "tiny"] := by decide +kernel
  have hplace : meagre.canonical? "tiny" = some ["work", "tiny"] := by decide +kernel
  have hthere : ∀ error, ¬ hostMissing meagre "nothing" error :=
    fun _ h => not_missing_of_data? hnothing h.1
  have hreadable : ∀ error, ¬ hostDenied meagre "nothing" error :=
    fun _ h => not_denied_of_data? hnothing (by decide) h.1
  have hbare : ∀ error, ¬ hostEmbedded meagre "nothing" error :=
    not_hostEmbedded_of_short hnothing (by decide)
  have plain : ∀ host ∈ ["host", "nothing"], ∀ payload ∈ ["m", "tiny"],
      ∀ path ∈ [host, payload], meagre.Plain path := by
    intro host hmem payload hmem' path hpath
    refine plain_meagre path ?_
    revert host payload path
    decide
  refine ⟨?_, ?_, ?_⟩
  · obtain ⟨free, hcreate, replaceable⟩ := ready_meagre
    have clear : Clear (objections meagre "host" "m" "out") := by
      simp only [objections, hostObjections, payloadObjections, List.cons_append, List.nil_append,
        clear_cons, clear_nil, and_true]
      exact ⟨fun _ h => not_missing_of_data? hhost h.1,
        fun _ h => not_denied_of_data? hhost (by decide) h.1,
        not_hostEmbedded_of_short hhost (by decide), not_overwriting_of_absent hout,
        not_hostUnheld_of_data? hhost (by decide), fun _ h => not_missing_of_data? hpayload h.1,
        fun _ h => not_denied_of_data? hpayload (by decide) h.1,
        not_payloadSmall_of_data? hpayload (by decide), not_hostEmpty_of_data? hhost (by decide)⟩
    obtain ⟨hostData, payloadData, hhostData, hpayloadData, hiff⟩ :=
      (embed_accepts none (.ofFiles meagre)
        (plain "host" (by decide) "m" (by decide))).2 clear free
    cases hhost.symm.trans hhostData
    cases hpayload.symm.trans hpayloadData
    exact hiff.mpr ⟨hcreate, replaceable, by decide⟩
  · have first : First (objections meagre "nothing" "tiny" "out") (.tooSmall "tiny" 1 4) := by
      refine .later hthere (.later hreadable (.later hbare ?_))
      refine .later (not_overwriting_of_absent hout) ?_
      refine .later (not_hostUnheld_of_data? hnothing (by decide)) ?_
      refine .later (fun _ h => not_missing_of_data? htiny h.1) ?_
      refine .later (fun _ h => not_denied_of_data? htiny (by decide) h.1) ?_
      exact .here ⟨_, htiny, by decide, rfl⟩
    exact ((embed_accepts none (.ofFiles meagre)
      (plain "nothing" (by decide) "tiny" (by decide))).1 _ first).1
  · have first : First (objections meagre "nothing" "tiny" "../work/tiny")
        (.io (.overwritesInput "../work/tiny")) :=
      .later hthere (.later hreadable (.later hbare (.here ⟨⟨_, hagain, .inr hplace⟩, rfl⟩)))
    exact (embed_accepts none (.ofFiles meagre)
      (plain "nothing" (by decide) "tiny" (by decide))).1 _ first

/-- A host that may not be read is refused although all other conditions for a success hold. -/
theorem embed_accepts_locked :
    Clear [hostMissing meagre "locked", hostEmbedded meagre "locked",
        overwriting meagre "locked" "m" "out", hostUnheld meagre "locked",
        payloadMissing meagre "m", payloadSmall meagre "m", hostEmpty meagre "locked"] ∧
      meagre.Free "out.partial" ∧
      (∃ id opened, meagre.create "out.partial" = .ok (id, opened)) ∧ meagre.Replaceable "out" ∧
      (payloadOffset (.ofNat 1) none).toNat + 4 + 16 < lengthLimit ∧
      (embed "locked" "m" "out" none (.ofFiles meagre)).1 =
        .error (.io (.system .permissionDenied)) := by
  have hhost : meagre.data? "locked" = some ⟨[0x7f], 0o111⟩ := by decide +kernel
  have hpayload : meagre.data? "m" = some ⟨[1, 2, 3, 4], 0o644⟩ := by decide +kernel
  have hout : meagre.canonical? "out" = none := by decide +kernel
  obtain ⟨free, hcreate, replaceable⟩ := ready_meagre
  refine ⟨?_, free, hcreate, replaceable, by decide, by decide +kernel⟩
  simp only [clear_cons, clear_nil, and_true]
  exact ⟨fun _ h => not_missing_of_data? hhost h.1, not_hostEmbedded_of_short hhost (by decide),
    not_overwriting_of_absent hout, not_hostUnheld_of_data? hhost (by decide),
    fun _ h => not_missing_of_data? hpayload h.1, not_payloadSmall_of_data? hpayload (by decide),
    not_hostEmpty_of_data? hhost (by decide)⟩

end ModelBundle
