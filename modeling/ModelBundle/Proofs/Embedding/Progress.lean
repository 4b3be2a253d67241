import ModelBundle.Proofs.Embedding.Building
import ModelBundle.Proofs.Paths

/-!
How far an embedding comes, and which files it leaves behind there.
-/

namespace ModelBundle.Bundle

open ModelBundle.Action

inductive Progress where
  /-- The inputs were refused. -/
  | refused
  /-- The temporary file could not be opened for writing. -/
  | unopened
  /-- The temporary file could not be written or checked. -/
  | unfinished
  /-- The bundle was written and could not be given its name. -/
  | unpublished
  | published
deriving DecidableEq, Repr

def progress (host payload out : Path) (align : Option UInt64) (world : World) : Progress :=
  match prepare host payload out align world with
  | (.error _, _) => .refused
  | (.ok parts, world) =>
    match world.files.create (Path.temporary out) with
    | .error _ => .unopened
    | .ok _ =>
      match build host (Path.temporary out) parts world with
      | (.error _, _) => .unfinished
      | (.ok (), world) =>
        match world.files.rename (Path.temporary out) out with
        | .error _ => .unpublished
        | .ok _ => .published

/-- The temporary file of an embedding after it was written: which file that is, and what it holds
then. -/
structure Draft (files : FileSystem) (out : Path) (built : FileSystem) where
  id : Nat
  opened : FileSystem
  create : files.create (Path.temporary out) = .ok (id, opened)
  data : FileData
  rewritten : Rewritten opened built id data

structure Attempt (files : FileSystem) (host payload out : Path) (align : Option UInt64)
    (built : FileSystem) extends Draft files out built where
  parts : Parts
  hostId : Nat
  payloadId : Nat
  hostData : FileData
  payloadData : FileData
  prepared : Prepared files host payload align parts hostId payloadId hostData payloadData
  outgrows : Outgrows data.content hostData.content payloadData.content

/-- The bundle as it should be in the end: the content, and the mode of the host. -/
def bundle? (files : FileSystem) (host payload : Path) (align : Option UInt64) : Option FileData :=
  match files.data? host, files.data? payload with
  | some host, some payload => some
    { content := content host.content payload.content
        ⟨payloadOffset (.ofNat host.content.length) align, .ofNat payload.content.length⟩
      mode := host.mode }
  | _, _ => none

theorem Prepared.data {files : FileSystem} {host payload : Path} {align : Option UInt64}
    {parts : Parts} {hostId payloadId : Nat} {hostData payloadData : FileData}
    (h : Prepared files host payload align parts hostId payloadId hostData payloadData) :
    files.data? host = some hostData ∧ files.data? payload = some payloadData := by
  rw [FileSystem.data?_eq_bind, FileSystem.data?_eq_bind, h.host, h.payload, Option.bind_some,
    Option.bind_some]
  exact ⟨h.hostFile, h.payloadFile⟩

theorem publish_apply (host out : Path) (parts : Parts) (world : World) :
    publish host out parts world = match build host (Path.temporary out) parts world with
      | (.error error, built) => (.error error, discard (Path.temporary out) built)
      | (.ok (), built) => match built.files.rename (Path.temporary out) out with
        | .error fault => (.error (.io fault), built)
        | .ok files => (.ok (), { built with files }) := by
  simp only [publish, bind_apply, attempt_apply]
  rcases build host (Path.temporary out) parts world with ⟨error | done, built⟩
  · rfl
  · simp only [onFiles]
    cases built.files.rename (Path.temporary out) out <;> rfl

theorem embed_apply (host payload out : Path) (align : Option UInt64) (world : World) :
    embed host payload out align world = match prepare host payload out align world with
      | (.error error, checked) => (.error error, checked)
      | (.ok parts, checked) => match publish host out parts checked with
        | (.error error, left) => (.error error, left)
        | (.ok (), left) => (.ok parts.trailer,
          left.note (.embedded parts.trailer.size parts.trailer.offset out)) := by
  simp only [embed, bind_apply]
  rcases prepare host payload out align world with ⟨error | parts, checked⟩
  · rfl
  · dsimp only
    rcases publish host out parts checked with ⟨error | done, left⟩ <;> rfl

/-- What an embedding leaves behind, wherever it ends. -/
theorem embed_ends (host payload out : Path) (align : Option UInt64) (world : World) :
    match progress host payload out align world with
    | .refused =>
      (∃ error, (embed host payload out align world).1 = .error error) ∧
        (embed host payload out align world).2.files = world.files
    | .unopened =>
      (∃ error, (embed host payload out align world).1 = .error error) ∧
        (∃ parts hostId payloadId hostData payloadData, Prepared world.files host payload align
          parts hostId payloadId hostData payloadData) ∧
        (embed host payload out align world).2.files =
          world.files.without (Path.temporary out)
    | .unfinished =>
      (∃ error, (embed host payload out align world).1 = .error error) ∧
        ∃ built, Nonempty (Attempt world.files host payload out align built) ∧
          (embed host payload out align world).2.files = built.without (Path.temporary out)
    | .unpublished =>
      (∃ error, (embed host payload out align world).1 = .error error) ∧
        ∃ built, (∃ attempt : Attempt world.files host payload out align built,
            bundle? world.files host payload align = some attempt.data) ∧
          (embed host payload out align world).2.files = built
    | .published =>
      (∃ trailer, (embed host payload out align world).1 = .ok trailer) ∧
        ∃ built, (∃ attempt : Attempt world.files host payload out align built,
            bundle? world.files host payload align = some attempt.data) ∧
          built.rename (Path.temporary out) out =
            .ok (embed host payload out align world).2.files := by
  have hfiles := keeps_files_prepare host payload out align world
  rcases hprepare : prepare host payload out align world with ⟨result, checked⟩
  rw [hprepare] at hfiles
  cases result with
  | error error =>
    simp only [progress, embed_apply, hprepare]
    exact ⟨⟨error, rfl⟩, hfiles⟩
  | ok parts =>
    obtain ⟨hostId, payloadId, hostData, payloadData, prepared⟩ := prepared_of_prepare hprepare
    dsimp only at hfiles
    rw [← hfiles] at prepared ⊢
    cases hcreate : checked.files.create (Path.temporary out) with
    | error fault =>
      have hbuild : build host (Path.temporary out) parts checked =
          (.error (.io fault), checked) := by
        simp only [build, write, onFiles, bind_apply, hcreate]
      simp only [progress, embed_apply, publish_apply, hprepare, hcreate, hbuild, files_discard]
      exact ⟨⟨_, rfl⟩, ⟨parts, hostId, payloadId, hostData, payloadData, prepared⟩, trivial⟩
    | ok made =>
      obtain ⟨id, opened⟩ := made
      obtain ⟨data, hwritten, hgrown, hdone⟩ := build_spec prepared hcreate
      rcases hbuild : build host (Path.temporary out) parts checked with ⟨result, built⟩
      rw [hbuild] at hwritten hdone
      let attempt : Attempt checked.files host payload out align built.files :=
        ⟨⟨id, opened, hcreate, data, hwritten⟩, parts, hostId, payloadId, hostData, payloadData,
          prepared, hgrown⟩
      cases result with
      | error error =>
        simp only [progress, embed_apply, publish_apply, hprepare, hcreate, hbuild, files_discard]
        exact ⟨⟨error, rfl⟩, built.files, ⟨attempt⟩, rfl⟩
      | ok done =>
        have hbundle : bundle? checked.files host payload align = some data := by
          rw [bundle?, prepared.data.1, prepared.data.2, hdone done rfl, prepared.parts]
        cases hrename : built.files.rename (Path.temporary out) out with
        | error fault =>
          simp only [progress, embed_apply, publish_apply, hprepare, hcreate, hbuild, hrename]
          exact ⟨⟨_, rfl⟩, built.files, ⟨attempt, hbundle⟩, rfl⟩
        | ok after =>
          simp only [progress, embed_apply, publish_apply, hprepare, hcreate, hbuild, hrename]
          exact ⟨⟨_, rfl⟩, built.files, ⟨attempt, hbundle⟩, hrename⟩

namespace Draft

variable {files built : FileSystem} {out : Path}

theorem created (draft : Draft files out built) :
    FileSystem.Created files draft.opened (Path.temporary out) draft.id :=
  FileSystem.created_of_create draft.create

theorem working (draft : Draft files out built) :
    built.working = files.working :=
  draft.rewritten.working.trans draft.created.working

theorem others (draft : Draft files out built) {other : Nat}
    (h : other ≠ draft.id) : built.file? other = files.file? other :=
  (draft.rewritten.others other h).trans (draft.created.others other h)

theorem entry?_built (draft : Draft files out built)
    (location : Location) : built.entry? location = draft.opened.entry? location :=
  FileSystem.entry?_congr draft.rewritten.entries location

theorem kept (draft : Draft files out built) {location : Location}
    {entry : Entry} (h : files.entry? location = some entry) :
    built.entry? location = some entry :=
  (draft.entry?_built location).trans (draft.created.kept location entry h)

theorem new (draft : Draft files out built) {location : Location}
    {entry : Entry} (h : built.entry? location = some entry) :
    entry = .file draft.id ∨ files.entry? location = some entry :=
  draft.created.new location entry ((draft.entry?_built location).symm.trans h)

theorem target (draft : Draft files out built) :
    ∃ parent, files.target (Path.temporary out) =
      .ok (.named parent (Path.stem out ++ ".partial") false) := by
  obtain ⟨hlast, hslash⟩ := Path.getLast?_temporary out
  obtain ⟨hdot, hdots⟩ := Path.stem_ne_dot out
  rw [← hslash]
  rcases draft.created.either with ⟨hleads, -⟩ | ⟨parent, name, hmissing, -⟩
  · obtain ⟨location, hfound⟩ := FileSystem.leads?_eq_some_iff.mp hleads
    exact FileSystem.target_of_resolve hfound hlast hdot hdots
  · exact FileSystem.target_of_resolve hmissing hlast hdot hdots

theorem occupied_or_vacant (draft : Draft files out built)
    {parent : Location} {name : String}
    (htarget : files.target (Path.temporary out) = .ok (.named parent name false)) :
    (∃ entry, entry ≠ .directory ∧ files.entry? (parent ++ [name]) = some entry ∧
      built.entry? (parent ++ [name]) = some entry) ∨
    (files.entry? (parent ++ [name]) = none ∧
      built.entries = Table.set files.entries (parent ++ [name]) (.file draft.id) ∧
      ∀ location, files.entry? location ≠ some (.file draft.id)) := by
  have either := draft.created.either
  cases hentry : files.entry? (parent ++ [name]) with
  | some entry =>
    refine .inl ⟨entry, ?_, rfl, draft.kept hentry⟩
    rintro rfl
    have hresolve := FileSystem.resolve_name_of_ne_link htarget hentry (fun _ h => by cases h) true
    rcases either with ⟨hleads, -⟩ | ⟨_, _, hmissing, -⟩
    · obtain ⟨location, hfound⟩ := FileSystem.leads?_eq_some_iff.mp hleads
      rw [hresolve] at hfound
      cases hfound
    · rw [hresolve] at hmissing
      cases hmissing
  | none =>
    have hresolve := FileSystem.resolve_vacant htarget hentry true
    rcases either with ⟨hleads, -⟩ | ⟨_, _, hmissing, hentries, hunnamed⟩
    · obtain ⟨location, hfound⟩ := FileSystem.leads?_eq_some_iff.mp hleads
      rw [hresolve] at hfound
      cases hfound
    · rw [hresolve] at hmissing
      cases hmissing
      exact .inr ⟨rfl, draft.rewritten.entries.trans hentries, hunnamed⟩

theorem without (draft : Draft files out built) {parent : Location}
    {name : String}
    (htarget : files.target (Path.temporary out) = .ok (.named parent name false)) :
    built.without (Path.temporary out) =
      { built with entries := Table.erase built.entries (parent ++ [name]) } := by
  have hbuilt : built.target (Path.temporary out) = .ok (.named parent name false) :=
    FileSystem.target_mono (fun _ _ h => draft.kept h) draft.working htarget
  apply FileSystem.without_of_ok
  refine FileSystem.remove_eq_ok_iff.mpr ⟨parent, name, hbuilt, ?_, rfl⟩
  rcases draft.occupied_or_vacant htarget with ⟨entry, hne, -, hentry⟩ | ⟨-, hentries, -⟩
  · exact ⟨entry, hentry, hne⟩
  · refine ⟨.file draft.id, ?_, fun h => by cases h⟩
    rw [FileSystem.entry?_set (by simp) hentries, if_pos rfl]

theorem entry?_discarded (draft : Draft files out built) {parent : Location}
    {name : String} (htarget : files.target (Path.temporary out) = .ok (.named parent name false))
    (location : Location) : FileSystem.entry? (built.without (Path.temporary out)) location =
      if parent ++ [name] = location then none else built.entry? location := by
  rw [draft.without htarget]
  exact FileSystem.entry?_erase (by simp) rfl location

end Draft

end ModelBundle.Bundle

/-!
What a failed embedding leaves behind.  It leaves nothing when it fails before anything is written.
After that it takes the temporary name away, whatever stood there before; and when the bundle
cannot be given its name, the temporary file stays.
-/

namespace ModelBundle

open ModelBundle.Bundle

/-- Every path leads to the same place, to the same content and the same mode. -/
def FileSystem.Unchanged (before after : FileSystem) : Prop :=
  ∀ path, (∀ follow, after.resolve follow path = before.resolve follow path) ∧
    after.data? path = before.data? path

namespace FileSystem

variable {before after : FileSystem}

theorem unchanged_refl (fs : FileSystem) : Unchanged fs fs :=
  fun _ => ⟨fun _ => rfl, rfl⟩

theorem unchanged_of_same (hentry : ∀ location, after.entry? location = before.entry? location)
    (hworking : after.working = before.working)
    (hfile : ∀ location id, before.entry? location = some (.file id) →
      after.file? id = before.file? id) : Unchanged before after := by
  intro path
  have hresolve := fun follow => resolve_congr hentry hworking follow path
  refine ⟨hresolve, ?_⟩
  have hleads : after.leads? path = before.leads? path := by
    unfold leads?
    rw [hresolve]
  rw [data?_eq_bind, data?_eq_bind, hleads]
  cases h : before.leads? path with
  | none => rfl
  | some id =>
    obtain ⟨location, hfound⟩ := leads?_eq_some_iff.mp h
    exact hfile location id (entry?_of_resolve (fun h => by cases h) hfound)

theorem not_unchanged_of_gone {path : Path} {parent : Location} {name : String} {entry : Entry}
    (htarget : before.target path = .ok (.named parent name false))
    (hentry : before.entry? (parent ++ [name]) = some entry) (hne : entry ≠ .directory)
    (hgone : after.entry? (parent ++ [name]) = none) : ¬ Unchanged before after := by
  intro unchanged
  have hafter := (unchanged path).1 false
  rw [resolve_name htarget hentry] at hafter
  rw [entry?_of_resolve hne hafter] at hgone
  cases hgone

end FileSystem

open FileSystem

variable {files built : FileSystem} {host payload out : Path} {align : Option UInt64}

theorem unchanged_without_iff (files : FileSystem) (path : Path) :
    Unchanged files (files.without path) ↔ ∃ fault, files.remove path = .error fault := by
  constructor
  · intro unchanged
    cases h : files.remove path with
    | error fault => exact ⟨fault, rfl⟩
    | ok after =>
      rw [without_of_ok h] at unchanged
      obtain ⟨parent, name, htarget, ⟨entry, hentry, hne⟩, rfl⟩ := remove_eq_ok_iff.mp h
      refine absurd unchanged (not_unchanged_of_gone htarget hentry hne ?_)
      rw [entry?_erase (by simp) rfl, if_pos rfl]
  · rintro ⟨fault, h⟩
    rw [without_of_error h]
    exact unchanged_refl files

theorem unchanged_discarded_iff (draft : Draft files out built) :
    Unchanged files (built.without (Path.temporary out)) ↔
      ∃ fault, files.remove (Path.temporary out) = .error fault := by
  obtain ⟨parent, htarget⟩ := draft.target
  rcases draft.occupied_or_vacant htarget with
    ⟨entry, hne, hentry, -⟩ | ⟨hvacant, hentries, hunnamed⟩
  · refine iff_of_false ?_ (remove_of_named htarget hentry hne)
    apply not_unchanged_of_gone htarget hentry hne
    rw [draft.entry?_discarded htarget, if_pos rfl]
  · refine iff_of_true ?_ ⟨_, remove_of_vacant htarget hvacant⟩
    apply unchanged_of_same
    · intro location
      rw [draft.entry?_discarded htarget]
      by_cases h : parent ++ [Path.stem out ++ ".partial"] = location
      · rw [if_pos h, ← h, hvacant]
      · rw [if_neg h, entry?_set (by simp) hentries, if_neg h]
    · rw [draft.without htarget]
      exact draft.working
    · intro location id hid
      have hne : id ≠ draft.id := by
        rintro rfl
        exact hunnamed location hid
      rw [draft.without htarget]
      exact draft.others hne

theorem unchanged_left_iff (attempt : Attempt files host payload out align built) :
    Unchanged files built ↔ files.data? (Path.temporary out) = some attempt.data := by
  have hleads : built.leads? (Path.temporary out) = some attempt.id := by
    rw [← attempt.created.found]
    unfold leads?
    rw [resolve_congr attempt.entry?_built attempt.rewritten.working]
  have hbuilt : built.data? (Path.temporary out) = some attempt.data := by
    rw [data?_eq_bind, hleads]
    exact attempt.rewritten.written
  constructor
  · intro unchanged
    rw [← (unchanged _).2, hbuilt]
  · intro hdata
    rw [data?_eq_bind] at hdata
    rcases attempt.created.either with ⟨hbefore, hentries⟩ | ⟨parent, name, hmissing, -⟩
    · rw [hbefore, Option.bind_some] at hdata
      apply unchanged_of_same
      · exact entry?_congr (attempt.rewritten.entries.trans hentries)
      · exact attempt.working
      · intro location id _
        by_cases h : id = attempt.id
        · rw [h, attempt.rewritten.written, hdata]
        · exact attempt.others h
    · unfold leads? at hdata
      rw [hmissing] at hdata
      cases hdata

/-- For all files and all arguments: exactly when a failed embedding leaves every path as it was.
It does if it fails before it writes; if it fails while it writes, it does unless it could take a
name away that stood in place of the temporary file before; and if it fails to rename, it does only
if the temporary path led to the very same bundle before. -/
theorem failed_embed_unchanged_iff (host payload out : Path) (align : Option UInt64)
    (world : World) :
    (∀ error, (embed host payload out align world).1 = .error error →
      Unchanged world.files (embed host payload out align world).2.files) ↔
    match progress host payload out align world with
    | .refused | .published => True
    | .unopened | .unfinished =>
      ∃ fault, world.files.remove (Path.temporary out) = .error fault
    | .unpublished => world.files.data? (Path.temporary out) =
        bundle? world.files host payload align := by
  have hends := embed_ends host payload out align world
  have hfailed : (∃ error, (embed host payload out align world).1 = .error error) →
      ((∀ error, (embed host payload out align world).1 = .error error →
        Unchanged world.files (embed host payload out align world).2.files) ↔
      Unchanged world.files (embed host payload out align world).2.files) := by
    rintro ⟨error, herror⟩
    exact ⟨fun h => h error herror, fun h _ _ => h⟩
  cases hprogress : progress host payload out align world with
  | refused =>
    rw [hprogress] at hends
    rw [hfailed hends.1, hends.2]
    exact iff_of_true (unchanged_refl _) trivial
  | unopened =>
    rw [hprogress] at hends
    rw [hfailed hends.1, hends.2.2]
    exact unchanged_without_iff _ _
  | unfinished =>
    rw [hprogress] at hends
    obtain ⟨herror, built, ⟨attempt⟩, hfiles⟩ := hends
    rw [hfailed herror, hfiles]
    exact unchanged_discarded_iff attempt.toDraft
  | unpublished =>
    rw [hprogress] at hends
    obtain ⟨herror, built, ⟨attempt, hbundle⟩, hfiles⟩ := hends
    dsimp only
    rw [hfailed herror, hfiles, hbundle]
    exact unchanged_left_iff attempt
  | published =>
    rw [hprogress] at hends
    obtain ⟨⟨trailer, hok⟩, -⟩ := hends
    refine iff_of_true (fun error herror => ?_) trivial
    rw [hok] at herror
    cases herror

def blocked : FileSystem where
  entries := [(["work"], .directory), (["work", "host"], .file 0), (["work", "m"], .file 1),
    (["work", "out"], .directory)]
  files := [(0, ⟨List.replicate 40 0x11, 0o644⟩), (1, ⟨Magic.gguf, 0o644⟩)]
  working := ["work"]

/-- The bundle cannot be renamed over the directory and stays under its temporary name. -/
theorem failed_embed_blocked :
    ∃ error, (embed "host" "m" "out" none (.ofFiles blocked)).1 = .error error ∧
      ¬ Unchanged blocked (embed "host" "m" "out" none (.ofFiles blocked)).2.files := by
  have hfailed : (embed "host" "m" "out" none (.ofFiles blocked)).1.isOk = false := by
    decide +kernel
  have hbefore : blocked.data? "out.partial" = none := by decide +kernel
  have hafter : ((embed "host" "m" "out" none (.ofFiles blocked)).2.files.data?
      "out.partial").isSome = true := by decide +kernel
  cases h : (embed "host" "m" "out" none (.ofFiles blocked)).1 with
  | ok trailer =>
    rw [h] at hfailed
    cases hfailed
  | error error =>
    refine ⟨error, rfl, fun unchanged => ?_⟩
    rw [(unchanged "out.partial").2, hbefore] at hafter
    cases hafter

end ModelBundle
