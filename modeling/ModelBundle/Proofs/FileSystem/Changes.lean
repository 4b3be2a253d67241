import ModelBundle.Proofs.FileSystem.Naming
import ModelBundle.Proofs.Steps

/-!
What the operations change.  Opening a file for writing empties that file or adds a new one; taking
a name away and giving it another place leave every other name where it is.
-/

namespace ModelBundle.FileSystem

def leads? (fs : FileSystem) (path : Path) : Option Nat :=
  match fs.resolve true path with
  | .ok (.found _ (.file id)) => some id
  | _ => none

theorem leads?_eq_some_iff {fs : FileSystem} {path : Path} {id : Nat} :
    fs.leads? path = some id ↔
      ∃ location, fs.resolve true path = .ok (.found location (.file id)) := by
  unfold leads?
  constructor
  · intro h
    split at h
    · rename_i location found hfound
      cases h
      exact ⟨location, hfound⟩
    · cases h
  · rintro ⟨location, h⟩
    rw [h]

theorem data?_eq_bind (fs : FileSystem) (path : Path) :
    fs.data? path = (fs.leads? path).bind fs.file? := by
  unfold data? leads?
  rcases fs.resolve true path with fault | (⟨location, id | _ | target⟩ | ⟨parent, name, slash⟩)
  all_goals rfl

section Entries

variable {before after : FileSystem} {location : Location}

theorem entry?_congr (h : after.entries = before.entries) (other : Location) :
    after.entry? other = before.entry? other := by
  unfold entry?
  rw [h]

theorem entry?_set {entry : Entry} (hroot : location ≠ [])
    (h : after.entries = Table.set before.entries location entry) (other : Location) :
    after.entry? other = if location = other then some entry else before.entry? other := by
  unfold entry?
  rw [h, Table.get?_set]
  by_cases hother : other = []
  · rw [if_pos hother, if_pos hother, if_neg (hother ▸ hroot)]
  · rw [if_neg hother, if_neg hother]

theorem entry?_erase (hroot : location ≠ [])
    (h : after.entries = Table.erase before.entries location) (other : Location) :
    after.entry? other = if location = other then none else before.entry? other := by
  unfold entry?
  rw [h, Table.get?_erase]
  by_cases hother : other = []
  · rw [if_pos hother, if_pos hother, if_neg (hother ▸ hroot)]
  · rw [if_neg hother, if_neg hother]

end Entries

theorem lt_unused {fs : FileSystem} {number : Nat} (h : number ∈ fs.numbers) :
    number < fs.unused := by
  unfold unused
  generalize fs.numbers = numbers at h ⊢
  induction numbers with
  | nil => cases h
  | cons first rest ih =>
    rw [List.foldr_cons]
    rcases List.mem_cons.mp h with rfl | hrest
    · omega
    · have := ih hrest
      omega

theorem entry?_ne_unused (fs : FileSystem) (location : Location) :
    fs.entry? location ≠ some (.file fs.unused) := by
  intro h
  unfold entry? at h
  split at h
  · cases h
  · refine Nat.lt_irrefl fs.unused (lt_unused (List.mem_append_left _ ?_))
    exact List.mem_filterMap.mpr ⟨_, Table.mem_of_get? h, rfl⟩

theorem file?_unused (fs : FileSystem) : fs.file? fs.unused = none := by
  cases h : fs.file? fs.unused with
  | none => rfl
  | some data =>
    refine absurd (lt_unused (List.mem_append_right _ ?_)) (Nat.lt_irrefl fs.unused)
    exact List.mem_map.mpr ⟨_, Table.mem_of_get? h, rfl⟩

/-- A path was opened for writing, as the file of some number: the file the path led to, or a new
one where there was nothing. -/
structure Created (before after : FileSystem) (path : Path) (id : Nat) : Prop where
  working : after.working = before.working
  found : after.leads? path = some id
  others : ∀ other, other ≠ id → after.file? other = before.file? other
  emptied : ∃ mode, after.file? id = some ⟨[], mode⟩ ∧
    ∀ data, before.file? id = some data → data.mode = mode
  kept : ∀ location entry, before.entry? location = some entry →
    after.entry? location = some entry
  new : ∀ location entry, after.entry? location = some entry →
    entry = .file id ∨ before.entry? location = some entry
  either : (before.leads? path = some id ∧ after.entries = before.entries) ∨
    (∃ parent name, before.resolve true path = .ok (.missing parent name false) ∧
      after.entries = Table.set before.entries (parent ++ [name]) (.file id) ∧
      ∀ location, before.entry? location ≠ some (.file id))

theorem file?_setContent (fs : FileSystem) (id other : Nat) (content : Bytes) :
    (fs.setContent id content).file? other =
      if id = other then (fs.file? id).map fun data => { data with content }
      else fs.file? other :=
  Table.get?_update _ _ _ _

theorem file?_append (fs : FileSystem) (id other : Nat) (bytes : Bytes) :
    (fs.append id bytes).file? other =
      if id = other then
        (fs.file? id).map fun data => { data with content := data.content ++ bytes }
      else fs.file? other :=
  Table.get?_update _ _ _ _

theorem created_of_found {fs : FileSystem} {path : Path} {location : Location} {id : Nat}
    {data : FileData} (h : fs.resolve true path = .ok (.found location (.file id)))
    (hdata : fs.file? id = some data) : Created fs (fs.setContent id []) path id where
  working := rfl
  found := by
    have hsame : (fs.setContent id []).resolve true path = fs.resolve true path := by
      apply resolve_congr
      · intro other
        rfl
      · rfl
    exact leads?_eq_some_iff.mpr ⟨location, hsame.trans h⟩
  others := by
    intro other hother
    rw [file?_setContent, if_neg (Ne.symm hother)]
  emptied := by
    refine ⟨data.mode, ?_, fun other hother => ?_⟩
    · rw [file?_setContent, if_pos rfl, hdata]
      rfl
    · rw [hdata] at hother
      cases hother
      rfl
  kept := fun _ _ hentry => hentry
  new := fun _ _ hentry => .inr hentry
  either := .inl ⟨leads?_eq_some_iff.mpr ⟨location, h⟩, rfl⟩

theorem created_of_missing {fs : FileSystem} {path : Path} {parent : Location} {name : String}
    (h : fs.resolve true path = .ok (.missing parent name false)) :
    Created fs (fs.addFile (parent ++ [name])).2 path fs.unused := by
  have hroot : parent ++ [name] ≠ [] := by simp
  have hentry : ∀ location, entry? (fs.addFile (parent ++ [name])).2 location =
      if parent ++ [name] = location then some (.file fs.unused) else fs.entry? location :=
    entry?_set hroot rfl
  obtain ⟨hrefuse, hwalk⟩ := resolve_eq_ok_iff.mp h
  have hvacant := vacant_of_walk _ _ _ _ _ _ hwalk
  have hkept : ∀ location entry, fs.entry? location = some entry →
      entry? (fs.addFile (parent ++ [name])).2 location = some entry := by
    intro location entry hlocation
    rw [hentry, if_neg]
    · exact hlocation
    · intro heq
      rw [← heq, hvacant] at hlocation
      cases hlocation
  have hfile : entry? (fs.addFile (parent ++ [name])).2 (parent ++ [name]) =
      some (.file fs.unused) := by
    rw [hentry, if_pos rfl]
  have hfiles : ∀ other, (fs.addFile (parent ++ [name])).2.file? other =
      if fs.unused = other then some ⟨[], defaultMode⟩ else fs.file? other :=
    fun other => Table.get?_set _ _ _ _
  refine ⟨rfl, ?_, ?_, ?_, hkept, ?_, .inr ⟨parent, name, h, rfl, fs.entry?_ne_unused⟩⟩
  · refine leads?_eq_some_iff.mpr ⟨parent ++ [name], resolve_eq_ok_iff.mpr ⟨hrefuse, ?_⟩⟩
    exact walk_missing_filled hkept _ _ _ _ _ hfile hwalk
  · intro other hother
    rw [hfiles, if_neg (Ne.symm hother)]
  · refine ⟨defaultMode, ?_, fun data hdata => ?_⟩
    · rw [hfiles, if_pos rfl]
    · rw [file?_unused] at hdata
      cases hdata
  · intro location entry hlocation
    rw [hentry] at hlocation
    split at hlocation
    · cases hlocation
      exact .inl rfl
    · exact .inr hlocation

theorem created_of_create {fs after : FileSystem} {path : Path} {id : Nat}
    (h : fs.create path = .ok (id, after)) : Created fs after path id := by
  unfold create at h
  split at h
  · cases h
  · rename_i location found hfound
    split at h
    · rename_i data hdata
      split at h
      · cases h
        exact created_of_found hfound hdata
      · cases h
    · cases h
  · cases h
  · cases h
  · rename_i parent name slash hmissing
    split at h
    · cases h
    · rename_i hslash
      rw [Bool.not_eq_true] at hslash
      subst hslash
      cases h
      exact created_of_missing hmissing

theorem remove_eq_ok_iff {fs after : FileSystem} {path : Path} :
    fs.remove path = .ok after ↔ ∃ parent name, fs.target path = .ok (.named parent name false) ∧
      (∃ entry, fs.entry? (parent ++ [name]) = some entry ∧ entry ≠ .directory) ∧
      after = { fs with entries := Table.erase fs.entries (parent ++ [name]) } := by
  unfold remove
  cases fs.target path with
  | error fault => simp
  | ok place =>
    cases place with
    | special => simp
    | named parent name slash =>
      dsimp only
      constructor
      · intro h
        split at h
        · cases h
        · cases h
        · rename_i entry hdirectory hentry
          split at h
          · cases h
          · rename_i hslash
            rw [Bool.not_eq_true] at hslash
            subst hslash
            cases h
            exact ⟨parent, name, rfl, ⟨entry, hentry, hdirectory⟩, rfl⟩
      · rintro ⟨_, _, htarget, ⟨entry, hentry, hdirectory⟩, rfl⟩
        cases htarget
        rw [hentry]
        cases entry with
        | directory => exact absurd rfl hdirectory
        | file id => rfl
        | link target => rfl

def without (fs : FileSystem) (path : Path) : FileSystem :=
  match fs.remove path with
  | .ok after => after
  | .error _ => fs

theorem without_of_error {fs : FileSystem} {path : Path} {fault : Fault}
    (h : fs.remove path = .error fault) : fs.without path = fs := by
  rw [without, h]

theorem without_of_ok {fs after : FileSystem} {path : Path} (h : fs.remove path = .ok after) :
    fs.without path = after := by
  rw [without, h]

theorem remove_of_named {fs : FileSystem} {path : Path} {parent : Location} {name : String}
    {entry : Entry} (htarget : fs.target path = .ok (.named parent name false))
    (hentry : fs.entry? (parent ++ [name]) = some entry) (hne : entry ≠ .directory) :
    ¬ ∃ fault, fs.remove path = .error fault := by
  rintro ⟨fault, hfault⟩
  have hremove := remove_eq_ok_iff.mpr ⟨parent, name, htarget, ⟨entry, hentry, hne⟩, rfl⟩
  rw [hfault] at hremove
  cases hremove

theorem remove_of_vacant {fs : FileSystem} {path : Path} {parent : Location} {name : String}
    {slash : Bool} (htarget : fs.target path = .ok (.named parent name slash))
    (hvacant : fs.entry? (parent ++ [name]) = none) :
    fs.remove path = .error (.system .noSuchFile) := by
  unfold remove
  rw [htarget]
  dsimp only
  rw [hvacant]

theorem entry?_of_without {fs : FileSystem} {path : Path} {location : Location} {entry : Entry}
    (h : FileSystem.entry? (fs.without path) location = some entry) :
    fs.entry? location = some entry := by
  cases hremove : fs.remove path with
  | error fault =>
    rw [without_of_error hremove] at h
    exact h
  | ok after =>
    rw [without_of_ok hremove] at h
    obtain ⟨parent, name, -, -, rfl⟩ := remove_eq_ok_iff.mp hremove
    rw [entry?_erase (by simp) rfl] at h
    split at h
    · cases h
    · exact h

theorem file?_without (fs : FileSystem) (path : Path) (id : Nat) :
    (fs.without path).file? id = fs.file? id ∧ (fs.without path).working = fs.working := by
  cases hremove : fs.remove path with
  | error fault =>
    rw [without_of_error hremove]
    exact ⟨rfl, rfl⟩
  | ok after =>
    rw [without_of_ok hremove]
    obtain ⟨parent, name, -, -, rfl⟩ := remove_eq_ok_iff.mp hremove
    exact ⟨rfl, rfl⟩

theorem entry?_without {fs : FileSystem} {path : Path} {parent : Location} {name : String}
    (htarget : fs.target path = .ok (.named parent name false))
    (hne : fs.entry? (parent ++ [name]) ≠ some .directory) (location : Location) :
    FileSystem.entry? (fs.without path) location =
      if parent ++ [name] = location then none else fs.entry? location := by
  cases hentry : fs.entry? (parent ++ [name]) with
  | none =>
    rw [without_of_error (remove_of_vacant htarget hentry)]
    split
    · rename_i h
      rw [← h, hentry]
    · rfl
  | some entry =>
    have hdirectory : entry ≠ .directory := by
      rintro rfl
      exact hne hentry
    rw [without_of_ok (remove_eq_ok_iff.mpr
      ⟨parent, name, htarget, ⟨entry, hentry, hdirectory⟩, rfl⟩)]
    exact entry?_erase (by simp) rfl location

theorem leads?_mono {before after : FileSystem}
    (h : ∀ location entry, before.entry? location = some entry →
      after.entry? location = some entry)
    (hworking : after.working = before.working) {path : Path} {id : Nat}
    (hleads : before.leads? path = some id) : after.leads? path = some id := by
  obtain ⟨location, hfound⟩ := leads?_eq_some_iff.mp hleads
  exact leads?_eq_some_iff.mpr ⟨location, resolve_found_mono h hworking hfound⟩

theorem leads?_of_new {before after : FileSystem} {id : Nat}
    (h : ∀ location entry, after.entry? location = some entry →
      entry = .file id ∨ before.entry? location = some entry)
    (hworking : after.working = before.working) {path : Path} {other : Nat}
    (hleads : after.leads? path = some other) : other = id ∨ before.leads? path = some other := by
  obtain ⟨location, hfound⟩ := leads?_eq_some_iff.mp hleads
  rcases resolve_found_new (fun entry hentry => ⟨id, hentry⟩) h hworking hfound with hsame | hold
  · cases hsame
    exact .inl rfl
  · exact .inr (leads?_eq_some_iff.mpr ⟨location, hold⟩)

theorem named_of_leads? {fs : FileSystem} {path : Path} {id : Nat} (h : fs.leads? path = some id) :
    ∃ location, fs.entry? location = some (.file id) := by
  obtain ⟨location, hfound⟩ := leads?_eq_some_iff.mp h
  exact ⟨location, entry?_of_resolve (fun h => by cases h) hfound⟩

theorem rename_eq_ok {fs after : FileSystem} {source destination : Path} {parent : Location}
    {name : String} {slash : Bool} {entry : Entry} (h : fs.rename source destination = .ok after)
    (hsource : fs.target source = .ok (.named parent name slash))
    (hentry : fs.entry? (parent ++ [name]) = some entry) (hdirectory : entry ≠ .directory) :
    ∃ parent' name', fs.target destination = .ok (.named parent' name' false) ∧
      (parent ++ [name] = parent' ++ [name'] ∨
        fs.entry? (parent' ++ [name']) ≠ some .directory ∧
          after = if entry.isTwin (fs.entry? (parent' ++ [name'])) then fs else { fs with
            entries := Table.set (Table.erase fs.entries (parent ++ [name])) (parent' ++ [name'])
              entry }) := by
  unfold rename at h
  rw [hsource] at h
  cases hdestination : fs.target destination with
  | error fault =>
    rw [hdestination] at h
    cases h
  | ok place =>
    rw [hdestination] at h
    cases place with
    | special => cases h
    | named parent' name' slash' =>
      dsimp only at h
      rw [hentry] at h
      cases entry with
      | directory => exact absurd rfl hdirectory
      | _ =>
        dsimp only at h
        split at h
        · cases h
        rename_i hslash
        simp only [Bool.or_eq_true, not_or, Bool.not_eq_true] at hslash
        rw [hslash.2]
        refine ⟨parent', name', rfl, ?_⟩
        split at h
        · rename_i hsame
          exact .inl hsame
        · split at h
          · split at h <;> cases h
          · rename_i hother
            rw [← apply_ite Except.ok] at h
            exact .inr ⟨hother, (Except.ok.inj h).symm⟩

theorem rename_of_named {fs : FileSystem} {source destination : Path} {parent parent' : Location}
    {name name' : String} {entry : Entry}
    (hsource : fs.target source = .ok (.named parent name false))
    (hentry : fs.entry? (parent ++ [name]) = some entry) (hdirectory : entry ≠ .directory)
    (hdestination : fs.target destination = .ok (.named parent' name' false))
    (hfree : fs.entry? (parent' ++ [name']) ≠ some .directory) :
    ∃ after, fs.rename source destination = .ok after := by
  unfold rename
  rw [hsource, hdestination]
  dsimp only
  rw [hentry]
  cases entry with
  | directory => exact absurd rfl hdirectory
  | _ =>
    simp only [Bool.or_false, Bool.false_eq_true, if_false]
    split
    · exact ⟨_, rfl⟩
    · cases hstood : fs.entry? (parent' ++ [name']) with
      | none => exact ⟨_, rfl⟩
      | some stood =>
        cases stood with
        | directory => exact absurd hstood hfree
        | _ => exact ⟨_, (apply_ite Except.ok _ _ _).symm⟩

end ModelBundle.FileSystem
