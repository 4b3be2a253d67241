import ModelBundle.Proofs.Containers
import ModelBundle.Proofs.Loading.Strategy

/-!
Loading from an executable that is replaced while it is loaded from.  It is opened twice: the
trailer is what its first content ends in, and the payload is a range of its second content, of
which only the length is held against the trailer.
-/

namespace ModelBundle

open ModelBundle.Action

namespace Loader

/-- A run in whose middle the files change: the executable has been looked into by then, and is yet
to be opened for its payload. -/
def runAmid (change : FileSystem → FileSystem) (exe : Option Path) : Action Work Model := do
  enter .lookingForTrailer
  let found ← outside (findEmbedded exe)
  outside (Action.modify fun world => { world with files := change world.files })
  proceed found

/-- A load whose run is one with such a change. -/
def loadAmid (change : FileSystem → FileSystem) (exe : Option Path) : Action Work Nat :=
  fun (world, loader) =>
    if loader.active.isSome then (.error .alreadyLoaded, (world, loader))
    else concluded (runAmid change exe (world, loader.fresh))

theorem runAmid_id : runAmid id = run := by
  funext exe work
  simp only [runAmid, run, outside, bind_apply, zoom_apply, modify_apply, id_eq]

theorem loadAmid_id : loadAmid id = load := by
  funext exe ⟨world, loader⟩
  rw [loadAmid, runAmid_id]
  cases hactive : loader.active with
  | none =>
    rw [load_of_idle hactive]
    rfl
  | some id =>
    rw [load_of_active hactive]
    rfl

theorem runAmid_eq_proceed (loader : Loader) (change : FileSystem → FileSystem) (exe : Option Path)
    (world : World) :
    ∃ changed, changed.files = change world.files ∧ runAmid change exe (world, loader) =
      proceed (embedded? world.files exe) (changed, loader.looking) := by
  obtain ⟨looked, hlooked, hfound⟩ :=
    findEmbedded_eq exe (world.note (.stage loader.stage .lookingForTrailer))
  refine ⟨{ looked with files := change looked.files }, congrArg change hlooked, ?_⟩
  simp only [runAmid, enter, outside, bind_apply, modify_apply, zoom_apply]
  rw [hfound]
  rfl

theorem loadAmid_eq_concluded {loader : Loader} (idle : loader.active = none) (world : World)
    (change : FileSystem → FileSystem) (exe : Option Path) :
    ∃ changed, changed.files = change world.files ∧ loadAmid change exe (world, loader) =
      concluded (proceed (embedded? world.files exe) (changed, loader.fresh.looking)) := by
  have hidle : loader.active.isSome = false := by rw [idle]; rfl
  obtain ⟨changed, hchanged, hrun⟩ := runAmid_eq_proceed loader.fresh change exe world
  refine ⟨changed, hchanged, ?_⟩
  simp only [loadAmid, hidle, Bool.false_eq_true, if_false, hrun]

section Amid

variable {settings : LoadSettings} {mapper : Mapper} {loader : Loader} {world : World}
  {change : FileSystem → FileSystem} {exe : Path}

theorem source_of_select_none {selection : Selection} {looked opened : World}
    (h : select settings none looked = (.ok selection, opened)) :
    ∃ path, selection.source = .file path := by
  have hresult := congrArg Prod.fst h
  cases hpath : settings.modelPath with
  | none => simp only [select, hpath, fail_apply, reduceCtorEq] at hresult
  | some path =>
    simp only [select, hpath, selectFile_fst] at hresult
    split at hresult
    · cases hresult
    · split at hresult
      · cases hresult
      · cases hresult
        exact ⟨path, rfl⟩

theorem loadAmid_unfound (reached : Reached settings mapper loader) (idle : loader.active = none)
    (hfound : embedded? world.files (some exe) = none) {model : Model}
    (handed : Handed (loadAmid change (some exe) (world, loader)) model) (path : Path)
    (offset size : UInt64) : model.source ≠ .embedded path offset size := by
  obtain ⟨changed, -, hload⟩ := loadAmid_eq_concluded idle world change (some exe)
  rw [hload, hfound] at handed
  rcases hselect : select settings none changed with ⟨error | selection, opened⟩
  · have gaveUp := (concluded_unselected reached idle (congrArg Prod.fst hselect)).2
    exact absurd handed (gaveUp.failed.not_handed model)
  · obtain ⟨asked, -, -, concludes⟩ := concluded_proceed reached idle hselect
    obtain ⟨file, hfile⟩ := source_of_select_none hselect
    rcases concludes.ends with ⟨failed, -⟩ | ⟨payload, valid, -, -, hmodel⟩
    · exact absurd handed (failed.not_handed model)
    · cases (hmodel model).mp handed
      rw [hfile]
      exact Source.noConfusion

theorem loadAmid_found (reached : Reached settings mapper loader) (idle : loader.active = none)
    {trailer : Trailer} (hfound : embedded? world.files (some exe) = some (exe, trailer))
    {handle : Handle} {now : Bytes} (hopen : (change world.files).openRead exe = .ok handle)
    (hcontent : (change world.files).content? handle = some now) :
    let loaded := loadAmid change (some exe) (world, loader)
    let source := Source.embedded exe trailer.offset trailer.size
    match trailer.check now.length with
    | .error _ => Failed loaded
    | .ok () => ∃ asked stages, asked.files = change world.files ∧
        Concludes loaded settings.policy source stages
          (attained settings mapper ⟨handle, source, trailer.offset, trailer.size⟩ asked) := by
  intro loaded source
  obtain ⟨changed, hchanged, hload⟩ := loadAmid_eq_concluded idle world change (some exe)
  rw [hfound] at hload
  have hselect : (select settings (some (exe, trailer)) changed).1 =
      match trailer.check now.length with
      | .error error => .error error
      | .ok () => .ok ⟨handle, source, trailer.offset, trailer.size⟩ := by
    have hresult := selectEmbedded_fst exe trailer changed
    simp only [hchanged, hopen, FileSystem.size_eq hcontent] at hresult
    exact hresult
  simp only [loaded, hload]
  cases hcheck : trailer.check now.length with
  | error error =>
    rw [hcheck] at hselect
    exact (concluded_unselected reached idle hselect).2.failed
  | ok done =>
    rw [hcheck] at hselect
    have hopened := (keeps_silent_select settings (some (exe, trailer))).map World.files changed
    obtain ⟨asked, hasked, -, concludes⟩ :=
      concluded_proceed reached idle (Prod.ext hselect rfl : _ = (_, _))
    exact ⟨asked, _, hasked.trans (hopened.trans hchanged), concludes⟩

theorem loadAmid_ends (reached : Reached settings mapper loader) (idle : loader.active = none)
    {before now : Bytes} {trailer : Trailer} (ends : trailer.Ends before)
    (hbefore : world.files.read exe = .ok before) (hnow : (change world.files).read exe = .ok now)
    (bounded : ∀ content ∈ [before, now], content.length < FileSystem.lengthLimit)
    (faithful : mapper.FaithfulOn (change world.files)) :
    let loaded := loadAmid change (some exe) (world, loader)
    let bytes := Bytes.slice now trailer.offset.toNat trailer.size.toNat
    (Failed loaded ∧ (Memory.Holds now.length → now.length = before.length →
      ∃ error, judged settings.policy bytes = .error error)) ∨
    (now.length = before.length ∧ ∃ model valid, judged settings.policy bytes = .ok valid ∧
      (∀ other, Handed loaded other ↔ other = model) ∧
      model.source = .embedded exe trailer.offset trailer.size ∧ model.bytes = bytes) := by
  intro loaded bytes
  obtain ⟨first, hfirst, hold⟩ := FileSystem.read_eq_ok_iff.mp hbefore
  obtain ⟨second, hopen, hcontent⟩ := FileSystem.read_eq_ok_iff.mp hnow
  have hsmall : before.length < UInt64.size :=
    Nat.lt_trans (bounded before (by simp)) (by decide)
  have hending := (Trailer.ending?_eq_some_iff hsmall).mpr ends
  have hload := loadAmid_found reached idle (embedded?_of_ending hfirst hold hending) hopen hcontent
  cases hcheck : trailer.check now.length with
  | error error =>
    rw [hcheck] at hload
    refine .inl ⟨hload, fun _ hsame => ?_⟩
    cases hcheck.symm.trans (hsame ▸ Trailer.check_of_ending hending)
  | ok done =>
    rw [hcheck] at hload
    obtain ⟨asked, stages, hasked, concludes⟩ := hload
    have htotal := (Trailer.check_eq_ok_iff.mp hcheck).2.2.1
    have hsame : now.length = before.length := htotal.symm.trans ends.total
    rw [← hasked] at hcontent faithful
    let selection : Selection := ⟨.file second, .embedded exe trailer.offset trailer.size,
      trailer.offset, trailer.size⟩
    have regular : asked.files.Regular selection.handle now := ⟨hcontent, bounded now (by simp)⟩
    have hbytes : ∀ payload, attained settings mapper selection asked = .ok payload →
        payload.bytes = bytes :=
      fun _ hattained => bytes_of_attained regular.opened faithful hattained
    rcases concludes.ends with ⟨failed, hrefused⟩ | ⟨payload, valid, hattained, hjudged, hmodel⟩
    · refine .inl ⟨failed, fun hmemory _ => ?_⟩
      have hrange : selection.offset.toNat + selection.size.toNat ≤ now.length := by
        rw [← htotal]
        exact Nat.le_add_right _ _
      obtain ⟨payload, hattained⟩ := attained_of_inside settings regular faithful hrange
        (hmemory.mono (Nat.le_trans (Nat.le_add_left _ _) hrange))
      rw [← hbytes payload hattained]
      exact hrefused payload hattained
    · rw [hbytes payload hattained] at hjudged
      exact .inr ⟨hsame, _, valid, hjudged, hmodel, rfl, hbytes payload hattained⟩

end Amid

/-- What is handed out from the executable is the range that its content tells by now, and if that
lacks the trailer of the content before, the load fails. -/
structure Guarded (loaded : Except LoadError Nat × Work) (exe : Path) (before now : Bytes) :
    Prop where
  carried : ∀ model offset size, Handed loaded model → model.source = .embedded exe offset size →
    Trailer.Ends ⟨offset, size⟩ now ∧
      model.bytes = Bytes.slice now offset.toNat size.toNat
  refused : ∀ trailer : Trailer, trailer.Ends before → ¬ trailer.Ends now → Failed loaded

/-- The contents do not differ in a way that the load misses: the trailer is still there, or the
length is another one, or the range lacks the magic and is refused for that. -/
def Harmless (policy : MagicPolicy) (before now : Bytes) : Prop :=
  ∀ trailer : Trailer, trailer.Ends before → trailer.Ends now ∨ now.length ≠ before.length ∨
    ∃ error, judged policy (Bytes.slice now trailer.offset.toNat trailer.size.toNat) = .error error

/-- For every loader without an active model, and whatever becomes of the files between the two
times the executable is opened.  A model from the executable holds a range of the content that is
there by then, told by the trailer of the content before, and the two are equally long.  That guards
the load if the contents are harmless together; and if there is memory for the content, not
otherwise. -/
theorem loadAmid_guarded_iff {settings : LoadSettings} {mapper : Mapper} {loader : Loader}
    {world : World} {change : FileSystem → FileSystem} {exe : Path} {before now : Bytes}
    (reached : Reached settings mapper loader) (idle : loader.active = none)
    (hbefore : world.files.read exe = .ok before)
    (hnow : (change world.files).read exe = .ok now)
    (bounded : ∀ content ∈ [before, now], content.length < FileSystem.lengthLimit)
    (faithful : mapper.FaithfulOn (change world.files)) :
    let loaded := loadAmid change (some exe) (world, loader)
    (∀ model offset size, Handed loaded model → model.source = .embedded exe offset size →
      Trailer.Ends ⟨offset, size⟩ before ∧ now.length = before.length ∧
        model.bytes = Bytes.slice now offset.toNat size.toNat) ∧
    (Harmless settings.policy before now → Guarded loaded exe before now) ∧
    (Memory.Holds now.length →
      Guarded loaded exe before now → Harmless settings.policy before now) := by
  intro loaded
  have hsmall : before.length < UInt64.size :=
    Nat.lt_trans (bounded before (by simp)) (by decide)
  cases hending : Trailer.ending? before with
  | none =>
    obtain ⟨first, hfirst, hold⟩ := FileSystem.read_eq_ok_iff.mp hbefore
    have hfound : embedded? world.files (some exe) = none := by
      simp only [embedded?, Trailer.located_of_openRead hfirst hold, hending]
    have hnone : ∀ trailer : Trailer, ¬ trailer.Ends before := by
      intro trailer ends
      cases hending.symm.trans ((Trailer.ending?_eq_some_iff hsmall).mpr ends)
    refine ⟨?_, fun _ => ⟨?_, fun trailer ends => absurd ends (hnone trailer)⟩,
      fun _ _ trailer ends => absurd ends (hnone trailer)⟩
    all_goals
      intro model offset size handed hsource
      exact absurd hsource (loadAmid_unfound reached idle hfound handed exe offset size)
  | some trailer =>
    have ends := (Trailer.ending?_eq_some_iff hsmall).mp hending
    have honly : ∀ other : Trailer, other.Ends before → other = trailer :=
      fun other hother => hother.unique ends
    rcases loadAmid_ends reached idle ends hbefore hnow bounded faithful with
      ⟨failed, hrefused⟩ | ⟨hsame, found, valid, hjudged, honlyModel, hsource, hbytes⟩
    · refine ⟨fun model _ _ handed => absurd handed (failed.not_handed model), fun _ =>
        ⟨fun model _ _ handed => absurd handed (failed.not_handed model), fun _ _ _ => failed⟩, ?_⟩
      intro hmemory _ other hother
      cases honly other hother
      by_cases hsame : now.length = before.length
      · exact .inr (.inr (hrefused hmemory hsame))
      · exact .inr (.inl hsame)
    · have htold : ∀ model offset size, Handed loaded model →
          model.source = .embedded exe offset size →
          (⟨offset, size⟩ : Trailer) = trailer ∧
            model.bytes = Bytes.slice now offset.toNat size.toNat := by
        intro model offset size handed htold
        cases (honlyModel model).mp handed
        cases hsource.symm.trans htold
        exact ⟨rfl, hbytes⟩
      refine ⟨?_, ?_, ?_⟩
      · intro model offset size handed htells
        obtain ⟨heq, hslice⟩ := htold model offset size handed htells
        exact ⟨heq ▸ ends, hsame, hslice⟩
      · intro harmless
        have hnowEnds : trailer.Ends now := by
          rcases harmless trailer ends with hends | hother | ⟨error, herror⟩
          · exact hends
          · exact absurd hsame hother
          · cases hjudged.symm.trans herror
        refine ⟨fun model offset size handed htells => ?_, fun other hother hlacks => ?_⟩
        · obtain ⟨heq, hslice⟩ := htold model offset size handed htells
          exact ⟨heq ▸ hnowEnds, hslice⟩
        · cases honly other hother
          exact absurd hnowEnds hlacks
      · intro _ guarded other hother
        cases honly other hother
        exact .inl (guarded.carried found _ _ ((honlyModel found).mpr rfl) hsource).1

def reissued (content : Bytes) : FileSystem :=
  { oneBundle with files := [(0, ⟨content, 0o755⟩)] }

theorem read_reissued (content : Bytes) : (reissued content).read "app" = .ok content := by
  have hresolve : (reissued content).resolve true "app" =
      .ok (.found ["work", "app"] (.file 0)) := rfl
  have hfile : (reissued content).file? 0 = some ⟨content, 0o755⟩ := rfl
  refine FileSystem.read_eq_ok_iff.mpr ⟨0, FileSystem.openRead_eq_file_iff.mpr
    ⟨_, _, hresolve, hfile, by simp [FileSystem.permits, FileSystem.ownerRead]⟩, ?_⟩
  rw [FileSystem.content?, hfile, Option.map_some]

/-- The executable is cut behind its payload, or grows by a byte, and the load fails. -/
theorem loadAmid_guarded_iff_oneBundle :
    let before : Bytes := [0x7f] ++ Magic.gguf ++ Trailer.encode ⟨1, 4⟩
    ∀ now ∈ [[0x7f] ++ Magic.gguf, before ++ [0]], oneBundle.read "app" = .ok before ∧
      (reissued now).read "app" = .ok now ∧
      Guarded (loadAmid (fun _ => reissued now) (some "app")
        (.ofFiles oneBundle, .new .default .system)) "app" before now := by
  intro before now hnow
  have hbefore : (World.ofFiles oneBundle).files.read "app" = .ok before := rfl
  have hread : (reissued now).read "app" = .ok now := read_reissued now
  have hlength : now.length = 5 ∨ now.length = 22 := by
    revert now
    decide
  have bounded : ∀ content ∈ [before, now], content.length < FileSystem.lengthLimit := by
    have hlimit : 22 < FileSystem.lengthLimit := by decide
    have : before.length = 21 := rfl
    simp only [List.forall_mem_cons, List.not_mem_nil, false_imp_iff, implies_true, and_true]
    omega
  have harmless : Harmless LoadSettings.default.policy before now := by
    refine fun trailer _ => .inr (.inl ?_)
    have : before.length = 21 := rfl
    omega
  exact ⟨hbefore, hread, (loadAmid_guarded_iff .new rfl hbefore hread bounded
    (Mapper.system_faithfulOn _ _)).2.1 harmless⟩

/-- The trailer is wiped between the two times the executable is opened, and its range is handed
out all the same.  What a mapper does to the file comes later than both.  With one that cuts the
trailer off, the file that was opened still had it, so that this is no case of an executable that
was replaced in between, although the payload is handed out there, too. -/
theorem loadAmid_wiped :
    let before : Bytes := [0x7f] ++ Magic.gguf ++ Trailer.encode ⟨1, 4⟩
    let now : Bytes := [0x7f] ++ Magic.gguf ++ List.replicate 16 0
    let loaded := loadAmid (fun _ => reissued now) (some "app")
      (.ofFiles oneBundle, .new .default .system)
    let cut := load (some "app") (.ofFiles oneBundle, .new .default (.truncating "app" 5))
    Trailer.ending? now = none ∧
      (∃ model, Handed loaded model ∧ model.source = .embedded "app" 1 4 ∧
        model.bytes = Magic.gguf) ∧
      ¬ Guarded loaded "app" before now ∧
      cut.1 = .ok 0 ∧ (cut.2.1.model? 0).map (·.source) = some (.embedded "app" 1 4) ∧
      cut.2.1.files.read "app" = .ok ([0x7f] ++ Magic.gguf) := by
  intro before now loaded cut
  have hbefore : (World.ofFiles oneBundle).files.read "app" = .ok before := rfl
  have bounded : ∀ content ∈ [before, now], content.length < FileSystem.lengthLimit := by decide
  have hlacks : Trailer.ending? now = none := by decide
  have ends : Trailer.Ends ⟨1, 4⟩ before := (Trailer.ending?_eq_some_iff (by decide)).mp rfl
  have hjudged : judged LoadSettings.default.policy (Bytes.slice now 1 4) = .ok true := rfl
  let change : FileSystem → FileSystem := fun _ => reissued now
  have hnow : (change (World.ofFiles oneBundle).files).read "app" = .ok now := read_reissued now
  rcases loadAmid_ends .new rfl ends hbefore hnow bounded (Mapper.system_faithfulOn _ _) with
    ⟨-, hrefused⟩ | ⟨-, model, valid, -, honly, hsource, hbytes⟩
  · obtain ⟨error, herror⟩ := hrefused (by decide) rfl
    cases hjudged.symm.trans herror
  · have handed : Handed loaded model := (honly model).mpr rfl
    refine ⟨hlacks, ⟨model, handed, hsource, hbytes⟩, fun guarded => ?_, ?_⟩
    · have hends := (guarded.carried model 1 4 handed hsource).1
      cases hlacks.symm.trans ((Trailer.ending?_eq_some_iff (by decide)).mpr hends)
    · decide +kernel

end Loader

end ModelBundle
