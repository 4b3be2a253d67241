import ModelBundle.Proofs.Loading.Strategy

/-!
Loading the payload of one executable.  Only the executable matters here: what it ends in, and
whether its payload can be brought into memory.
-/

namespace ModelBundle

open ModelBundle.Action

def Trailer.ending? (content : Bytes) : Option Trailer :=
  match readLast content content.length with
  | .ok (some trailer) =>
    match trailer.check content.length with
    | .ok () => some trailer
    | .error _ => none
  | _ => none

theorem Trailer.located_of_openRead {files : FileSystem} {path : Path} {handle : Handle}
    {content : Bytes} (hopen : files.openRead path = .ok handle)
    (hcontent : files.content? handle = some content) :
    located files path = .ok (ending? content) := by
  simp only [located, locate, World.ofFiles, hopen, ofHandle, hcontent,
    FileSystem.size_eq hcontent, ending?]
  cases readLast content content.length with
  | error fault => rfl
  | ok found =>
    cases found with
    | none => rfl
    | some trailer =>
      dsimp only
      cases trailer.check content.length <;> rfl

theorem Trailer.check_of_ending {content : Bytes} {trailer : Trailer}
    (h : ending? content = some trailer) : trailer.check content.length = .ok () := by
  unfold ending? at h
  split at h
  · split at h
    · rename_i hcheck
      cases h
      exact hcheck
    · cases h
  · cases h

namespace Loader

/-- The system maps a range of this size, or there is memory for a copy of it. -/
def Fits (settings : LoadSettings) (mapper : Mapper) (size : UInt64) : Prop :=
  (∃ page, mapper = .system page) ∧ settings.shouldMap size = true ∨ Memory.Holds size.toNat

section Embedded

variable {world : World} {exe : Path} {handle : Handle} {content : Bytes} {trailer : Trailer}

theorem embedded?_of_ending (hopen : world.files.openRead exe = .ok handle)
    (hcontent : world.files.content? handle = some content)
    (hending : Trailer.ending? content = some trailer) :
    embedded? world.files (some exe) = some (exe, trailer) := by
  simp only [embedded?, Trailer.located_of_openRead hopen hcontent, hending]

theorem selected_of_ending (settings : LoadSettings) (hopen : world.files.openRead exe = .ok handle)
    (hcontent : world.files.content? handle = some content)
    (hending : Trailer.ending? content = some trailer) :
    selected settings world.files (some exe) =
      .ok ⟨handle, .embedded exe trailer.offset trailer.size, trailer.offset, trailer.size⟩ := by
  simp only [selected_of_embedded (embedded?_of_ending hopen hcontent hending), hopen,
    FileSystem.size_eq hcontent, Trailer.check_of_ending hending]

theorem run_embedded (loader : Loader) (hopen : world.files.openRead exe = .ok handle)
    (regular : world.files.Regular handle content)
    (hending : Trailer.ending? content = some trailer)
    (faithful : loader.mapper.FaithfulOn world.files)
    (fits : Fits loader.settings loader.mapper trailer.size) :
    ∃ asked, asked.files = world.files ∧
      match judged loader.settings.policy
        (Bytes.slice content trailer.offset.toNat trailer.size.toNat) with
      | .error error => (run (some exe) (world, loader)).1 = .error error
      | .ok valid => ∃ work', run (some exe) (world, loader) = (.ok
          { payload := brought loader.settings trailer.size
              (Bytes.slice content trailer.offset.toNat trailer.size.toNat)
              (loader.mapper handle trailer.offset trailer.size asked).1
            source := .embedded exe trailer.offset trailer.size
            valid }, work') := by
  obtain ⟨looked, hlooked, hrun⟩ := run_eq_proceed loader (some exe) world
  let selection : Selection :=
    ⟨handle, .embedded exe trailer.offset trailer.size, trailer.offset, trailer.size⟩
  have hselected : selected loader.settings world.files (some exe) = .ok selection :=
    selected_of_ending loader.settings hopen regular.opened hending
  obtain ⟨hpos, hrange⟩ := inside_of_selected hselected regular
  obtain ⟨opened, hselect, hopened⟩ := select_of_selected hselected hlooked
  rw [← hopened] at regular faithful
  -- What the system is asked for lies in the file, so it does not refuse.
  obtain ⟨asked, acquired, hasked, hacquire, -⟩ := acquire_regular loader.settings selection
    loader.looking regular hrange faithful (fits.imp_left fun hsystem =>
      ⟨hsystem.2, by
        intro asked hasked
        obtain ⟨page, hpage⟩ := hsystem.1
        obtain ⟨region, hok, -⟩ :=
          Mapper.system_of_inside page asked (hasked ▸ regular) hpos hrange
        exact ⟨region, hpage ▸ hok⟩⟩)
  refine ⟨asked, hasked.trans hopened, ?_⟩
  have hjudged := proceed_judged loader.looking hselect hacquire
  have hfaithful : loader.looking.mapper.FaithfulOn asked.files := by
    rw [hasked]
    exact faithful
  have hbytes := bytes_brought loader.settings asked hfaithful (hasked ▸ regular.opened)
    selection.offset selection.size
  rw [hrun]
  rw [hbytes] at hjudged
  exact hjudged

/-- Whatever an idle loader did before: given an executable with a payload, it judges that payload
and hands it out if it passes. -/
theorem load_embedded {settings : LoadSettings} {mapper : Mapper} {loader : Loader}
    (reached : Reached settings mapper loader) (idle : loader.active = none)
    (hopen : world.files.openRead exe = .ok handle)
    (regular : world.files.Regular handle content)
    (hending : Trailer.ending? content = some trailer)
    (faithful : mapper.FaithfulOn world.files) (fits : Fits settings mapper trailer.size) :
    ∃ asked, asked.files = world.files ∧
      match judged settings.policy
        (Bytes.slice content trailer.offset.toNat trailer.size.toNat) with
      | .error error => (load (some exe) (world, loader)).1 = .error error
      | .ok valid => ∃ id, (load (some exe) (world, loader)).1 = .ok id ∧
        (load (some exe) (world, loader)).2.1.model? id = some
          { payload := brought settings trailer.size
              (Bytes.slice content trailer.offset.toNat trailer.size.toNat)
              (mapper handle trailer.offset trailer.size asked).1
            source := .embedded exe trailer.offset trailer.size
            valid } := by
  have hsettings := reached.settings_eq
  have hmapper := reached.mapper_eq
  let fresh : Loader := { loader with stage := .start, history := [.start] }
  have hfits : Fits fresh.settings fresh.mapper trailer.size := by
    simpa [Fits, fresh, hsettings, hmapper] using fits
  obtain ⟨asked, hasked, hrun⟩ :=
    run_embedded fresh hopen regular hending (hmapper ▸ faithful) hfits
  refine ⟨asked, hasked, ?_⟩
  have hbrought : brought fresh.settings trailer.size
      (Bytes.slice content trailer.offset.toNat trailer.size.toNat)
      (fresh.mapper handle trailer.offset trailer.size asked).1 = brought settings trailer.size
      (Bytes.slice content trailer.offset.toNat trailer.size.toNat)
      (mapper handle trailer.offset trailer.size asked).1 := by
    simp [brought, fresh, hsettings, hmapper]
  have hpolicy : fresh.settings.policy = settings.policy := by
    simp [fresh, hsettings]
  rw [hbrought, hpolicy] at hrun
  cases hverdict : judged settings.policy
      (Bytes.slice content trailer.offset.toNat trailer.size.toNat) with
  | error error =>
    rw [hverdict] at hrun
    exact (gaveUp_of_run idle (Prod.ext hrun rfl)).result
  | ok valid =>
    rw [hverdict] at hrun
    obtain ⟨work', hrun⟩ := hrun
    obtain ⟨id, hid, hmodel, -⟩ := (handedOut_of_run idle hrun).result
    exact ⟨id, hid, hmodel⟩

end Embedded

end Loader

end ModelBundle
