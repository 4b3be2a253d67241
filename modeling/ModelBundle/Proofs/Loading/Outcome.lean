import ModelBundle.Proofs.Loading.Reached
import ModelBundle.Proofs.Ranges

/-!
What a load comes to, said on the files alone: which bytes it is about, and whether the magic lets
them through.  Mapped and copied bytes are the same bytes, so neither the ceiling nor a mapper that
refuses can be told from the outcome.
-/

namespace ModelBundle

open ModelBundle.Action

def FileSystem.Affordable (files : FileSystem) : Prop :=
  ∀ handle content, files.content? handle = some content → Memory.Holds content.length

/-- On these files the mapper leaves the files alone, and what it brings into view is what the
file holds in that range.  It may refuse for any reason. -/
def Mapper.FaithfulOn (mapper : Mapper) (files : FileSystem) : Prop :=
  ∀ (handle : Handle) (offset size : UInt64) (world : World), world.files = files →
    (mapper handle offset size world).2.files = files ∧
    ∀ region, (mapper handle offset size world).1 = .ok region →
      ∀ content, files.content? handle = some content →
        region.bytes = Bytes.slice content offset.toNat size.toNat

theorem LoadError.ofOpen_eq (path : Path) (fault : Fault) :
    ofOpen path fault = if fault = .system .noSuchFile then notFound path else io fault := by
  unfold ofOpen
  split
  · rfl
  · rename_i hother
    rw [if_neg hother]

theorem Mapper.system_faithfulOn (page : Page) (files : FileSystem) :
    (system page).FaithfulOn files := by
  rintro handle offset size world rfl
  constructor
  · obtain ⟨_, hsystem, -⟩ | ⟨_, _, _, -, -, -, hsystem⟩ :=
      system_steps page handle offset size world
    all_goals rw [hsystem]
  · intro region hregion content hcontent
    exact bytes_system hregion hcontent

theorem Mapper.failing_faithfulOn (cause : String) (files : FileSystem) :
    (failing cause).FaithfulOn files := by
  intro handle offset size world hfiles
  exact ⟨hfiles, fun region hregion => by simp [failing] at hregion⟩

theorem FileSystem.Affordable.regular {files : FileSystem} (affordable : files.Affordable)
    {handle : Handle} {content : Bytes} (h : files.content? handle = some content) :
    files.Regular handle content :=
  ⟨h, Nat.lt_trans (affordable _ _ h) (by decide)⟩

theorem Trailer.located_some {files : FileSystem} {path : Path} {trailer : Trailer}
    (h : located files path = .ok (some trailer)) :
    ∃ handle content, files.openRead path = .ok handle ∧ files.content? handle = some content ∧
      trailer.check content.length = .ok () := by
  unfold located locate World.ofFiles at h
  dsimp only at h
  split at h
  · simp at h
  · rename_i handle hopen
    split at h
    · simp at h
    · simp at h
    · rename_i found hfound
      split at h
      · rename_i hcheck
        simp only [Except.ok.injEq, Option.some.injEq] at h
        subst h
        cases hcontent : files.content? handle with
        | none => simp [ofHandle, hcontent] at hfound
        | some content =>
          rw [FileSystem.size_eq hcontent] at hcheck
          exact ⟨handle, content, hopen, hcontent, hcheck⟩
      · simp at h

@[simp] theorem LoadSettings.modelPath_resolve (settings : LoadSettings) :
    settings.resolve.modelPath = settings.modelPath := by
  unfold resolve
  split <;> rfl

@[simp] theorem LoadSettings.policy_resolve (settings : LoadSettings) :
    settings.resolve.policy = settings.policy := by
  unfold resolve
  split <;> rfl

namespace Loader

def embedded? (files : FileSystem) (exe : Option Path) : Option (Path × Trailer) :=
  match exe with
  | none => none
  | some exe =>
    match Trailer.located files exe with
    | .ok (some trailer) => some (exe, trailer)
    | _ => none

/-- The bytes that a load is about, and where they are found. -/
def chosen (settings : LoadSettings) (files : FileSystem) (exe : Option Path) :
    Except LoadError (Bytes × Source) :=
  match embedded? files exe with
  | some (exe, trailer) =>
    match files.read exe with
    | .ok content =>
      .ok (Bytes.slice content trailer.offset.toNat trailer.size.toNat,
        .embedded exe trailer.offset trailer.size)
    | .error fault => .error (.ofOpen exe fault)
  | none =>
    match settings.modelPath with
    | none => .error .noModel
    | some path =>
      match files.read path with
      | .error fault =>
        .error (if fault = .system .noSuchFile then .notFound path else .io fault)
      | .ok content =>
        if content.length < 4 then .error (.tooSmall path content.length 4)
        else .ok (content, .file path)

/-- Bytes with the magic pass; others pass with a warning or not at all. -/
def judged (policy : MagicPolicy) (bytes : Bytes) : Except LoadError Bool :=
  if bytes.take 4 = Magic.gguf then .ok true
  else match policy with
    | .abort => .error (.invalidMagic (bytes.take 4))
    | .warn => .ok false

/-- What a load comes to: an error, or bytes, where they were found, and whether they carry the
magic. -/
def expected (settings : LoadSettings) (files : FileSystem) (exe : Option Path) :
    Except LoadError (Bytes × Source × Bool) :=
  match chosen settings files exe with
  | .error error => .error error
  | .ok (bytes, source) =>
    match judged settings.policy bytes with
    | .error error => .error error
    | .ok valid => .ok (bytes, source, valid)

@[simp] theorem expected_resolve (settings : LoadSettings) (files : FileSystem)
    (exe : Option Path) : expected settings.resolve files exe = expected settings files exe := by
  unfold expected chosen
  rw [LoadSettings.modelPath_resolve, LoadSettings.policy_resolve]

def Holds (files : FileSystem) (selection : Selection) (bytes : Bytes) : Prop :=
  ∃ content, files.content? selection.handle = some content ∧
    selection.offset.toNat + selection.size.toNat ≤ content.length ∧
    Bytes.slice content selection.offset.toNat selection.size.toNat = bytes

/-! Looking into the executable and selecting a range. -/

theorem findEmbedded_fst (exe : Option Path) (world : World) :
    (findEmbedded exe world).1 = .ok (embedded? world.files exe) := by
  cases exe with
  | none => rfl
  | some exe =>
    simp only [findEmbedded, embedded?, bind_apply, attempt_apply, ← Trailer.locate_fst exe world]
    cases (Trailer.locate exe world).1 with
    | ok found => cases found <;> rfl
    | error error => rfl

theorem located_of_embedded? {files : FileSystem} {exe : Option Path} {found : Path}
    {trailer : Trailer} (h : embedded? files exe = some (found, trailer)) :
    Trailer.located files found = .ok (some trailer) := by
  unfold embedded? at h
  split at h
  · cases h
  · split at h
    · rename_i hlocated
      simp only [Option.some.injEq, Prod.mk.injEq] at h
      obtain ⟨rfl, rfl⟩ := h
      exact hlocated
    · cases h

theorem selectEmbedded_fst (exe : Path) (trailer : Trailer) (world : World) :
    (selectEmbedded exe trailer world).1 =
      match world.files.openRead exe with
      | .error fault => .error (.ofOpen exe fault)
      | .ok handle =>
        match trailer.check (world.files.size handle) with
        | .error error => .error error
        | .ok () =>
          .ok
            ⟨handle, .embedded exe trailer.offset trailer.size, trailer.offset, trailer.size⟩ := by
  have hfiles : (world.note (.foundEmbedded trailer.offset trailer.size)).files = world.files := rfl
  simp only [selectEmbedded, remark, bind_apply, modify_apply, openFile, hfiles]
  cases world.files.openRead exe with
  | error fault => rfl
  | ok handle =>
    simp only [sizeOf, hfiles, ofExcept_apply]
    cases trailer.check (world.files.size handle) <;> rfl

theorem selectFile_fst (path : Path) (world : World) :
    (selectFile path world).1 =
      match world.files.openRead path with
      | .error fault => .error (.ofOpen path fault)
      | .ok handle =>
        if world.files.size handle < Magic.gguf.length then
          .error (.tooSmall path (world.files.size handle) Magic.gguf.length)
        else .ok ⟨handle, .file path, 0, .ofNat (world.files.size handle)⟩ := by
  simp only [selectFile, bind_apply, openFile]
  cases world.files.openRead path with
  | error fault => rfl
  | ok handle =>
    simp only [sizeOf]
    split <;> rfl

def selected (settings : LoadSettings) (files : FileSystem) (exe : Option Path) :
    Except LoadError Selection :=
  (select settings (embedded? files exe) (.ofFiles files)).1

theorem select_fst (settings : LoadSettings) (exe : Option Path) {world : World}
    {files : FileSystem} (hfiles : world.files = files) :
    (select settings (embedded? files exe) world).1 = selected settings files exe := by
  have hsame : (World.ofFiles files).files = world.files := hfiles.symm
  unfold selected
  cases embedded? files exe with
  | some found => simp only [select, selectEmbedded_fst, hsame]
  | none =>
    cases hpath : settings.modelPath with
    | some path => simp only [select, hpath, selectFile_fst, hsame]
    | none => simp only [select, hpath, fail_apply]

theorem select_of_selected {settings : LoadSettings} {files : FileSystem} {exe : Option Path}
    {selection : Selection} (h : selected settings files exe = .ok selection) {world : World}
    (hfiles : world.files = files) :
    ∃ opened, select settings (embedded? files exe) world = (.ok selection, opened) ∧
      opened.files = files :=
  ⟨_, Prod.ext ((select_fst settings exe hfiles).trans h) rfl,
    ((keeps_silent_select settings (embedded? files exe)).map World.files world).trans hfiles⟩

section Selected

variable {settings : LoadSettings} {files : FileSystem} {exe : Option Path}

theorem selected_of_embedded {found : Path} {trailer : Trailer}
    (h : embedded? files exe = some (found, trailer)) :
    selected settings files exe =
      match files.openRead found with
      | .error fault => .error (.ofOpen found fault)
      | .ok handle =>
        match trailer.check (files.size handle) with
        | .error error => .error error
        | .ok () => .ok ⟨handle, .embedded found trailer.offset trailer.size, trailer.offset,
            trailer.size⟩ := by
  simp only [selected, h, select, selectEmbedded_fst, World.ofFiles]

theorem selected_of_configured (h : embedded? files exe = none) {path : Path}
    (hpath : settings.modelPath = some path) :
    selected settings files exe =
      match files.openRead path with
      | .error fault => .error (.ofOpen path fault)
      | .ok handle =>
        if files.size handle < 4 then .error (.tooSmall path (files.size handle) 4)
        else .ok ⟨handle, .file path, 0, .ofNat (files.size handle)⟩ := by
  have hleast : Magic.gguf.length = 4 := rfl
  simp only [selected, h, select, hpath, selectFile_fst, World.ofFiles, hleast]

theorem selected_nothing (h : embedded? files exe = none) (hpath : settings.modelPath = none) :
    selected settings files exe = .error .noModel := by
  simp only [selected, h, select, hpath, fail_apply]

theorem inside_of_selected {selection : Selection} {content : Bytes}
    (hselected : selected settings files exe = .ok selection)
    (regular : files.Regular selection.handle content) :
    0 < selection.size.toNat ∧
      selection.offset.toNat + selection.size.toNat ≤ content.length := by
  have hsize := FileSystem.size_eq regular.opened
  cases hfound : embedded? files exe with
  | some found =>
    rw [selected_of_embedded hfound] at hselected
    split at hselected
    · cases hselected
    · split at hselected
      · cases hselected
      · rename_i hcheck
        cases hselected
        rw [hsize] at hcheck
        have := Trailer.check_eq_ok_iff.mp hcheck
        dsimp only
        omega
  | none =>
    cases hpath : settings.modelPath with
    | none =>
      rw [selected_nothing hfound hpath] at hselected
      cases hselected
    | some path =>
      rw [selected_of_configured hfound hpath] at hselected
      split at hselected
      · cases hselected
      · split at hselected
        · cases hselected
        · rename_i hlong
          cases hselected
          have hword : (UInt64.ofNat content.length).toNat = content.length :=
            UInt64.toNat_ofNat_of_lt' regular.fits
          rw [hsize] at hlong
          simp only [hsize, hword, UInt64.toNat_zero]
          omega

theorem selected_chosen (exe : Option Path) (affordable : files.Affordable)
    (regular : ∀ path, settings.modelPath = some path → files.openRead path ≠ .ok .directory) :
    match chosen settings files exe with
    | .error error => selected settings files exe = .error error
    | .ok (bytes, source) => ∃ selection, selected settings files exe = .ok selection ∧
        selection.source = source ∧ Holds files selection bytes := by
  unfold chosen
  cases hfound : embedded? files exe with
  | some found =>
    obtain ⟨found, trailer⟩ := found
    -- An executable that is left alone still fits the trailer that was found in it.
    obtain ⟨handle, content, hopen, hcontent, hcheck⟩ :=
      Trailer.located_some (located_of_embedded? hfound)
    have hsum := (Trailer.check_eq_ok_iff.mp hcheck).2.2.1
    simp only [FileSystem.read_of_openRead hopen hcontent]
    refine ⟨⟨handle, .embedded found trailer.offset trailer.size, trailer.offset, trailer.size⟩,
      ?_, rfl, content, hcontent, ?_, rfl⟩
    · simp only [selected_of_embedded hfound, hopen, FileSystem.size_eq hcontent, hcheck]
    · dsimp only
      omega
  | none =>
    cases hpath : settings.modelPath with
    | none => exact selected_nothing hfound hpath
    | some path =>
      cases hread : files.read path with
      | error fault =>
        have hopen : files.openRead path = .error fault := by
          cases hopen : files.openRead path with
          | error other =>
            simp only [FileSystem.read, hopen, Except.error.injEq] at hread
            rw [hread]
          | ok handle =>
            have hregular : handle ≠ .directory := by
              rintro rfl
              exact regular path hpath hopen
            obtain ⟨content, hcontent⟩ := FileSystem.content?_of_openRead hopen hregular
            rw [FileSystem.read_of_openRead hopen hcontent] at hread
            simp at hread
        simp only [hread, selected_of_configured hfound hpath, hopen, LoadError.ofOpen_eq]
      | ok content =>
        obtain ⟨id, hopen, hcontent⟩ := FileSystem.read_eq_ok_iff.mp hread
        have hselected := selected_of_configured hfound hpath
        simp only [hopen, FileSystem.size_eq hcontent] at hselected
        simp only [hread]
        by_cases hshort : content.length < 4
        · rw [if_pos hshort] at hselected ⊢
          exact hselected
        · rw [if_neg hshort] at hselected ⊢
          have hword : (UInt64.ofNat content.length).toNat = content.length :=
            UInt64.toNat_ofNat_of_lt' (affordable.regular hcontent).fits
          refine ⟨_, hselected, rfl, content, hcontent, ?_, ?_⟩ <;> simp [Bytes.slice, hword]

end Selected

/-! Bringing the selected bytes into memory. -/

/-- What a range is held as: the region if the mapper was to be asked and gave one, and a copy
otherwise. -/
def brought (settings : LoadSettings) (size : UInt64) (bytes : Bytes)
    (answer : Except LoadError Region) : Payload :=
  match settings.shouldMap size, answer with
  | true, .ok region => .mapped region
  | _, _ => .buffered ⟨bytes⟩

def asking (loader : Loader) (selection : Selection) : Loader :=
  { loader with
    stage := .mapping
    history := loader.history ++ [.mapping]
    requests := loader.requests ++ [(selection.offset, selection.size)] }

def fallingBack (loader : Loader) : Loader :=
  { loader with
    stage := .fallbackReading
    history := loader.history ++ [.fallbackReading] }

section Acquire

variable {selection : Selection} {content : Bytes} {world : World}

def copied (world : World) (selection : Selection) : Except LoadError Payload :=
  (Buffer.ofInput (world.input selection.handle) selection.offset selection.size).map .buffered

theorem copied_of_content (hcontent : world.files.content? selection.handle = some content) :
    copied world selection =
      (Buffer.ofInput (.file content) selection.offset selection.size).map .buffered := by
  simp only [copied, World.input, hcontent]

theorem copy_eq (selection : Selection) (world : World) (loader : Loader) :
    ∃ left, copy selection (world, loader) =
        (copied world selection, (left, loader.fallingBack)) ∧
      left.files = world.files := by
  have hinput : (world.note (.stage loader.stage .fallbackReading)).input selection.handle =
      world.input selection.handle := rfl
  simp only [copy, enter, outside, bind_apply, modify_apply, zoom_apply, Buffer.read, hinput,
    copied]
  cases Buffer.ofInput (world.input selection.handle) selection.offset selection.size with
  | error error => exact ⟨_, rfl, rfl⟩
  | ok buffer => exact ⟨_, rfl, rfl⟩

theorem copy_regular (world : World) (regular : world.files.Regular selection.handle content)
    (hrange : selection.offset.toNat + selection.size.toNat ≤ content.length)
    (holds : Memory.Holds selection.size.toNat) (loader : Loader) :
    ∃ work', copy selection (world, loader) =
        (.ok (.buffered ⟨Bytes.slice content selection.offset.toNat selection.size.toNat⟩), work') ∧
      work'.1.files = world.files := by
  obtain ⟨left, hcopy, hfiles⟩ := copy_eq selection world loader
  rw [copied_of_content regular.opened, Buffer.ofInput_of_inside regular hrange holds] at hcopy
  exact ⟨_, hcopy, hfiles⟩

theorem acquire_of_refused {settings : LoadSettings} {loader : Loader} {error : LoadError}
    {mapped : World} (hshould : settings.shouldMap selection.size = true)
    (hmap : loader.mapper selection.handle selection.offset selection.size
      (world.note (.stage loader.stage .mapping)) = (.error error, mapped)) :
    acquire settings selection (world, loader) =
      copy selection (mapped.note (.mappingFailed error), loader.asking selection) := by
  simp only [acquire, hshould, if_true, enter, request, outside, remark, bind_apply, modify_apply,
    zoom_apply, hmap]
  rfl

theorem acquire_regular (settings : LoadSettings) (selection : Selection) (loader : Loader)
    (regular : world.files.Regular selection.handle content)
    (hrange : selection.offset.toNat + selection.size.toNat ≤ content.length)
    (faithful : loader.mapper.FaithfulOn world.files)
    (hfits : (settings.shouldMap selection.size = true ∧ ∀ asked, asked.files = world.files →
        ∃ region, (loader.mapper selection.handle selection.offset selection.size asked).1 =
          .ok region) ∨
      Memory.Holds selection.size.toNat) :
    ∃ asked work', asked.files = world.files ∧ acquire settings selection (world, loader) =
        (.ok (brought settings selection.size
          (Bytes.slice content selection.offset.toNat selection.size.toNat)
          (loader.mapper selection.handle selection.offset selection.size asked).1), work') ∧
      work'.1.files = world.files := by
  cases hshould : settings.shouldMap selection.size with
  | true =>
    let asked := world.note (.stage loader.stage .mapping)
    have hfiles := (faithful selection.handle selection.offset selection.size asked rfl).1
    refine ⟨asked, ?_⟩
    rcases hmap : loader.mapper selection.handle selection.offset selection.size asked
      with ⟨error | region, mapped⟩
    · have holds : Memory.Holds selection.size.toNat := by
        refine hfits.resolve_left fun hgiven => ?_
        obtain ⟨region, hok⟩ := hgiven.2 asked rfl
        rw [hmap] at hok
        cases hok
      rw [hmap] at hfiles
      have hmapped : (mapped.note (.mappingFailed error)).files.Regular selection.handle content :=
        hfiles.symm ▸ regular
      obtain ⟨work', hcopy, hsame⟩ :=
        copy_regular _ hmapped hrange holds (loader.asking selection)
      rw [acquire_of_refused hshould hmap, hcopy]
      simp only [brought, hshould]
      exact ⟨work', rfl, rfl, hsame.trans hfiles⟩
    · rw [hmap] at hfiles
      simp only [acquire, enter, request, outside, remark, bind_apply, modify_apply, zoom_apply,
        if_true, asked, hmap, brought, hshould, pure_apply]
      exact ⟨_, rfl, rfl, hfiles⟩
  | false =>
    have holds := hfits.resolve_left (by simp [hshould])
    refine ⟨world, ?_⟩
    simp only [acquire, Bool.false_eq_true, if_false, brought, hshould]
    split
    · obtain ⟨work', hcopy, hsame⟩ := copy_regular
        (world.note (.aboveCeiling selection.size settings.ceiling)) regular hrange holds loader
      simp only [outside, remark, bind_apply, modify_apply, zoom_apply]
      exact ⟨work', trivial, hcopy, hsame⟩
    · obtain ⟨work', hcopy, hsame⟩ := copy_regular world regular hrange holds loader
      exact ⟨work', trivial, hcopy, hsame⟩

end Acquire

/-- A faithful mapper cannot be told from copying. -/
theorem bytes_brought {mapper : Mapper} {handle : Handle} {content : Bytes}
    (settings : LoadSettings) (asked : World) (faithful : mapper.FaithfulOn asked.files)
    (hcontent : asked.files.content? handle = some content) (offset size : UInt64) :
    (brought settings size (Bytes.slice content offset.toNat size.toNat)
      (mapper handle offset size asked).1).bytes =
        Bytes.slice content offset.toNat size.toNat := by
  have hbytes := (faithful handle offset size asked rfl).2
  unfold brought
  split
  · rename_i region _ hok
    exact hbytes region hok content hcontent
  · rfl

theorem brought_system {world : World} {handle : Handle} {content : Bytes} {offset size : UInt64}
    (page : Page) (settings : LoadSettings) (regular : world.files.Regular handle content)
    (hpos : 0 < size.toNat) (hrange : offset.toNat + size.toNat ≤ content.length)
    (bytes : Bytes) :
    let payload := brought settings size bytes (Mapper.system page handle offset size world).1
    payload.kind = (if settings.shouldMap size then .mapped else .buffered) ∧
      ∀ region, payload = .mapped region →
        region.adjustment = offset % Mapping.granularity page := by
  obtain ⟨region, hok, -, -, -, hadjustment⟩ :=
    Mapper.system_of_inside page world regular hpos hrange
  dsimp only
  rw [hok]
  cases hshould : settings.shouldMap size with
  | true =>
    refine ⟨by simp [brought, hshould, Payload.kind], ?_⟩
    rintro _ hmapped
    simp only [brought, hshould, Payload.mapped.injEq] at hmapped
    rw [← hmapped, hadjustment]
  | false => simp [brought, hshould, Payload.kind]

theorem acquire_holds {selection : Selection} {bytes : Bytes} (settings : LoadSettings)
    (world : World) (loader : Loader) (affordable : world.files.Affordable)
    (faithful : loader.mapper.FaithfulOn world.files)
    (holds : Holds world.files selection bytes) :
    ∃ payload work', acquire settings selection (world, loader) = (.ok payload, work') ∧
      payload.bytes = bytes ∧ work'.1.files = world.files := by
  obtain ⟨content, hcontent, hrange, rfl⟩ := holds
  have hmemory : Memory.Holds selection.size.toNat :=
    (affordable _ _ hcontent).mono (by omega)
  obtain ⟨asked, work', hasked, hacquire, hfiles⟩ := acquire_regular settings selection loader
    (affordable.regular hcontent) hrange faithful (.inr hmemory)
  exact ⟨_, work', hacquire,
    bytes_brought settings asked (hasked ▸ faithful) (hasked ▸ hcontent) _ _, hfiles⟩

theorem judged_eq (policy : MagicPolicy) (bytes : Bytes) :
    judged policy bytes = if bytes.take 4 ≠ Magic.gguf ∧ policy = .abort then
        .error (.invalidMagic (bytes.take 4))
      else .ok (decide (bytes.take 4 = Magic.gguf)) := by
  unfold judged
  split
  · simp [*]
  · cases policy <;> simp [*]

theorem validate_judged (policy : MagicPolicy) (source : Source) (payload : Payload)
    (world : World) :
    match judged policy payload.bytes with
    | .error error => (validate policy source payload world).1 = .error error
    | .ok valid => ∃ world', validate policy source payload world =
        (.ok ⟨payload, source, valid⟩, world') := by
  have hmagic : Magic.startsView payload.bytes = true ↔ payload.bytes.take 4 = Magic.gguf :=
    Magic.startsView_iff payload.bytes
  unfold validate judged
  by_cases h : payload.bytes.take 4 = Magic.gguf
  · simp only [h, if_true, hmagic.mpr h]
    exact ⟨_, rfl⟩
  · simp only [h, if_false, mt hmagic.mp h]
    cases policy with
    | abort => rfl
    | warn => exact ⟨_, rfl⟩

/-! From the executable to a verdict. -/

def looking (loader : Loader) : Loader :=
  { loader with
    stage := .lookingForTrailer
    history := loader.history ++ [.lookingForTrailer] }

theorem findEmbedded_eq (exe : Option Path) (world : World) :
    ∃ looked, looked.files = world.files ∧
      findEmbedded exe world = (.ok (embedded? world.files exe), looked) :=
  ⟨(findEmbedded exe world).2, (keeps_silent_findEmbedded exe).map World.files world,
    Prod.ext (findEmbedded_fst exe world) rfl⟩

theorem run_eq_proceed (loader : Loader) (exe : Option Path) (world : World) :
    ∃ looked, looked.files = world.files ∧
      run exe (world, loader) = proceed (embedded? world.files exe) (looked, loader.looking) := by
  obtain ⟨looked, hlooked, hfound⟩ :=
    findEmbedded_eq exe (world.note (.stage loader.stage .lookingForTrailer))
  refine ⟨looked, hlooked, ?_⟩
  simp only [run, enter, outside, bind_apply, modify_apply, zoom_apply]
  rw [hfound]
  rfl

theorem proceed_of_error {found : Option (Path × Trailer)} {looked : World} (loader : Loader)
    {error : LoadError} (hselect : (select loader.settings found looked).1 = .error error) :
    (proceed found (looked, loader)).1 = .error error := by
  simp only [proceed, outside, bind_apply, zoom_apply, get_apply, hselect]

def judging (loader : Loader) : Loader :=
  { loader with
    stage := .validating
    history := loader.history ++ [.validating] }

theorem proceed_of_acquired {found : Option (Path × Trailer)} {looked selected : World}
    (loader : Loader) {selection : Selection} {payload : Payload} {acquired : Work}
    (hselect : select loader.settings found looked = (.ok selection, selected))
    (hacquire : acquire loader.settings selection (selected, loader) = (.ok payload, acquired)) :
    proceed found (looked, loader) =
      let validated := validate loader.settings.policy selection.source payload
        (acquired.1.note (.stage acquired.2.stage .validating))
      (validated.1, (validated.2, acquired.2.judging)) := by
  simp only [proceed, enter, outside, bind_apply, modify_apply, zoom_apply, get_apply, hselect,
    hacquire]
  rfl

theorem proceed_judged {found : Option (Path × Trailer)} {looked selected : World}
    (loader : Loader) {selection : Selection} {payload : Payload} {acquired : Work}
    (hselect : select loader.settings found looked = (.ok selection, selected))
    (hacquire : acquire loader.settings selection (selected, loader) = (.ok payload, acquired)) :
    match judged loader.settings.policy payload.bytes with
    | .error error => (proceed found (looked, loader)).1 = .error error
    | .ok valid => ∃ work', proceed found (looked, loader) =
        (.ok ⟨payload, selection.source, valid⟩, work') := by
  have hjudged := validate_judged loader.settings.policy selection.source payload
    (acquired.1.note (.stage acquired.2.stage .validating))
  rw [proceed_of_acquired loader hselect hacquire]
  cases hverdict : judged loader.settings.policy payload.bytes with
  | error error =>
    rw [hverdict] at hjudged
    exact hjudged
  | ok valid =>
    rw [hverdict] at hjudged
    obtain ⟨validated, hvalidate⟩ := hjudged
    rw [hvalidate]
    exact ⟨_, rfl⟩

theorem run_expected {world : World} (loader : Loader) (exe : Option Path)
    (affordable : world.files.Affordable) (faithful : loader.mapper.FaithfulOn world.files)
    (regular : ∀ path, loader.settings.modelPath = some path →
      world.files.openRead path ≠ .ok .directory) :
    match expected loader.settings world.files exe with
    | .error error => (run exe (world, loader)).1 = .error error
    | .ok (bytes, source, valid) => ∃ model work', run exe (world, loader) = (.ok model, work') ∧
        model.bytes = bytes ∧ model.source = source ∧ model.valid = valid := by
  obtain ⟨looked, hlooked, hrun⟩ := run_eq_proceed loader exe world
  have hselected := selected_chosen exe affordable regular
  rw [hrun]
  unfold expected
  cases hchosen : chosen loader.settings world.files exe with
  | error error =>
    rw [hchosen] at hselected
    exact proceed_of_error loader.looking ((select_fst _ exe hlooked).trans hselected)
  | ok pair =>
    obtain ⟨bytes, source⟩ := pair
    rw [hchosen] at hselected
    obtain ⟨selection, hselected, rfl, holds⟩ := hselected
    obtain ⟨opened, hselect, hopened⟩ := select_of_selected hselected hlooked
    rw [← hopened] at affordable faithful holds
    obtain ⟨payload, acquired, hacquire, rfl, -⟩ :=
      acquire_holds loader.settings opened loader.looking affordable faithful holds
    have hjudged := proceed_judged loader.looking hselect hacquire
    have hpolicy : loader.looking.settings.policy = loader.settings.policy := rfl
    rw [hpolicy] at hjudged
    dsimp only
    cases hverdict : judged loader.settings.policy payload.bytes with
    | error error =>
      rw [hverdict] at hjudged
      exact hjudged
    | ok valid =>
      rw [hverdict] at hjudged
      obtain ⟨work', hproceed⟩ := hjudged
      exact ⟨_, work', hproceed, rfl, rfl, rfl⟩

/-! What a load leaves behind. -/

/-- The load failed after these stages, and the loader holds no model. -/
structure GaveUp (loaded : Except LoadError Nat × Work) (error : LoadError)
    (stages : List Stage) : Prop where
  result : loaded.1 = .error error
  stage : loaded.2.2.stage = .failed
  history : loaded.2.2.history = stages
  active : loaded.2.2.active = none

/-- The load handed a model out after these stages, and the loader holds it as well. -/
structure HandedOut (loaded : Except LoadError Nat × Work) (model : Model)
    (stages : List Stage) : Prop where
  result : ∃ id, loaded.1 = .ok id ∧ loaded.2.1.model? id = some model ∧
    loaded.2.2.active = some id
  stage : loaded.2.2.stage = .ready
  history : loaded.2.2.history = stages

theorem model?_handOut (model : Model) (work : Work) :
    (handOut model work).2.1.model? work.1.nextModel = some model := by
  simp [handOut, World.share, World.retain, World.model?, World.shared?, Table.update]

theorem gaveUp_of_run {loader : Loader} (idle : loader.active = none) {world : World}
    {exe : Option Path} {error : LoadError} {work : Work}
    (hrun : run exe (world, { loader with stage := .start, history := [.start] }) =
      (.error error, work)) :
    GaveUp (load exe (world, loader)) error (work.2.history ++ [.failed]) := by
  have hcore := keeps_core_run exe (world, { loader with stage := .start, history := [.start] })
  rw [hrun] at hcore
  rw [load_of_idle idle, hrun]
  exact ⟨rfl, rfl, rfl, (congrArg (fun core => core.2.2) hcore).trans idle⟩

theorem handedOut_of_run {loader : Loader} (idle : loader.active = none) {world : World}
    {exe : Option Path} {model : Model} {work : Work}
    (hrun : run exe (world, { loader with stage := .start, history := [.start] }) =
      (.ok model, work)) :
    HandedOut (load exe (world, loader)) model (work.2.history ++ [.ready]) := by
  rw [load_of_idle idle, hrun]
  exact ⟨⟨_, rfl, model?_handOut model _, rfl⟩, rfl, rfl⟩

theorem HandedOut.model_eq {loaded : Except LoadError Nat × Work} {model other : Model}
    {stages : List Stage} (handed : HandedOut loaded model stages) {id : Nat}
    (hid : loaded.1 = .ok id) (hother : loaded.2.1.model? id = some other) : other = model := by
  obtain ⟨found, hfound, hmodel, -⟩ := handed.result
  cases hid.symm.trans hfound
  exact Option.some.inj (hother.symm.trans hmodel)

/-- For every loader without an active model, whatever it did before: a load comes to what is
expected from the files.  Either it gives that error, or it gives a handle on a model with those
bytes, which the loader then holds as well.  The mapper may map faithfully or refuse. -/
theorem load_outcome {settings : LoadSettings} {mapper : Mapper} {loader : Loader}
    (reached : Reached settings mapper loader) (idle : loader.active = none) (world : World)
    (exe : Option Path) (affordable : world.files.Affordable)
    (faithful : mapper.FaithfulOn world.files)
    (regular : ∀ path, settings.modelPath = some path →
      world.files.openRead path ≠ .ok .directory) :
    match expected settings world.files exe with
    | .error error =>
      (load exe (world, loader)).1 = .error error ∧
        (load exe (world, loader)).2.2.stage = .failed ∧
        (load exe (world, loader)).2.2.active = none
    | .ok (bytes, source, valid) => ∃ id model,
        (load exe (world, loader)).1 = .ok id ∧
        (load exe (world, loader)).2.1.model? id = some model ∧
        model.bytes = bytes ∧ model.source = source ∧ model.valid = valid ∧
        (load exe (world, loader)).2.2.stage = .ready ∧
        (load exe (world, loader)).2.2.active = some id := by
  have hsetup := reached.setup_eq world
  simp only [setup, Prod.mk.injEq] at hsetup
  obtain ⟨hsettings, hmapper⟩ := hsetup
  rw [← expected_resolve, ← hsettings]
  let fresh : Loader := { loader with stage := .start, history := [.start] }
  have hpath : ∀ path, fresh.settings.modelPath = some path →
      world.files.openRead path ≠ .ok .directory := by
    intro path h
    refine regular path ?_
    rw [← h]
    show settings.modelPath = loader.settings.modelPath
    rw [hsettings, LoadSettings.modelPath_resolve]
  have hrun := run_expected fresh exe affordable (hmapper ▸ faithful) hpath
  have hcore := keeps_core_run exe (world, fresh)
  have hidle : loader.active.isSome = false := by simp [idle]
  simp only [load, restart, bind_apply, get_apply, hidle, Bool.false_eq_true, if_false,
    modify_apply, attempt_apply]
  change match expected fresh.settings world.files exe with
    | .error error => _
    | .ok (bytes, source, valid) => _
  rcases h : run exe (world, fresh) with ⟨result, ran⟩
  rw [h] at hrun hcore
  simp only [core, Prod.mk.injEq] at hcore
  cases hexpected : expected fresh.settings world.files exe with
  | error error =>
    rw [hexpected] at hrun
    simp only at hrun
    subst hrun
    exact ⟨rfl, rfl, hcore.2.2.trans idle⟩
  | ok outcome =>
    rw [hexpected] at hrun
    obtain ⟨model, work', hmodel, hbytes, hsource, hvalid⟩ := hrun
    simp only [Prod.mk.injEq] at hmodel
    obtain ⟨rfl, rfl⟩ := hmodel
    exact ⟨_, model, rfl, model?_handOut model _, hbytes, hsource, hvalid, rfl, rfl⟩

def oneBundle : FileSystem where
  entries := [(["work"], .directory), (["work", "app"], .file 0)]
  files := [(0, ⟨[0x7f] ++ Magic.gguf ++ Trailer.encode ⟨1, 4⟩, 0o755⟩)]
  working := ["work"]

theorem affordable_oneBundle : oneBundle.Affordable := by
  intro handle content h
  have hlength : content.length = 21 := by
    cases handle with
    | directory => simp [FileSystem.content?] at h
    | file id =>
      simp only [FileSystem.content?, FileSystem.file?, oneBundle, Table.get?] at h
      split at h
      · simp only [Option.map_some, Option.some.injEq] at h
        rw [← h]
        rfl
      · simp at h
  rw [hlength]
  decide

/-- A second try after a load that found nothing, with a mapper that refuses: the payload is
copied and handed out. -/
theorem load_outcome_oneBundle :
    let tried := (load none (.ofFiles oneBundle, .new .default (.failing "no memory"))).2.2
    tried.stage = .failed ∧ tried.active = none ∧ oneBundle.Affordable ∧
      ∃ id model, (load (some "app") (.ofFiles oneBundle, tried)).1 = .ok id ∧
        (load (some "app") (.ofFiles oneBundle, tried)).2.1.model? id = some model ∧
        model.bytes = Magic.gguf ∧ model.source = .embedded "app" 1 4 ∧ model.valid = true := by
  intro tried
  have hreached : Reached .default (.failing "no memory") tried := .load _ _ .new
  have hidle : tried.active = none := rfl
  have houtcome := load_outcome hreached hidle (.ofFiles oneBundle) (some "app")
    affordable_oneBundle (Mapper.failing_faithfulOn _ _) (by simp [LoadSettings.default])
  have hexpected : expected .default (World.ofFiles oneBundle).files (some "app") =
      .ok (Magic.gguf, .embedded "app" 1 4, true) := rfl
  rw [hexpected] at houtcome
  obtain ⟨id, model, hload, hmodel, hbytes, hsource, hvalid, -, -⟩ := houtcome
  exact ⟨rfl, hidle, affordable_oneBundle, id, model, hload, hmodel, hbytes, hsource, hvalid⟩

end Loader

end ModelBundle
