import ModelBundle.Proofs.FileSystem.Changes
import ModelBundle.Proofs.Loading.Strategy

/-!
How many bytes a load hands out: exactly as many as were selected, and at least one, even if the
file changes its length on the way.  Neither a view of a mapping nor a copy is shorter than what
was asked for.
-/

namespace ModelBundle

open ModelBundle.Action

def FileSystem.Limited (files : FileSystem) : Prop :=
  ∀ handle content, files.content? handle = some content → content.length < lengthLimit

theorem FileSystem.Limited.size_lt {files : FileSystem} (limited : files.Limited)
    (handle : Handle) : files.size handle < UInt64.size := by
  have hlimit : lengthLimit < UInt64.size := by decide
  have hdirectory : directorySize < UInt64.size := by decide
  unfold size
  cases hcontent : files.content? handle with
  | none => exact hdirectory
  | some content => exact Nat.lt_trans (limited handle content hcontent) hlimit

theorem Buffer.length_of_ofInput {input : Input} {offset size : UInt64} {buffer : Buffer}
    (h : ofInput input offset size = .ok buffer) : buffer.content.length = size.toNat := by
  unfold ofInput at h
  split at h
  · cases h
  · split at h
    · cases h
    · split at h
      · rename_i hlength
        cases h
        exact hlength
      · cases h

theorem Mapper.length_of_system {page : Page} {handle : Handle} {offset size : UInt64}
    {world : World} {region : Region} (h : (system page handle offset size world).1 = .ok region) :
    region.bytes.length = size.toNat := by
  obtain ⟨content, -, -, hbytes, -, hrange, -⟩ := system_eq_ok (Prod.ext h rfl)
  rw [hbytes, Bytes.length_slice]
  omega

namespace Loader

variable {settings : LoadSettings}

theorem length_of_copied {left : World} {selection : Selection} {payload : Payload}
    (h : copied left selection = .ok payload) :
    payload.bytes.length = selection.size.toNat := by
  unfold copied at h
  cases hbuffer : Buffer.ofInput (left.input selection.handle) selection.offset selection.size with
  | error error => simp [hbuffer, Except.map] at h
  | ok buffer =>
    rw [hbuffer] at h
    cases h
    exact Buffer.length_of_ofInput hbuffer

theorem length_of_attained {page : Page} {selection : Selection} {asked : World}
    {payload : Payload} (h : attained settings (.system page) selection asked = .ok payload) :
    payload.bytes.length = selection.size.toNat := by
  unfold attained at h
  split at h
  · split at h
    · rename_i region left hmap
      cases h
      exact Mapper.length_of_system (congrArg Prod.fst hmap)
    · exact length_of_copied h
  · exact length_of_copied h

theorem size_pos_of_selected {files : FileSystem} {exe : Option Path} {selection : Selection}
    (limited : files.Limited) (h : selected settings files exe = .ok selection) :
    0 < selection.size.toNat := by
  cases hfound : embedded? files exe with
  | some found =>
    rw [selected_of_embedded hfound] at h
    split at h
    · cases h
    · split at h
      · cases h
      · rename_i hcheck
        cases h
        exact (Trailer.check_eq_ok_iff.mp hcheck).2.1
  | none =>
    cases hpath : settings.modelPath with
    | none =>
      rw [selected_nothing hfound hpath] at h
      cases h
    | some path =>
      rw [selected_of_configured hfound hpath] at h
      split at h
      · cases h
      · split at h
        · cases h
        · rename_i handle _ hlong
          cases h
          rw [UInt64.toNat_ofNat_of_lt' (limited.size_lt handle)]
          omega

/-- A model as the load that hands it out leaves it. -/
structure Filled (selection : Selection) (policy : MagicPolicy) (history : List Stage)
    (model : Model) : Prop where
  source : model.source = selection.source
  length : model.bytes.length = selection.size.toNat
  pos : 0 < model.bytes.length
  judged : judged policy model.bytes = .ok model.valid
  ready : history.getLast? = some .ready

theorem load_filled {page : Page} {loader : Loader}
    (reached : Reached settings (.system page) loader)
    (idle : loader.active = none) {world : World} (limited : world.files.Limited)
    {exe : Option Path} {id : Nat} (hid : (load exe (world, loader)).1 = .ok id) :
    ∃ selection model, selected settings world.files exe = .ok selection ∧
      (load exe (world, loader)).2.1.model? id = some model ∧
      Filled selection settings.policy (load exe (world, loader)).2.2.history model := by
  cases hselected : selected settings world.files exe with
  | error error =>
    have hload := (load_strategy reached world exe).2 idle
    rw [hselected] at hload
    cases hid.symm.trans hload.2.result
  | ok selection =>
    obtain ⟨asked, -, -, concludes⟩ := load_selected reached idle hselected
    have hpos := size_pos_of_selected limited hselected
    rcases concludes.ends with ⟨⟨error, herror, -⟩, -⟩ | ⟨payload, valid, hattained, hjudged, -⟩
    · cases hid.symm.trans herror
    · rw [hattained] at concludes
      have handed := concludes.handedOut hjudged
      obtain ⟨found, hfound, hmodel, -⟩ := handed.result
      cases hid.symm.trans hfound
      have hlength : payload.bytes.length = selection.size.toNat := length_of_attained hattained
      refine ⟨selection, _, rfl, hmodel, rfl, hlength, ?_, hjudged, ?_⟩
      · exact hlength.symm ▸ hpos
      · rw [handed.history, List.getLast?_append]
        rfl

end Loader

end ModelBundle

/-!
Loading from a file whose length changes after a range of it was selected.  The size of the range
is told by the file as it was, and the bytes come from the file as it is when they are copied.
Either all bytes of the range are there, or the load fails; it never hands out fewer.
-/

namespace ModelBundle

open ModelBundle.Action

def Bytes.resized (content : Bytes) (length : Nat) : Bytes :=
  content.take length ++ List.replicate (length - content.length) 0

@[simp] theorem Bytes.length_resized (content : Bytes) (length : Nat) :
    (resized content length).length = length := by
  simp only [resized, List.length_append, List.length_take, List.length_replicate]
  omega

/-- Asked for this range, the mapper first gives the file behind it another length, and then
refuses for some reason. -/
def Mapper.ResizesOn (mapper : Mapper) (files : FileSystem) (selection : Selection)
    (length : Nat) : Prop :=
  ∀ asked : World, asked.files = files →
    (∃ error, (mapper selection.handle selection.offset selection.size asked).1 = .error error) ∧
    ∀ content, files.content? selection.handle = some content →
      (mapper selection.handle selection.offset selection.size asked).2.files.content?
        selection.handle = some (content.resized length)

theorem Mapper.truncating_resizesOn {files : FileSystem} {path : Path} {location : Location}
    {id : Nat} {data : FileData} {selection : Selection} {length : Nat}
    (hresolve : files.resolve true path = .ok (.found location (.file id)))
    (hdata : files.file? id = some data)
    (hpermits : FileSystem.permits data FileSystem.ownerWrite = true)
    (hlength : length < FileSystem.lengthLimit) (hhandle : selection.handle = .file id) :
    (truncating path length).ResizesOn files selection length := by
  rintro asked rfl
  have htruncate : asked.files.truncate path length =
      .ok (asked.files.setContent id (data.content.resized length)) := by
    simp only [FileSystem.truncate, hresolve, hdata, hpermits, Bool.not_true, Bool.false_eq_true,
      if_false, Nat.not_le.mpr hlength, Bytes.resized]
  simp only [truncating, htruncate, hhandle, FileSystem.content?, FileSystem.file?_setContent,
    if_true, hdata, Option.map_some]
  refine ⟨⟨_, rfl⟩, ?_⟩
  rintro content h
  cases h
  rfl

theorem Buffer.ofInput_of_position (content : Bytes) {offset size : UInt64}
    (hpos : 0 < size.toNat) (hposition : offset.toNat + size.toNat < Input.seekLimit) :
    ofInput (.file content) offset size =
      match refusal? size with
      | some fault => .error (.io fault)
      | none =>
        if offset.toNat + size.toNat ≤ content.length then
          .ok ⟨Bytes.slice content offset.toNat size.toNat⟩
        else .error (.shortRead offset size (content.length - offset.toNat)) := by
  rw [ofInput_file_eq]
  cases refusal? size with
  | some fault => rfl
  | none =>
    dsimp only
    rw [if_pos (Input.askable_of_lt hposition)]
    simp only [hpos, true_imp_iff]

namespace Loader

theorem attained_resized {settings : LoadSettings} {mapper : Mapper} {selection : Selection}
    {content : Bytes} {asked : World} {length : Nat}
    (hcontent : asked.files.content? selection.handle = some content)
    (hshould : settings.shouldMap selection.size = true)
    (resizes : mapper.ResizesOn asked.files selection length) :
    route settings mapper selection asked = [.mapping, .fallbackReading] ∧
      attained settings mapper selection asked =
        (Buffer.ofInput (.file (content.resized length)) selection.offset selection.size).map
          .buffered := by
  obtain ⟨⟨error, herror⟩, hresized⟩ := resizes asked rfl
  rcases hmap : mapper selection.handle selection.offset selection.size asked with ⟨result, left⟩
  rw [hmap] at herror hresized
  dsimp only at herror
  subst herror
  simp only [route, answer, attained, hshould, if_true, hmap, true_and]
  exact copied_of_content (hresized content hcontent)

section Load

variable {settings : LoadSettings} {mapper : Mapper} {loader : Loader} {world : World}
  {exe : Option Path} {selection : Selection} {content : Bytes} {length : Nat}

theorem load_copied (reached : Reached settings mapper loader) (idle : loader.active = none)
    (hselected : selected settings world.files exe = .ok selection)
    (hcontent : world.files.content? selection.handle = some content)
    (hshould : settings.shouldMap selection.size = true)
    (resizes : mapper.ResizesOn world.files selection length) :
    Concludes (load exe (world, loader)) settings.policy selection.source
      [.start, .lookingForTrailer, .mapping, .fallbackReading]
      ((Buffer.ofInput (.file (content.resized length)) selection.offset selection.size).map
        .buffered) := by
  -- Nothing that happens before the mapper is asked touches the files.
  obtain ⟨asked, hasked, -, concludes⟩ := load_selected reached idle hselected
  rw [← hasked] at hcontent resizes
  obtain ⟨hroute, hattained⟩ := attained_resized hcontent hshould resizes
  rw [hroute, hattained] at concludes
  exact concludes

theorem length_of_load_copied (reached : Reached settings mapper loader)
    (idle : loader.active = none) (hselected : selected settings world.files exe = .ok selection)
    (hcontent : world.files.content? selection.handle = some content)
    (hshould : settings.shouldMap selection.size = true)
    (resizes : mapper.ResizesOn world.files selection length) {model : Model}
    (handed : Handed (load exe (world, loader)) model) :
    model.bytes.length = selection.size.toNat := by
  have hattained :=
    (load_copied reached idle hselected hcontent hshould resizes).attained_eq handed
  cases hcopy : Buffer.ofInput (.file (content.resized length)) selection.offset selection.size with
  | error error =>
    rw [hcopy] at hattained
    cases hattained
  | ok buffer =>
    rw [hcopy] at hattained
    have hpayload : .buffered buffer = model.payload := Except.ok.inj hattained
    rw [Model.bytes, ← hpayload]
    exact (Buffer.of_ofInput hcopy).2

/-- What a load comes to if the file had this content when a range of it was selected, and has
another length when the range is copied. -/
structure Resized (settings : LoadSettings) (selection : Selection) (content : Bytes)
    (length : Nat) (loaded : Except LoadError Nat × Work) : Prop where
  acquired_iff : Memory.Holds selection.size.toNat →
    (.validating ∈ loaded.2.2.history ↔
      selection.offset.toNat + selection.size.toNat ≤ length)
  judged : Memory.Holds selection.size.toNat →
    selection.offset.toNat + selection.size.toNat ≤ length →
    let bytes := Bytes.slice (content.resized length) selection.offset.toNat selection.size.toNat
    match Loader.judged settings.policy bytes with
    | .error error => GaveUp loaded error
        [.start, .lookingForTrailer, .mapping, .fallbackReading, .validating, .failed]
    | .ok valid => HandedOut loaded ⟨.buffered ⟨bytes⟩, selection.source, valid⟩
        [.start, .lookingForTrailer, .mapping, .fallbackReading, .validating, .ready]
  short : Memory.Holds selection.size.toNat →
    length < selection.offset.toNat + selection.size.toNat →
    GaveUp loaded
      (.shortRead selection.offset selection.size (length - selection.offset.toNat))
      [.start, .lookingForTrailer, .mapping, .fallbackReading, .failed]
  unheld : ¬ Memory.Holds selection.size.toNat → ∃ refusal,
    GaveUp loaded (.io (.outOfMemory selection.size.toNat refusal))
      [.start, .lookingForTrailer, .mapping, .fallbackReading, .failed]
  sized : ∀ id model, loaded.1 = .ok id → loaded.2.1.model? id = some model →
    model.bytes.length = selection.size.toNat

/-- For every loader without an active model, every range that is selected and to be mapped, and
every mapper that gives the file another length and then refuses.  If there is memory for the
range, its bytes are acquired exactly if the range lies in the resized file; they are then all of
the range as the resized file has it, and they are judged as ever.  Otherwise the load fails and
tells how many bytes of the range there were.  No model has another size than the range. -/
theorem load_resized (reached : Reached settings mapper loader) (idle : loader.active = none)
    (hselected : selected settings world.files exe = .ok selection)
    (regular : world.files.Regular selection.handle content)
    (hshould : settings.shouldMap selection.size = true)
    (resizes : mapper.ResizesOn world.files selection length) :
    Resized settings selection content length (load exe (world, loader)) := by
  obtain ⟨hpos, hrange⟩ := inside_of_selected hselected regular
  have hposition : selection.offset.toNat + selection.size.toNat < Input.seekLimit :=
    Nat.lt_of_le_of_lt hrange regular.bounded
  have hcopy := Buffer.ofInput_of_position (content.resized length) hpos hposition
  rw [Bytes.length_resized] at hcopy
  have concludes := load_copied reached idle hselected regular.opened hshould resizes
  rw [hcopy] at concludes
  have hsized : ∀ id model, (load exe (world, loader)).1 = .ok id →
      (load exe (world, loader)).2.1.model? id = some model →
      model.bytes.length = selection.size.toNat := fun id _ hid hmodel =>
    length_of_load_copied reached idle hselected regular.opened hshould resizes
      ⟨id, hid, hmodel⟩
  refine ⟨fun holds => ?_, fun holds hinside => ?_, fun holds hshort => ?_, fun hnone => ?_, hsized⟩
  · rw [concludes.mem_validating (by decide), Buffer.refusal?_eq_none_iff.mpr holds]
    dsimp only
    split <;> simp [Except.map, *]
  · rw [Buffer.refusal?_eq_none_iff.mpr holds] at concludes
    simp only [if_pos hinside] at concludes
    exact concludes
  · rw [Buffer.refusal?_eq_none_iff.mpr holds] at concludes
    simp only [if_neg (Nat.not_le.mpr hshort)] at concludes
    exact concludes
  · obtain ⟨refusal, hrefusal⟩ := Buffer.refusal?_of_not_holds hnone
    rw [hrefusal] at concludes
    exact ⟨refusal, concludes⟩

end Load

/-- The bundle is cut inside its payload, or right behind it: then the trailer is lost, and the
payload is loaded all the same. -/
theorem load_resized_oneBundle :
    let content : Bytes := [0x7f] ++ Magic.gguf ++ Trailer.encode ⟨1, 4⟩
    let selection : Selection := ⟨.file 0, .embedded "app" 1 4, 1, 4⟩
    selected .default oneBundle (some "app") = .ok selection ∧
      oneBundle.Regular (.file 0) content ∧ LoadSettings.default.shouldMap 4 = true ∧
      Memory.Holds 4 ∧
      (Mapper.truncating "app" 3).ResizesOn oneBundle selection 3 ∧
      (Mapper.truncating "app" 5).ResizesOn oneBundle selection 5 ∧
      GaveUp (load (some "app") (.ofFiles oneBundle, .new .default (.truncating "app" 3)))
        (.shortRead 1 4 2) [.start, .lookingForTrailer, .mapping, .fallbackReading, .failed] ∧
      HandedOut (load (some "app") (.ofFiles oneBundle, .new .default (.truncating "app" 5)))
        ⟨.buffered ⟨Magic.gguf⟩, .embedded "app" 1 4, true⟩
        [.start, .lookingForTrailer, .mapping, .fallbackReading, .validating, .ready] := by
  intro content selection
  have hselected : selected .default (World.ofFiles oneBundle).files (some "app") =
      .ok selection := rfl
  have hregular : (World.ofFiles oneBundle).files.Regular selection.handle content :=
    ⟨rfl, by decide⟩
  have hshould : LoadSettings.default.shouldMap selection.size = true := by decide
  have holds : Memory.Holds selection.size.toNat := by decide
  have hresolve : oneBundle.resolve true "app" = .ok (.found ["work", "app"] (.file 0)) := rfl
  have hresizes : ∀ length < FileSystem.lengthLimit,
      (Mapper.truncating "app" length).ResizesOn oneBundle selection length := fun length h =>
    Mapper.truncating_resizesOn hresolve rfl rfl h rfl
  have hcut := load_resized .new rfl hselected hregular hshould (hresizes 3 (by decide))
  have hwhole := load_resized .new rfl hselected hregular hshould (hresizes 5 (by decide))
  exact ⟨hselected, hregular, hshould, holds, hresizes 3 (by decide), hresizes 5 (by decide),
    hcut.short holds (by decide), hwhole.judged holds (by decide)⟩

def vastModel : FileSystem where
  entries := [(["work"], .directory), (["work", "m"], .file 0)]
  files := [(0, ⟨List.replicate Memory.limit 0, 0o644⟩)]
  working := ["work"]

/-- The whole file is still there after the mapper has set its length, and it is not loaded: there
is no memory for it. -/
theorem load_resized_vastModel :
    let settings := { LoadSettings.default with
      modelPath := some "m", ceiling := .ofNat Memory.limit }
    let selection : Selection := ⟨.file 0, .file "m", 0, .ofNat Memory.limit⟩
    let mapper := Mapper.truncating "m" Memory.limit
    selected settings vastModel none = .ok selection ∧
      settings.shouldMap selection.size = true ∧
      mapper.ResizesOn vastModel selection Memory.limit ∧
      selection.offset.toNat + selection.size.toNat ≤ Memory.limit ∧
      ∃ refusal, GaveUp (load none (.ofFiles vastModel, .new settings mapper))
        (.io (.outOfMemory Memory.limit refusal))
        [.start, .lookingForTrailer, .mapping, .fallbackReading, .failed] := by
  intro settings selection mapper
  have hresolve : vastModel.resolve true "m" = .ok (.found ["work", "m"] (.file 0)) := rfl
  have hopen : vastModel.openRead "m" = .ok (.file 0) :=
    FileSystem.openRead_eq_file_iff.mpr
      ⟨_, _, hresolve, rfl, by simp [FileSystem.permits, FileSystem.ownerRead]⟩
  have hlength : (List.replicate Memory.limit 0 : Bytes).length = Memory.limit :=
    List.length_replicate
  have regular : (World.ofFiles vastModel).files.Regular selection.handle
      (List.replicate Memory.limit 0) := ⟨rfl, by rw [hlength]; decide⟩
  have hselected : selected settings (World.ofFiles vastModel).files none = .ok selection := by
    rw [selected_of_configured rfl rfl, show (World.ofFiles vastModel).files = vastModel from rfl,
      hopen]
    dsimp only
    rw [FileSystem.size_eq (show vastModel.content? (.file 0) = _ from regular.opened), hlength,
      if_neg (by decide)]
  have hshould : settings.shouldMap selection.size = true := by decide
  have hresizes : mapper.ResizesOn vastModel selection Memory.limit :=
    Mapper.truncating_resizesOn hresolve rfl
      (by simp [FileSystem.permits, FileSystem.ownerWrite]) (by decide) rfl
  have hsize : selection.size.toNat = Memory.limit := by decide
  have hresized := load_resized .new rfl hselected regular hshould hresizes
  obtain ⟨refusal, gaveUp⟩ := hresized.unheld (by rw [hsize]; exact Nat.lt_irrefl _)
  rw [hsize] at gaveUp
  exact ⟨hselected, hshould, hresizes, by decide, refusal, gaveUp⟩

end Loader

end ModelBundle
