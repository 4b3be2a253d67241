import ModelBundle.Proofs.Loading.Outcome

/-!
How a load brings the selected range into memory.  Settings and size decide whether the mapper is
asked, which is done at most once; a mapper that refuses only leads to the copy that would have
been made without it.
-/

namespace ModelBundle

open ModelBundle.Action

/-- The settings, as they are given, want a range of this size to be mapped. -/
def LoadSettings.Maps (settings : LoadSettings) (size : UInt64) : Prop :=
  settings.useMapping = true ∧ settings.forceCopy = false ∧ size ≤ settings.ceiling

instance (settings : LoadSettings) (size : UInt64) : Decidable (settings.Maps size) :=
  inferInstanceAs (Decidable (_ ∧ _ ∧ _))

theorem LoadSettings.shouldMap_iff (settings : LoadSettings) (size : UInt64) :
    settings.shouldMap size = true ↔ settings.Maps size := by
  simp only [shouldMap, mappingEnabled, Maps, Bool.and_eq_true, Bool.not_eq_true',
    decide_eq_true_eq, and_assoc]

theorem LoadSettings.shouldMap_eq_false_iff (settings : LoadSettings) (size : UInt64) :
    settings.shouldMap size = false ↔ ¬ settings.Maps size := by
  rw [← shouldMap_iff, Bool.not_eq_true]

namespace Loader

section Acquire

variable (settings : LoadSettings) (mapper : Mapper) (selection : Selection) (asked : World)

def answer : Except LoadError Region :=
  (mapper selection.handle selection.offset selection.size asked).1

/-- What acquiring the range comes to: the region that the mapper gave, or a copy, made from what
the mapper left if it was asked. -/
def attained : Except LoadError Payload :=
  if settings.shouldMap selection.size then
    match mapper selection.handle selection.offset selection.size asked with
    | (.ok region, _) => .ok (.mapped region)
    | (.error _, left) => copied left selection
  else copied asked selection

def route : List Stage :=
  if settings.shouldMap selection.size then
    match answer mapper selection asked with
    | .ok _ => [.mapping]
    | .error _ => [.mapping, .fallbackReading]
  else [.fallbackReading]

def asks : List (UInt64 × UInt64) :=
  if settings.shouldMap selection.size then [(selection.offset, selection.size)] else []

def taking (loader : Loader) : Loader :=
  if settings.shouldMap selection.size then
    match answer mapper selection asked with
    | .ok _ => loader.asking selection
    | .error _ => (loader.asking selection).fallingBack
  else loader.fallingBack

theorem history_taking (loader : Loader) :
    (taking settings mapper selection asked loader).history =
      loader.history ++ route settings mapper selection asked := by
  unfold taking route
  split
  · split
    · rfl
    · exact List.append_assoc _ _ _
  · rfl

theorem requests_taking (loader : Loader) :
    (taking settings mapper selection asked loader).requests =
      loader.requests ++ asks settings selection := by
  unfold taking asks
  split
  · split <;> rfl
  · exact (List.append_nil _).symm

theorem active_taking (loader : Loader) :
    (taking settings mapper selection asked loader).active = loader.active := by
  unfold taking
  split
  · split <;> rfl
  · rfl

variable {settings mapper selection asked}

theorem mapping_mem_route :
    .mapping ∈ route settings mapper selection asked ↔ settings.Maps selection.size := by
  rw [← LoadSettings.shouldMap_iff]
  unfold route
  split
  · rename_i hshould
    refine iff_of_true ?_ hshould
    split <;> simp
  · rename_i hshould
    exact iff_of_false (by simp) hshould

theorem fallbackReading_mem_route :
    .fallbackReading ∈ route settings mapper selection asked ↔
      ¬ (settings.Maps selection.size ∧ ∃ region, answer mapper selection asked = .ok region) := by
  rw [← LoadSettings.shouldMap_iff]
  unfold route
  split
  · rename_i hshould
    split
    · rename_i region hok
      exact iff_of_false (by simp) (not_not_intro ⟨hshould, region, hok⟩)
    · rename_i error herror
      refine iff_of_true (by simp) ?_
      rintro ⟨-, region, hok⟩
      cases herror.symm.trans hok
  · rename_i hshould
    exact iff_of_true (by simp) fun h => hshould h.1

theorem kind_of_copied {left : World} {payload : Payload}
    (h : copied left selection = .ok payload) : payload.kind ≠ .mapped := by
  unfold copied at h
  cases hbuffer : Buffer.ofInput (left.input selection.handle) selection.offset selection.size with
  | error error =>
    rw [hbuffer] at h
    cases h
  | ok buffer =>
    rw [hbuffer] at h
    cases h
    exact PayloadKind.noConfusion

theorem kind_of_attained {payload : Payload}
    (h : attained settings mapper selection asked = .ok payload) :
    payload.kind = .mapped ↔
      settings.Maps selection.size ∧ ∃ region, answer mapper selection asked = .ok region := by
  rw [← LoadSettings.shouldMap_iff]
  unfold attained at h
  split at h
  · rename_i hshould
    split at h
    · rename_i region left hmap
      cases h
      exact iff_of_true rfl ⟨hshould, region, congrArg Prod.fst hmap⟩
    · rename_i error left hmap
      refine iff_of_false (kind_of_copied h) ?_
      rintro ⟨-, region, hok⟩
      cases (congrArg Prod.fst hmap).symm.trans hok
  · rename_i hshould
    exact iff_of_false (kind_of_copied h) fun h => hshould h.1

end Acquire

/-! What is acquired of a regular file. -/

section Acquired

variable {settings : LoadSettings} {mapper : Mapper} {selection : Selection} {asked : World}
  {content : Bytes} {payload : Payload}

theorem bytes_of_copied (hcontent : asked.files.content? selection.handle = some content)
    (h : copied asked selection = .ok payload) :
    payload.bytes = Bytes.slice content selection.offset.toNat selection.size.toNat := by
  rw [copied_of_content hcontent] at h
  cases hcopy : Buffer.ofInput (.file content) selection.offset selection.size with
  | error error =>
    rw [hcopy] at h
    cases h
  | ok buffer =>
    rw [hcopy] at h
    cases h
    exact (Buffer.of_ofInput hcopy).1

theorem bytes_of_attained (hcontent : asked.files.content? selection.handle = some content)
    (faithful : mapper.FaithfulOn asked.files)
    (h : attained settings mapper selection asked = .ok payload) :
    payload.bytes = Bytes.slice content selection.offset.toNat selection.size.toNat := by
  obtain ⟨hfiles, hregion⟩ := faithful selection.handle selection.offset selection.size asked rfl
  unfold attained at h
  split at h
  · split at h
    · rename_i region left hmap
      cases h
      exact hregion region (congrArg Prod.fst hmap) content hcontent
    · rename_i error left hmap
      rw [hmap] at hfiles
      exact bytes_of_copied (hfiles.symm ▸ hcontent) h
  · exact bytes_of_copied hcontent h

theorem attained_of_inside (settings : LoadSettings)
    (regular : asked.files.Regular selection.handle content)
    (faithful : mapper.FaithfulOn asked.files)
    (hrange : selection.offset.toNat + selection.size.toNat ≤ content.length)
    (holds : Memory.Holds selection.size.toNat) :
    ∃ payload, attained settings mapper selection asked = .ok payload := by
  have hfiles := (faithful selection.handle selection.offset selection.size asked rfl).1
  have hcopied : ∀ left : World, left.files = asked.files →
      ∃ payload, copied left selection = .ok payload := by
    intro left hleft
    have hregular := hleft.symm ▸ regular
    rw [copied_of_content hregular.opened, Buffer.ofInput_of_inside hregular hrange holds]
    exact ⟨_, rfl⟩
  unfold attained
  split
  · split
    · exact ⟨_, rfl⟩
    · rename_i error left hmap
      rw [hmap] at hfiles
      exact hcopied left hfiles
  · exact hcopied asked rfl

end Acquired

theorem acquire_eq (settings : LoadSettings) (selection : Selection) (world : World)
    (loader : Loader) :
    ∃ asked left, asked.files = world.files ∧ acquire settings selection (world, loader) =
      (attained settings loader.mapper selection asked,
        (left, taking settings loader.mapper selection asked loader)) := by
  cases hshould : settings.shouldMap selection.size with
  | true =>
    refine ⟨world.note (.stage loader.stage .mapping), ?_⟩
    rcases hmap : loader.mapper selection.handle selection.offset selection.size
      (world.note (.stage loader.stage .mapping)) with ⟨error | region, mapped⟩
    · obtain ⟨left, hcopy, -⟩ :=
        copy_eq selection (mapped.note (.mappingFailed error)) (loader.asking selection)
      rw [acquire_of_refused hshould hmap, hcopy]
      simp only [attained, taking, answer, hshould, if_true, hmap]
      exact ⟨left, rfl, rfl⟩
    · simp only [acquire, enter, request, outside, remark, bind_apply, modify_apply, zoom_apply,
        pure_apply, attained, taking, answer, hshould, if_true, hmap]
      exact ⟨_, rfl, rfl⟩
  | false =>
    refine ⟨world, ?_⟩
    simp only [acquire, attained, taking, hshould, Bool.false_eq_true, if_false]
    split
    · obtain ⟨left, hcopy, -⟩ := copy_eq selection
        (world.note (.aboveCeiling selection.size settings.ceiling)) loader
      exact ⟨left, trivial, hcopy⟩
    · obtain ⟨left, hcopy, -⟩ := copy_eq selection world loader
      exact ⟨left, trivial, hcopy⟩

/-! From the selection to the end of the load. -/

def verdict (policy : MagicPolicy) (source : Source) (payload : Payload) :
    Except LoadError Model :=
  (judged policy payload.bytes).map fun valid => ⟨payload, source, valid⟩

theorem validate_fst (policy : MagicPolicy) (source : Source) (payload : Payload) (world : World) :
    (validate policy source payload world).1 = verdict policy source payload := by
  have hjudged := validate_judged policy source payload world
  unfold verdict
  cases hverdict : judged policy payload.bytes with
  | error error =>
    rw [hverdict] at hjudged
    exact hjudged
  | ok valid =>
    rw [hverdict] at hjudged
    obtain ⟨validated, hvalidate⟩ := hjudged
    rw [hvalidate]
    rfl

/-- The end of a run that brought this into memory, or failed to, with this loader. -/
def ruling (policy : MagicPolicy) (source : Source) (loader : Loader) :
    Except LoadError Payload → Except LoadError Model × Loader
  | .error error => (.error error, loader)
  | .ok payload => (verdict policy source payload, loader.judging)

theorem proceed_selected {found : Option (Path × Trailer)} {looked opened : World}
    {loader : Loader} {selection : Selection}
    (hselect : select loader.settings found looked = (.ok selection, opened)) :
    ∃ asked left, asked.files = opened.files ∧
      let ruled := ruling loader.settings.policy selection.source
        (taking loader.settings loader.mapper selection asked loader)
        (attained loader.settings loader.mapper selection asked)
      proceed found (looked, loader) = (ruled.1, (left, ruled.2)) := by
  obtain ⟨asked, acquired, hasked, hacquire⟩ :=
    acquire_eq loader.settings selection opened loader
  refine ⟨asked, (proceed found (looked, loader)).2.1, hasked, ?_⟩
  cases hattained : attained loader.settings loader.mapper selection asked with
  | error error =>
    rw [hattained] at hacquire
    simp only [proceed, outside, bind_apply, zoom_apply, get_apply, hselect, hacquire, ruling]
  | ok payload =>
    rw [hattained] at hacquire
    rw [proceed_of_acquired loader hselect hacquire]
    exact Prod.ext (validate_fst _ _ _ _) rfl

/-- The end of a load whose run ended so. -/
def concluded (ran : Except LoadError Model × Work) : Except LoadError Nat × Work :=
  match ran with
  | (.ok model, work) => handOut model (enter .ready work).2
  | (.error error, work) => (.error error, (enter .failed work).2)

def Concludes (loaded : Except LoadError Nat × Work) (policy : MagicPolicy) (source : Source)
    (stages : List Stage) : Except LoadError Payload → Prop
  | .error error => GaveUp loaded error (stages ++ [.failed])
  | .ok payload =>
    match judged policy payload.bytes with
    | .error error => GaveUp loaded error (stages ++ [.validating, .failed])
    | .ok valid => HandedOut loaded ⟨payload, source, valid⟩ (stages ++ [.validating, .ready])

theorem concludes_ruling (policy : MagicPolicy) (source : Source) {loader : Loader}
    (idle : loader.active = none) (attained : Except LoadError Payload) (left : World) :
    let ruled := ruling policy source loader attained
    Concludes (concluded (ruled.1, (left, ruled.2))) policy source loader.history attained := by
  intro ruled
  have happend : ∀ stage, loader.judging.history ++ [stage] =
      loader.history ++ [.validating, stage] := fun stage => List.append_assoc _ _ _
  cases attained with
  | error error => exact ⟨rfl, rfl, rfl, idle⟩
  | ok payload =>
    simp only [Concludes, ruled, ruling, verdict]
    cases judged policy payload.bytes with
    | error error => exact ⟨rfl, rfl, happend _, idle⟩
    | ok valid => exact ⟨⟨_, rfl, model?_handOut _ _, rfl⟩, rfl, happend _⟩

theorem requests_concluded (ran : Except LoadError Model × Work) :
    (concluded ran).2.2.requests = ran.2.2.requests := by
  rcases ran with ⟨error | model, work⟩ <;> rfl

theorem requests_ruling (policy : MagicPolicy) (source : Source) (loader : Loader)
    (attained : Except LoadError Payload) :
    (ruling policy source loader attained).2.requests = loader.requests := by
  cases attained <;> rfl

def fresh (loader : Loader) : Loader :=
  { loader with stage := .start, history := [.start] }

theorem select_resolve (settings : LoadSettings) (found : Option (Path × Trailer)) :
    select settings.resolve found = select settings found := by
  unfold select
  rw [LoadSettings.modelPath_resolve]

section Load

variable {settings : LoadSettings} {mapper : Mapper} {loader : Loader}
  {found : Option (Path × Trailer)} {looked opened : World} {selection : Selection}

theorem concluded_proceed (reached : Reached settings mapper loader) (idle : loader.active = none)
    (hselect : select settings found looked = (.ok selection, opened)) :
    ∃ asked, asked.files = opened.files ∧
      let loaded := concluded (proceed found (looked, loader.fresh.looking))
      loaded.2.2.requests = loader.requests ++ asks settings selection ∧
      Concludes loaded settings.policy selection.source
        ([.start, .lookingForTrailer] ++ route settings mapper selection asked)
        (attained settings mapper selection asked) := by
  have hsettings : loader.fresh.looking.settings = settings.resolve := reached.settings_eq
  have hmapper : loader.fresh.looking.mapper = mapper := reached.mapper_eq
  have hselect' : select loader.fresh.looking.settings found looked = (.ok selection, opened) := by
    rw [hsettings, select_resolve, hselect]
  obtain ⟨asked, left, hasked, hproceed⟩ := proceed_selected hselect'
  -- From here on only the settings as they were given matter.
  have htaking : taking settings.resolve mapper selection asked loader.fresh.looking =
      taking settings mapper selection asked loader.fresh.looking := by
    simp only [taking, LoadSettings.shouldMap_resolve]
  have hattained : attained settings.resolve mapper selection asked =
      attained settings mapper selection asked := by
    simp only [attained, LoadSettings.shouldMap_resolve]
  rw [hsettings, hmapper, LoadSettings.policy_resolve, htaking, hattained] at hproceed
  have hidle : (taking settings mapper selection asked loader.fresh.looking).active = none :=
    (active_taking ..).trans idle
  refine ⟨asked, hasked, ?_, ?_⟩
  · rw [requests_concluded, hproceed, requests_ruling, requests_taking]
    rfl
  · have hconcludes := concludes_ruling settings.policy selection.source hidle
      (attained settings mapper selection asked) left
    rw [history_taking] at hconcludes
    rw [hproceed]
    exact hconcludes

theorem concluded_unselected (reached : Reached settings mapper loader)
    (idle : loader.active = none) {error : LoadError}
    (hselect : (select settings found looked).1 = .error error) :
    let loaded := concluded (proceed found (looked, loader.fresh.looking))
    loaded.2.2.requests = loader.requests ∧
      GaveUp loaded error [.start, .lookingForTrailer, .failed] := by
  have hsettings : loader.fresh.looking.settings = settings.resolve := reached.settings_eq
  have hproceed : proceed found (looked, loader.fresh.looking) =
      (.error error, ((select settings found looked).2, loader.fresh.looking)) := by
    simp only [proceed, outside, bind_apply, zoom_apply, get_apply, hsettings, select_resolve,
      hselect]
  intro loaded
  simp only [loaded, hproceed]
  exact ⟨rfl, rfl, rfl, rfl, idle⟩

variable {world : World} {exe : Option Path}

theorem load_eq_concluded (idle : loader.active = none) (world : World) (exe : Option Path) :
    ∃ looked, looked.files = world.files ∧ load exe (world, loader) =
      concluded (proceed (embedded? world.files exe) (looked, loader.fresh.looking)) := by
  obtain ⟨looked, hlooked, hrun⟩ := run_eq_proceed loader.fresh exe world
  refine ⟨looked, hlooked, ?_⟩
  rw [← hrun]
  exact load_of_idle idle world exe

theorem load_selected (reached : Reached settings mapper loader) (idle : loader.active = none)
    (hselected : selected settings world.files exe = .ok selection) :
    ∃ asked, asked.files = world.files ∧
      let loaded := load exe (world, loader)
      loaded.2.2.requests = loader.requests ++ asks settings selection ∧
      Concludes loaded settings.policy selection.source
        ([.start, .lookingForTrailer] ++ route settings mapper selection asked)
        (attained settings mapper selection asked) := by
  obtain ⟨looked, hlooked, hload⟩ := load_eq_concluded idle world exe
  obtain ⟨opened, hselect, hopened⟩ := select_of_selected hselected hlooked
  obtain ⟨asked, hasked, hconcluded⟩ := concluded_proceed reached idle hselect
  rw [hload]
  exact ⟨asked, hasked.trans hopened, hconcluded⟩

end Load

theorem Concludes.handedOut {loaded : Except LoadError Nat × Work} {policy : MagicPolicy}
    {source : Source} {stages : List Stage} {payload : Payload} {valid : Bool}
    (concludes : Concludes loaded policy source stages (.ok payload))
    (hjudged : judged policy payload.bytes = .ok valid) :
    HandedOut loaded ⟨payload, source, valid⟩ (stages ++ [.validating, .ready]) := by
  simpa only [Concludes, hjudged] using concludes

/-! How a load can end. -/

def Failed (loaded : Except LoadError Nat × Work) : Prop :=
  ∃ error, loaded.1 = .error error ∧ loaded.2.2.stage = .failed

def Handed (loaded : Except LoadError Nat × Work) (model : Model) : Prop :=
  ∃ id, loaded.1 = .ok id ∧ loaded.2.1.model? id = some model

theorem GaveUp.failed {loaded : Except LoadError Nat × Work} {error : LoadError}
    {stages : List Stage} (gaveUp : GaveUp loaded error stages) : Failed loaded :=
  ⟨error, gaveUp.result, gaveUp.stage⟩

theorem Failed.not_handed {loaded : Except LoadError Nat × Work} (failed : Failed loaded)
    (model : Model) : ¬ Handed loaded model := by
  rintro ⟨id, hid, -⟩
  obtain ⟨error, herror, -⟩ := failed
  cases hid.symm.trans herror

theorem Concludes.ends {loaded : Except LoadError Nat × Work} {policy : MagicPolicy}
    {source : Source} {stages : List Stage} {attained : Except LoadError Payload}
    (concludes : Concludes loaded policy source stages attained) :
    (Failed loaded ∧ ∀ payload, attained = .ok payload →
      ∃ error, judged policy payload.bytes = .error error) ∨
    ∃ payload valid, attained = .ok payload ∧ judged policy payload.bytes = .ok valid ∧
      ∀ model, Handed loaded model ↔ model = ⟨payload, source, valid⟩ := by
  cases attained with
  | error error => exact .inl ⟨concludes.failed, fun payload h => by cases h⟩
  | ok payload =>
    simp only [Concludes] at concludes
    cases hjudged : judged policy payload.bytes with
    | error error =>
      rw [hjudged] at concludes
      refine .inl ⟨concludes.failed, fun other h => ?_⟩
      cases h
      exact ⟨error, hjudged⟩
    | ok valid =>
      rw [hjudged] at concludes
      refine .inr ⟨payload, valid, rfl, hjudged, fun model => ⟨?_, ?_⟩⟩
      · rintro ⟨id, hid, hmodel⟩
        exact concludes.model_eq hid hmodel
      · rintro rfl
        obtain ⟨id, hid, hmodel, -⟩ := concludes.result
        exact ⟨id, hid, hmodel⟩

theorem Concludes.attained_eq {loaded : Except LoadError Nat × Work} {policy : MagicPolicy}
    {source : Source} {stages : List Stage} {attained : Except LoadError Payload}
    (concludes : Concludes loaded policy source stages attained) {model : Model}
    (handed : Handed loaded model) : attained = .ok model.payload := by
  rcases concludes.ends with ⟨failed, -⟩ | ⟨payload, valid, hattained, -, hmodel⟩
  · exact absurd handed (failed.not_handed model)
  · rw [hattained, (hmodel model).mp handed]

/-- A load acquired the selected range as settings, size and mapper tell.  Before it, the loader had
made some requests; the mapper, if it was asked, was asked in the world `asked`. -/
structure Strategy (settings : LoadSettings) (mapper : Mapper) (selection : Selection)
    (asked : World) (requests : List (UInt64 × UInt64)) (loaded : Except LoadError Nat × Work) :
    Prop where
  asks : settings.Maps selection.size →
    loaded.2.2.requests = requests ++ [(selection.offset, selection.size)]
  asks_not : ¬ settings.Maps selection.size → loaded.2.2.requests = requests
  mapping : .mapping ∈ loaded.2.2.history ↔ settings.Maps selection.size
  fallbackReading : .fallbackReading ∈ loaded.2.2.history ↔
    ¬ (settings.Maps selection.size ∧ ∃ region, answer mapper selection asked = .ok region)
  kind : ∀ id model, loaded.1 = .ok id → loaded.2.1.model? id = some model →
    (model.payload.kind = .mapped ↔
      settings.Maps selection.size ∧ ∃ region, answer mapper selection asked = .ok region)
  given : settings.Maps selection.size → ∀ region, answer mapper selection asked = .ok region →
    Concludes loaded settings.policy selection.source [.start, .lookingForTrailer, .mapping]
      (.ok (.mapped region))
  /-- The error of the mapper is gone; only what it left in the file counts. -/
  refused : settings.Maps selection.size → ∀ error left,
    mapper selection.handle selection.offset selection.size asked = (.error error, left) →
    Concludes loaded settings.policy selection.source
      [.start, .lookingForTrailer, .mapping, .fallbackReading] (copied left selection)
  unmapped : ¬ settings.Maps selection.size →
    Concludes loaded settings.policy selection.source
      [.start, .lookingForTrailer, .fallbackReading] (copied asked selection)

theorem Concludes.mem_history {loaded : Except LoadError Nat × Work} {policy : MagicPolicy}
    {source : Source} {stages : List Stage} {attained : Except LoadError Payload}
    (concludes : Concludes loaded policy source stages attained) {stage : Stage}
    (hstage : stage ≠ .validating ∧ stage ≠ .ready ∧ stage ≠ .failed) :
    stage ∈ loaded.2.2.history ↔ stage ∈ stages := by
  obtain ⟨hvalidating, hready, hfailed⟩ := hstage
  unfold Concludes at concludes
  split at concludes
  · simp [concludes.history, hfailed]
  · split at concludes
    · simp [concludes.history, hvalidating, hfailed]
    · simp [concludes.history, hvalidating, hready]

theorem Concludes.mem_validating {loaded : Except LoadError Nat × Work} {policy : MagicPolicy}
    {source : Source} {stages : List Stage} {attained : Except LoadError Payload}
    (concludes : Concludes loaded policy source stages attained) (hstages : .validating ∉ stages) :
    .validating ∈ loaded.2.2.history ↔ ∃ payload, attained = .ok payload := by
  unfold Concludes at concludes
  split at concludes
  · simp [concludes.history, hstages]
  · split at concludes <;> simp [concludes.history]

theorem strategy_of_concludes {settings : LoadSettings} {mapper : Mapper} {selection : Selection}
    {asked : World} {requests : List (UInt64 × UInt64)} {loaded : Except LoadError Nat × Work}
    (hrequests : loaded.2.2.requests = requests ++ Loader.asks settings selection)
    (concludes : Concludes loaded settings.policy selection.source
      ([.start, .lookingForTrailer] ++ route settings mapper selection asked)
      (attained settings mapper selection asked)) :
    Strategy settings mapper selection asked requests loaded where
  asks maps := by
    rw [hrequests, Loader.asks, if_pos ((settings.shouldMap_iff _).mpr maps)]
  asks_not copies := by
    rw [hrequests, Loader.asks, if_neg (mt (settings.shouldMap_iff _).mp copies), List.append_nil]
  mapping := by
    have hroute : .mapping ∈ route settings mapper selection asked ↔ _ := mapping_mem_route
    rw [concludes.mem_history (by decide), ← hroute]
    simp
  fallbackReading := by
    rw [concludes.mem_history (by decide), ← fallbackReading_mem_route]
    simp
  kind _ _ hid hmodel := kind_of_attained (concludes.attained_eq ⟨_, hid, hmodel⟩)
  given maps region hok := by
    rcases hmap : mapper selection.handle selection.offset selection.size asked with ⟨result, left⟩
    have hresult : result = .ok region := by
      rw [← hok, answer, hmap]
    subst hresult
    simpa only [route, attained, (settings.shouldMap_iff _).mpr maps, if_true, hok, hmap,
      List.cons_append, List.nil_append] using concludes
  refused maps error left hmap := by
    have hanswer : answer mapper selection asked = .error error := congrArg Prod.fst hmap
    simpa only [route, attained, (settings.shouldMap_iff _).mpr maps, if_true, hanswer, hmap,
      List.cons_append, List.nil_append] using concludes
  unmapped copies := by
    simpa only [route, attained, (settings.shouldMap_eq_false_iff _).mpr copies,
      Bool.false_eq_true, if_false, List.cons_append, List.nil_append] using concludes

/-- For every loader, whatever it did before, and every load.  While a model is active the load is
refused and changes nothing, so what the loader tells is still about the load that model is from.
Otherwise the files say what is selected.  If nothing is, the mapper is not asked and no stage of
acquiring is entered.  If a range is, the mapper is asked for it once if the settings as they were
given map ranges of that size, and not at all if they do not; a mapper that refuses costs nothing
but the copy that is made from what it left. -/
theorem load_strategy {settings : LoadSettings} {mapper : Mapper} {loader : Loader}
    (reached : Reached settings mapper loader) (world : World) (exe : Option Path) :
    let loaded := load exe (world, loader)
    (∀ id, loader.active = some id → loaded = (.error .alreadyLoaded, (world, loader)) ∧
      ∃ before world' exe', Reached settings mapper before ∧ before.active = none ∧
        loader = (load exe' (world', before)).2.2) ∧
    (loader.active = none →
      match selected settings world.files exe with
      | .error error => loaded.2.2.requests = loader.requests ∧
          GaveUp loaded error [.start, .lookingForTrailer, .failed]
      | .ok selection => ∃ asked, asked.files = world.files ∧
          Strategy settings mapper selection asked loader.requests loaded) := by
  intro loaded
  refine ⟨fun id hactive => ⟨load_of_active hactive world exe, reached.left_by_load hactive⟩, ?_⟩
  intro idle
  cases hselected : selected settings world.files exe with
  | error error =>
    obtain ⟨looked, hlooked, hload⟩ := load_eq_concluded idle world exe
    simp only [loaded, hload]
    exact concluded_unselected reached idle ((select_fst settings exe hlooked).trans hselected)
  | ok selection =>
    obtain ⟨asked, hasked, hrequests, concludes⟩ := load_selected reached idle hselected
    exact ⟨asked, hasked, strategy_of_concludes hrequests concludes⟩

/-- A mapper that refuses is asked once, and the payload is copied; the model is then active, and
the mapper is not asked again. -/
theorem load_strategy_oneBundle :
    let loader := Loader.new .default (.failing "no memory")
    let selection : Selection := ⟨.file 0, .embedded "app" 1 4, 1, 4⟩
    let loaded := load (some "app") (.ofFiles oneBundle, loader)
    selected .default oneBundle (some "app") = .ok selection ∧
      LoadSettings.default.Maps selection.size ∧ loaded.2.2.requests = [(1, 4)] ∧
      HandedOut loaded ⟨.buffered ⟨Magic.gguf⟩, .embedded "app" 1 4, true⟩
        [.start, .lookingForTrailer, .mapping, .fallbackReading, .validating, .ready] ∧
      load none (.ofFiles oneBundle, loaded.2.2) =
        (.error .alreadyLoaded, (.ofFiles oneBundle, loaded.2.2)) := by
  intro loader selection loaded
  have reached : Reached .default (.failing "no memory") loader := .new
  have hselected : selected .default (World.ofFiles oneBundle).files (some "app") =
      .ok selection := rfl
  have maps : LoadSettings.default.Maps selection.size := by decide
  have hload := (load_strategy reached (.ofFiles oneBundle) (some "app")).2 rfl
  rw [hselected] at hload
  obtain ⟨asked, hasked, strategy⟩ := hload
  have hcontent : asked.files.content? selection.handle =
      some ([0x7f] ++ Magic.gguf ++ Trailer.encode ⟨1, 4⟩) := by
    rw [hasked]
    rfl
  have hcopied : copied asked selection = .ok (.buffered ⟨Magic.gguf⟩) := by
    rw [copied_of_content hcontent]
    rfl
  have hconcludes := strategy.refused maps _ asked rfl
  rw [hcopied] at hconcludes
  have hjudged : judged LoadSettings.default.policy Magic.gguf = .ok true := rfl
  have handed := hconcludes.handedOut hjudged
  have hagain := reached.load (.ofFiles oneBundle) (some "app")
  obtain ⟨id, -, -, hactive⟩ := handed.result
  refine ⟨hselected, maps, ?_, handed, ?_⟩
  · rw [strategy.asks maps]
    rfl
  · rw [((load_strategy hagain (.ofFiles oneBundle) none).1 id hactive).1]

end Loader

end ModelBundle
