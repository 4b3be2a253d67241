import ModelBundle.Proofs.Commands.Order
import ModelBundle.Proofs.Commands.Settings

/-!
The settings that a load command runs with, field by field: the flag, the settings file, the
default.
-/

namespace ModelBundle

open Document

def LoadSettings.said? {α : Type} (name : String) (read : Document → Except Flaw α)
    (file : Option Document) : Option α :=
  FileSettings.said? "load" LoadSettings.fields name read file

def EngineSettings.said? {α : Type} (name : String) (read : Document → Except Flaw α)
    (file : Option Document) : Option α :=
  FileSettings.said? "engine" EngineSettings.fields name read file

namespace FileSettings

variable {α : Type} {file : Option Document} {settings : FileSettings} {name : String}
  {read : Document → Except Flaw α}

theorem ReadFrom.load {get : LoadSettings → α} (h : ReadFrom file settings)
    (located : Located LoadSettings.fields name read get)
    (hname : name ∈ names LoadSettings.fields) :
    get settings.load = (LoadSettings.said? name read file).getD (get .default) :=
  h.get located_fields.1 (by decide) located hname (by decide)

theorem ReadFrom.engine {get : EngineSettings → α} (h : ReadFrom file settings)
    (located : Located EngineSettings.fields name read get)
    (hname : name ∈ names EngineSettings.fields) :
    get settings.engine = (EngineSettings.said? name read file).getD (get .default) :=
  h.get located_fields.2 (by decide) located hname (by decide)

theorem ReadFrom.load_flag {get : LoadSettings → α} (h : ReadFrom file settings)
    (located : Located LoadSettings.fields name read get)
    (hname : name ∈ names LoadSettings.fields) (flag : Option α) :
    flag.getD (get settings.load) =
      (flag.or (LoadSettings.said? name read file)).getD (get .default) := by
  rw [Option.getD_or, h.load located hname]

theorem ReadFrom.engine_flag {get : EngineSettings → α} (h : ReadFrom file settings)
    (located : Located EngineSettings.fields name read get)
    (hname : name ∈ names EngineSettings.fields) (flag : Option α) :
    flag.getD (get settings.engine) =
      (flag.or (EngineSettings.said? name read file)).getD (get .default) := by
  rw [Option.getD_or, h.engine located hname]

end FileSettings

namespace Command

open Number (Single)

theorem LoadArguments.load_resolve (arguments : LoadArguments) (settings : FileSettings) :
    (arguments.resolve settings).load =
      { arguments.applyLoad settings.load with
        useMapping := settings.load.useMapping && !arguments.noMapping &&
          !(settings.load.forceCopy || arguments.memory) } :=
  LoadSettings.resolve_eq _

/-- Settings put together from arguments and a settings file, where there is one.  Every field goes
by its own flag, what the file says about it, and its default. -/
structure Layered (arguments : LoadArguments) (file : Option Document) (settings : FileSettings) :
    Prop where
  modelPath : settings.load.modelPath =
    arguments.model.or ((LoadSettings.said? "model_path" optionalText file).getD none)
  forceCopy : settings.load.forceCopy =
    ((LoadSettings.said? "force_heap" asBool file).getD false || arguments.memory)
  useMapping : settings.load.useMapping =
    ((LoadSettings.said? "use_mmap" asBool file).getD true && !arguments.noMapping &&
      !settings.load.forceCopy)
  ceiling : settings.load.ceiling =
    (arguments.ceiling.or (LoadSettings.said? "mmap_ceiling" word64 file)).getD 2147483648
  policy : settings.load.policy = if arguments.allowInvalidMagic then .warn else
    (LoadSettings.said? "invalid_magic" (choice MagicPolicy.ofName?) file).getD .abort
  contextSize : settings.engine.contextSize =
    (arguments.contextSize.or (EngineSettings.said? "ctx_size" word32 file)).getD 4096
  gpuLayers : settings.engine.gpuLayers =
    (arguments.gpuLayers.or (EngineSettings.said? "n_gpu_layers" int32 file)).getD (-1)
  predictions : settings.engine.predictions =
    (arguments.predictions.or (EngineSettings.said? "n_predict" int32 file)).getD 512
  seed : settings.engine.seed =
    (arguments.seed.or (EngineSettings.said? "seed" word32 file)).getD 4294967295
  temperature : settings.engine.temperature =
    (arguments.temperature.or (EngineSettings.said? "temperature" single file)).getD ⟨0x3f333333⟩
  topK : settings.engine.topK =
    (arguments.topK.or (EngineSettings.said? "top_k" word32 file)).getD 40
  topP : settings.engine.topP =
    (arguments.topP.or (EngineSettings.said? "top_p" single file)).getD ⟨0x3f666666⟩
  minP : settings.engine.minP =
    (arguments.minP.or (EngineSettings.said? "min_p" single file)).getD ⟨0⟩
  batchSize : settings.engine.batchSize = (EngineSettings.said? "n_batch" word32 file).getD 512
  groupFactor : settings.engine.groupFactor =
    (EngineSettings.said? "grp_attn_n" word32 file).getD 1
  groupWidth : settings.engine.groupWidth =
    (EngineSettings.said? "grp_attn_w" word32 file).getD 512
  ropeBase : settings.engine.ropeBase =
    (EngineSettings.said? "rope_freq_base" single file).getD ⟨0x461c4000⟩
  ropeScale : settings.engine.ropeScale =
    (EngineSettings.said? "rope_freq_scale" single file).getD ⟨0x3f800000⟩
  mainGpu : settings.engine.mainGpu = (EngineSettings.said? "main_gpu" word32 file).getD 0
  logDisabled : settings.engine.logDisabled =
    (EngineSettings.said? "log_disable" asBool file).getD true

theorem layered_resolve (arguments : LoadArguments) {file : Option Document}
    {settings : FileSettings} (h : FileSettings.ReadFrom file settings) :
    Layered arguments file (arguments.resolve settings) := by
  obtain ⟨hmodel, hforce, hmapping, hceiling, hpolicy⟩ := LoadSettings.located_fields
  obtain ⟨⟨hcontext, hlayers, hpredictions, hseed, htemperature, htopK, htopP, hminP⟩,
    hbatch, hfactor, hwidth, hbase, hscale, hgpu, hlog⟩ := EngineSettings.located_fields
  have hload := arguments.load_resolve settings
  exact {
    modelPath := by
      rw [hload]
      exact congrArg arguments.model.or (h.load hmodel (by decide))
    forceCopy := by
      rw [hload]
      exact congrArg (· || arguments.memory) (h.load hforce (by decide))
    useMapping := by
      rw [hload]
      exact congrArg (fun mapping => mapping && !arguments.noMapping && !_)
        (h.load hmapping (by decide))
    ceiling := by
      rw [hload]
      exact h.load_flag hceiling (by decide) arguments.ceiling
    policy := by
      rw [hload]
      exact congrArg (fun policy => if arguments.allowInvalidMagic then .warn else policy)
        (h.load hpolicy (by decide))
    contextSize := h.engine_flag hcontext (by decide) arguments.contextSize
    gpuLayers := h.engine_flag hlayers (by decide) arguments.gpuLayers
    predictions := h.engine_flag hpredictions (by decide) arguments.predictions
    seed := h.engine_flag hseed (by decide) arguments.seed
    temperature := h.engine_flag htemperature (by decide) arguments.temperature
    topK := h.engine_flag htopK (by decide) arguments.topK
    topP := h.engine_flag htopP (by decide) arguments.topP
    minP := h.engine_flag hminP (by decide) arguments.minP
    batchSize := h.engine hbatch (by decide)
    groupFactor := h.engine hfactor (by decide)
    groupWidth := h.engine hwidth (by decide)
    ropeBase := h.engine hbase (by decide)
    ropeScale := h.engine hscale (by decide)
    mainGpu := h.engine hgpu (by decide)
    logDisabled := h.engine hlog (by decide) }

theorem Layered.not_useMapping {arguments : LoadArguments} {file : Option Document}
    {settings : FileSettings} (layered : Layered arguments file settings)
    (h : LoadSettings.said? "use_mmap" asBool file = some false) :
    settings.load.useMapping = false := by
  rw [layered.useMapping, h]
  rfl

/-- Settings that can be read are laid over the defaults and under the flags, field by field.  A
mapping that the file rules out stays ruled out, a loader changes nothing about the settings any
more and maps payloads of the same sizes, and it does not matter in which order flags are given. -/
theorem resolve_layers {arguments : LoadArguments} {world : World} {settings : FileSettings}
    (h : SettingsSay world.files arguments.settings settings) :
    let file := settingsDocument? world.files arguments.settings
    let resolved := arguments.resolve settings
    readSettings arguments.settings world = .ok settings ∧
      Layered arguments file resolved ∧
      (LoadSettings.said? "use_mmap" asBool file = some false → resolved.load.useMapping = false) ∧
      (∀ mapper, (Loader.new resolved.load mapper).settings = resolved.load ∧
        ∀ size, (Loader.new resolved.load mapper).settings.shouldMap size =
          (arguments.applyLoad settings.load).shouldMap size) ∧
      ∀ groups groups' : List (List String), groups.Perm groups' →
        (∀ group ∈ groups, Flags.Group Invocation.loadGrammar group) →
        Invocation.read ("load" :: groups.flatten) =
          Invocation.read ("load" :: groups'.flatten) := by
  intro file resolved
  have layered : Layered arguments file resolved := layered_resolve arguments h.readFrom
  refine ⟨readSettings_eq_ok_iff.mpr h, layered, layered.not_useMapping, ?_,
    fun _ _ => Invocation.read_load_perm⟩
  intro mapper
  have hsame : (Loader.new resolved.load mapper).settings = resolved.load :=
    LoadSettings.resolve_resolve _
  refine ⟨hsame, fun size => ?_⟩
  rw [hsame]
  exact LoadSettings.shouldMap_resolve _ size

def oneSettingsFile : FileSystem where
  entries := [(["work"], .directory), (["work", "settings.json"], .file 0)]
  files := [(0, ⟨text.toUTF8.toList, 0o644⟩)]
  working := ["work"]
where
  text : String := "\x7b \"load\": \x7b \"force_heap\": true \x7d, " ++
    "\"engine\": \x7b \"n_predict\": 8, \"top_k\": 20 \x7d \x7d"

/-- The flag goes before the file, the file before the default, and a forced copy rules out
mapping. -/
theorem resolve_layers_oneSettingsFile :
    let world := World.ofFiles oneSettingsFile
    let arguments : LoadArguments :=
      { LoadArguments.none with settings := some "settings.json", topK := some 9 }
    ∃ settings, SettingsSay world.files arguments.settings settings ∧
      readSettings arguments.settings world = .ok settings ∧
      (arguments.resolve settings).engine.topK = 9 ∧
      (arguments.resolve settings).engine.predictions = 8 ∧
      (arguments.resolve settings).engine.contextSize = 4096 ∧
      (arguments.resolve settings).load.useMapping = false ∧
      Invocation.read ["load", "--memory", "--top-k", "9"] =
        Invocation.read ["load", "--top-k", "9", "--memory"] := by
  intro world arguments
  have h : SettingsSay world.files arguments.settings
      ⟨{ LoadSettings.default with forceCopy := true },
        { EngineSettings.default with predictions := 8, topK := 20 }⟩ :=
    readSettings_eq_ok_iff.mp (by decide +kernel)
  obtain ⟨hread, layered, -, -, order⟩ := resolve_layers h
  obtain ⟨hpredictions, hcontext, hforce⟩ :
      let file := settingsDocument? world.files arguments.settings
      EngineSettings.said? "n_predict" int32 file = some 8 ∧
        EngineSettings.said? "ctx_size" word32 file = none ∧
        LoadSettings.said? "force_heap" asBool file = some true := by decide +kernel
  have hmemory : Flags.Group Invocation.loadGrammar ["--" ++ Invocation.memoryFlag.name] :=
    Invocation.group_mark (by decide) (by decide) rfl
  have htopK : Flags.Group Invocation.loadGrammar ["--" ++ Invocation.topKFlag.name, "9"] :=
    Invocation.group_value (by decide) rfl (by decide) (by decide)
  refine ⟨_, h, hread, layered.topK, ?_, ?_, ?_,
    order [["--memory"], ["--top-k", "9"]] _ (.swap _ _ []) ?_⟩
  · rw [layered.predictions, hpredictions]
    rfl
  · rw [layered.contextSize, hcontext]
    rfl
  · rw [layered.useMapping, layered.forceCopy, hforce]
    simp
  · rw [List.forall_mem_cons, List.forall_mem_singleton]
    exact ⟨hmemory, htopK⟩

end Command

end ModelBundle
