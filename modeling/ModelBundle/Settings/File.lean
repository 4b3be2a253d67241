import ModelBundle.Basic
import ModelBundle.Document.Basic
import ModelBundle.Document.Text
import ModelBundle.Model
import ModelBundle.Number

/-!
The settings: for loading, for the engine, and the files that give them.  Settings for loading say
how a payload is located and brought into memory.
-/

namespace ModelBundle

structure LoadSettings where
  /-- The model file to use when no payload is embedded. -/
  modelPath : Option Path
  /-- Always copy the payload into memory, whatever `useMapping` says. -/
  forceCopy : Bool
  useMapping : Bool
  ceiling : UInt64
  policy : MagicPolicy
deriving DecidableEq, Repr

namespace LoadSettings

def default : LoadSettings where
  modelPath := none
  forceCopy := false
  useMapping := true
  ceiling := 2147483648
  policy := .abort

instance : Inhabited LoadSettings := ⟨default⟩

def resolve (settings : LoadSettings) : LoadSettings :=
  if settings.forceCopy then { settings with useMapping := false } else settings

def mappingEnabled (settings : LoadSettings) : Bool := settings.useMapping && !settings.forceCopy

def shouldMap (settings : LoadSettings) (size : UInt64) : Bool :=
  settings.mappingEnabled && size ≤ settings.ceiling

@[simp] theorem resolve_resolve (settings : LoadSettings) :
    settings.resolve.resolve = settings.resolve := by
  unfold resolve
  split <;> simp_all

@[simp] theorem shouldMap_resolve (settings : LoadSettings) (size : UInt64) :
    settings.resolve.shouldMap size = settings.shouldMap size := by
  unfold resolve shouldMap mappingEnabled
  split <;> simp_all

end LoadSettings

namespace MagicPolicy

def name : MagicPolicy → String
  | abort => "abort"
  | warn => "warn"

def ofName? (name : String) : Option MagicPolicy :=
  if name = "abort" then some abort else if name = "warn" then some warn else none

end MagicPolicy

namespace LoadSettings

open Document

def fields : List (FieldOf LoadSettings) :=
  [field "model_path" optionalText fun settings modelPath => { settings with modelPath },
    field "force_heap" asBool fun settings forceCopy => { settings with forceCopy },
    field "use_mmap" asBool fun settings useMapping => { settings with useMapping },
    field "mmap_ceiling" word64 fun settings ceiling => { settings with ceiling },
    field "invalid_magic" (choice MagicPolicy.ofName?) fun settings policy =>
      { settings with policy }]

def ofDocument : Document → Except Flaw LoadSettings := record fields default

end LoadSettings

end ModelBundle

/-!
The parameters of an engine run, and the argument string that hands them over.
-/

namespace ModelBundle

structure EngineSettings where
  contextSize : UInt32
  /-- Minus one offloads every layer that can be. -/
  gpuLayers : Int32
  predictions : Int32
  /-- The largest word asks for a random seed. -/
  seed : UInt32
  batchSize : UInt32
  groupFactor : UInt32
  groupWidth : UInt32
  ropeBase : Number.Single
  ropeScale : Number.Single
  mainGpu : UInt32
  temperature : Number.Single
  topK : UInt32
  topP : Number.Single
  minP : Number.Single
  logDisabled : Bool
deriving DecidableEq, Repr

namespace EngineSettings

open Number (Single)

def default : EngineSettings where
  contextSize := 4096
  gpuLayers := -1
  predictions := 512
  seed := 4294967295
  batchSize := 512
  groupFactor := 1
  groupWidth := 512
  ropeBase := ⟨0x461c4000⟩
  ropeScale := ⟨0x3f800000⟩
  mainGpu := 0
  temperature := ⟨0x3f333333⟩
  topK := 40
  topP := ⟨0x3f666666⟩
  minP := ⟨0⟩
  logDisabled := true

instance : Inhabited EngineSettings := ⟨default⟩

example : default.ropeBase.text = "10000" := by decide +kernel
example : default.ropeScale.text = "1" := by decide +kernel
example : default.temperature.text = "0.7" := by decide +kernel
example : default.topP.text = "0.9" := by decide +kernel
example : default.minP.text = "0" := by decide +kernel

def flags (settings : EngineSettings) : List (String × String) :=
  [("ctx-size", toString settings.contextSize),
    ("n-gpu-layers", toString settings.gpuLayers),
    ("n-predict", toString settings.predictions),
    ("seed", toString settings.seed),
    ("batch-size", toString settings.batchSize),
    ("grp-attn-n", toString settings.groupFactor),
    ("grp-attn-w", toString settings.groupWidth),
    ("rope-freq-base", settings.ropeBase.text),
    ("rope-freq-scale", settings.ropeScale.text),
    ("main-gpu", toString settings.mainGpu),
    ("temp", settings.temperature.text),
    ("top-k", toString settings.topK),
    ("top-p", settings.topP.text),
    ("min-p", settings.minP.text)]

/-- The argument string for a model of some name.  The name is put in as it is. -/
def arguments (settings : EngineSettings) (modelName : String) : String :=
  "llama --model " ++ modelName ++
    String.join (settings.flags.map fun flag => " --" ++ flag.1 ++ " " ++ flag.2) ++
    if settings.logDisabled then " --log-disable" else ""

open Document

def fields : List (FieldOf EngineSettings) :=
  [field "ctx_size" word32 fun settings contextSize => { settings with contextSize },
    field "n_gpu_layers" int32 fun settings gpuLayers => { settings with gpuLayers },
    field "n_predict" int32 fun settings predictions => { settings with predictions },
    field "seed" word32 fun settings seed => { settings with seed },
    field "n_batch" word32 fun settings batchSize => { settings with batchSize },
    field "grp_attn_n" word32 fun settings groupFactor => { settings with groupFactor },
    field "grp_attn_w" word32 fun settings groupWidth => { settings with groupWidth },
    field "rope_freq_base" single fun settings ropeBase => { settings with ropeBase },
    field "rope_freq_scale" single fun settings ropeScale => { settings with ropeScale },
    field "main_gpu" word32 fun settings mainGpu => { settings with mainGpu },
    field "temperature" single fun settings temperature => { settings with temperature },
    field "top_k" word32 fun settings topK => { settings with topK },
    field "top_p" single fun settings topP => { settings with topP },
    field "min_p" single fun settings minP => { settings with minP },
    field "log_disable" asBool fun settings logDisabled => { settings with logDisabled }]

def ofDocument : Document → Except Flaw EngineSettings := record fields default

end EngineSettings

end ModelBundle

/-!
Settings files: a document with a part for loading and a part for the engine, either of which may
be left out.
-/

namespace ModelBundle

structure FileSettings where
  load : LoadSettings
  engine : EngineSettings
deriving DecidableEq, Repr

namespace FileSettings

open Document

def default : FileSettings := ⟨.default, .default⟩

def fields : List (FieldOf FileSettings) :=
  [field "load" LoadSettings.ofDocument fun settings load => { settings with load },
    field "engine" EngineSettings.ofDocument fun settings engine => { settings with engine }]

def ofText (text : String) : Except Flaw FileSettings := decode text (record fields default)

end FileSettings

def LoadSettings.ofText (text : String) : Except Document.Flaw LoadSettings :=
  Document.decode text ofDocument

def EngineSettings.ofText (text : String) : Except Document.Flaw EngineSettings :=
  Document.decode text ofDocument

end ModelBundle
