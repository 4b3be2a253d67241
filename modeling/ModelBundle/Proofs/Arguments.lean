import ModelBundle.Command.Arguments
import ModelBundle.Proofs.Numbers.Texts
import ModelBundle.Proofs.Sessions.HandOff

/-!
The argument string as an engine takes it apart: cut at its blanks, and read from left to right.
The parameters are always there, each behind its flag.  The name of the model is one word as long as
there is no blank in it, and otherwise its pieces stand among the arguments.
-/

namespace ModelBundle

def words (text : String) : List String := (text.toList.splitOn ' ').map String.ofList

theorem words_append (front back : String) :
    words (front ++ " " ++ back) = words front ++ words back := by
  have hlist : (front ++ " " ++ back).toList = front.toList ++ ' ' :: back.toList := by
    simp [String.toList_append]
  rw [words, hlist, List.splitOn_append_cons_self, List.map_append]
  rfl

theorem words_of_not_mem {text : String} (h : ' ' ∉ text.toList) : words text = [text] := by
  rw [words, List.splitOn_eq_singleton h, List.map_singleton, String.ofList_toList]

theorem words_ne_nil (text : String) : words text ≠ [] := by
  simp [words]

theorem words_eq_singleton_iff {text : String} : words text = [text] ↔ ' ' ∉ text.toList := by
  refine ⟨fun h hmem => ?_, words_of_not_mem⟩
  obtain ⟨front, back, hsplit⟩ := List.append_of_mem hmem
  have htext : text = String.ofList front ++ " " ++ String.ofList back := by
    apply String.toList_inj.mp
    simp [hsplit, String.toList_append]
  have hlength := congrArg List.length h
  rw [htext, words_append, List.length_append] at hlength
  have hfront := List.length_pos_of_ne_nil (words_ne_nil (String.ofList front))
  have hback := List.length_pos_of_ne_nil (words_ne_nil (String.ofList back))
  simp only [List.length_singleton] at hlength
  omega

theorem words_join {added : List String} (h : ∀ word ∈ added, ' ' ∉ word.toList)
    (front : String) :
    words (front ++ String.join (added.map (" " ++ ·))) = words front ++ added := by
  induction added generalizing front with
  | nil => simp
  | cons word rest ih =>
    have hsplit : front ++ String.join ((word :: rest).map (" " ++ ·)) =
        front ++ " " ++ word ++ String.join (rest.map (" " ++ ·)) := by
      simp [String.append_assoc]
    rw [hsplit, ih (fun other hmem => h other (List.mem_cons_of_mem _ hmem)), words_append,
      words_of_not_mem (h word List.mem_cons_self), List.append_assoc]
    rfl

/-- Reads arguments from left to right.  Every flag has the next word for its value, but for the
one that only switches something. -/
def readFlags : List String → Option (List (String × Option String))
  | [] => some []
  | flag :: rest =>
    if flag = "--log-disable" then ((flag, none) :: ·) <$> readFlags rest
    else match rest with
      | [] => none
      | value :: rest => ((flag, some value) :: ·) <$> readFlags rest

theorem readFlags_cons {flag : String} (h : flag ≠ "--log-disable") (value : String)
    (rest : List String) :
    readFlags (flag :: value :: rest) = ((flag, some value) :: ·) <$> readFlags rest := by
  simp [readFlags, h]

namespace EngineSettings

def parameters (settings : EngineSettings) : List (String × Option String) :=
  settings.flags.map (fun flag => ("--" ++ flag.1, some flag.2)) ++
    if settings.logDisabled then [("--log-disable", none)] else []

def told (settings : EngineSettings) : List String :=
  settings.parameters.flatMap fun parameter => parameter.1 :: parameter.2.toList

theorem join_flags (flags : List (String × String)) :
    String.join (flags.map fun flag => " --" ++ flag.1 ++ " " ++ flag.2) =
      String.join (((flags.map fun flag => ("--" ++ flag.1, some flag.2)).flatMap
        fun parameter => parameter.1 :: parameter.2.toList).map (" " ++ ·)) := by
  induction flags with
  | nil => rfl
  | cons flag rest ih =>
    have hflag : " --" ++ flag.1 = " " ++ ("--" ++ flag.1) := by
      rw [← String.append_assoc]
      rfl
    rw [List.map_cons, String.join_cons, ih, hflag]
    simp only [List.map_cons, List.flatMap_cons, Option.toList_some, List.cons_append,
      List.nil_append, String.join_cons, String.append_assoc]

theorem arguments_eq (settings : EngineSettings) (name : String) :
    settings.arguments name =
      "llama" ++ " " ++ "--model" ++ " " ++ name ++
        String.join (settings.told.map (" " ++ ·)) := by
  have hstart : "llama --model " = "llama" ++ " " ++ "--model" ++ " " := by decide
  have hlast : String.join (((if settings.logDisabled then [("--log-disable", none)]
      else []).flatMap fun parameter : String × Option String =>
        parameter.1 :: parameter.2.toList).map (" " ++ ·)) =
      if settings.logDisabled then " --log-disable" else "" := by
    cases settings.logDisabled <;> decide
  unfold arguments
  rw [told, parameters, List.flatMap_append, List.map_append, String.join_append,
    join_flags, hstart, hlast]
  simp only [String.append_assoc]

theorem space_not_mem_repr (n : Nat) : ' ' ∉ n.repr.toList := by
  rw [Nat.toList_repr]
  intro hmem
  exact absurd (Nat.isDigit_of_mem_toDigits (by decide) (by decide) hmem) (by decide)

theorem space_not_mem_word32 (n : UInt32) : ' ' ∉ (toString n).toList :=
  space_not_mem_repr n.toNat

theorem space_not_mem_int32 (n : Int32) : ' ' ∉ (toString n).toList := by
  show ' ' ∉ (toString n.toInt).toList
  cases n.toInt with
  | ofNat value => exact space_not_mem_repr value
  | negSucc value =>
    show ' ' ∉ ("-" ++ (value + 1).repr).toList
    rw [String.toList_append, List.mem_append, not_or]
    exact ⟨by decide, space_not_mem_repr (value + 1)⟩

theorem forall_parameters {settings : EngineSettings} {p : String × Option String → Prop}
    (flags : ∀ flag ∈ settings.flags, p ("--" ++ flag.1, some flag.2))
    (switch : p ("--log-disable", none)) : ∀ parameter ∈ settings.parameters, p parameter := by
  intro parameter h
  rw [parameters, List.mem_append] at h
  rcases h with h | h
  · obtain ⟨flag, hflag, rfl⟩ := List.mem_map.mp h
    exact flags flag hflag
  · split at h
    · rwa [List.mem_singleton.mp h]
    · cases h

theorem space_not_mem_values (settings : EngineSettings) :
    ∀ flag ∈ settings.flags, ' ' ∉ flag.2.toList := by
  simp only [flags, List.forall_mem_cons]
  exact ⟨space_not_mem_word32 _, space_not_mem_int32 _, space_not_mem_int32 _,
    space_not_mem_word32 _, space_not_mem_word32 _, space_not_mem_word32 _, space_not_mem_word32 _,
    Number.Single.space_not_mem_text _, Number.Single.space_not_mem_text _, space_not_mem_word32 _,
    Number.Single.space_not_mem_text _, space_not_mem_word32 _, Number.Single.space_not_mem_text _,
    Number.Single.space_not_mem_text _, nofun⟩

def flagNames : List String := default.flags.map Prod.fst

theorem map_fst_flags (settings : EngineSettings) :
    settings.flags.map Prod.fst = flagNames := by
  simp only [flagNames, flags, List.map_cons, List.map_nil]

theorem plain_flags (settings : EngineSettings) : ∀ flag ∈ settings.flags,
    ' ' ∉ ("--" ++ flag.1).toList ∧ "--" ++ flag.1 ≠ "--log-disable" := by
  have hplain : ∀ name ∈ flagNames,
      ' ' ∉ ("--" ++ name).toList ∧ "--" ++ name ≠ "--log-disable" := by
    decide
  intro flag hmem
  exact hplain flag.1 (settings.map_fst_flags ▸ List.mem_map_of_mem hmem)

theorem space_not_mem_told (settings : EngineSettings) :
    ∀ word ∈ settings.told, ' ' ∉ word.toList := by
  have hparameters : ∀ parameter ∈ settings.parameters,
      ∀ word ∈ parameter.1 :: parameter.2.toList, ' ' ∉ word.toList := by
    apply forall_parameters
    · intro flag hflag
      simp only [Option.toList_some, List.forall_mem_cons]
      exact ⟨(settings.plain_flags flag hflag).1, settings.space_not_mem_values flag hflag, nofun⟩
    · decide
  intro word hmem
  obtain ⟨parameter, hparameter, hword⟩ := List.mem_flatMap.mp hmem
  exact hparameters parameter hparameter word hword

theorem words_arguments (settings : EngineSettings) (name : String) :
    words (settings.arguments name) = "llama" :: "--model" :: words name ++ settings.told := by
  rw [arguments_eq, words_join settings.space_not_mem_told, words_append, words_append,
    words_of_not_mem (by decide), words_of_not_mem (by decide)]
  rfl

theorem readFlags_flatMap {parameters : List (String × Option String)}
    (h : ∀ parameter ∈ parameters, parameter.1 = "--log-disable" ↔ parameter.2 = none) :
    readFlags (parameters.flatMap fun parameter => parameter.1 :: parameter.2.toList) =
      some parameters := by
  induction parameters with
  | nil => rfl
  | cons parameter rest ih =>
    obtain ⟨flag, value⟩ := parameter
    have hflag := h (flag, value) List.mem_cons_self
    have hrest := ih fun other hmem => h other (List.mem_cons_of_mem _ hmem)
    rw [List.flatMap_cons]
    cases value with
    | none =>
      obtain rfl : flag = "--log-disable" := hflag.mpr rfl
      simp only [Option.toList_none, List.cons_append, List.nil_append]
      rw [readFlags.eq_def]
      simp [hrest]
    | some value =>
      have hne : flag ≠ "--log-disable" := fun heq => by simpa using hflag.mp heq
      simp [readFlags_cons hne, hrest]

theorem readFlags_told (settings : EngineSettings) :
    readFlags settings.told = some settings.parameters := by
  apply readFlags_flatMap
  apply forall_parameters
  · intro flag hflag
    simp [(settings.plain_flags flag hflag).2]
  · simp

theorem nodup_flags (settings : EngineSettings) :
    ("--model" :: settings.parameters.map Prod.fst).Nodup := by
  have hnames : settings.parameters.map Prod.fst =
      flagNames.map ("--" ++ ·) ++ if settings.logDisabled then ["--log-disable"] else [] := by
    rw [parameters, List.map_append, List.map_map, ← settings.map_fst_flags, List.map_map]
    cases settings.logDisabled <;> rfl
  rw [hnames]
  cases settings.logDisabled <;> decide

end EngineSettings

section HandOff

variable {ε : Type} {world : World} {id : Nat} {model : Model}

/-- What an engine finds in the arguments it is called with.  The words are those of the name and
those that tell the parameters, every flag with its value.  A name is one word exactly if it has no
blank, as the name of an embedded model, and then an engine that reads from the left sees the model
and the parameters, no flag twice and no other flag. -/
theorem handOff_words (hmodel : world.model? id = some model) (hbytes : model.bytes ≠ [])
    (start : Takeover ε) (settings : EngineSettings) (engine : ε) :
    let name := model.source.modelName
    let (result, _, _, calls) := handOff start.watched id settings (world, engine, [])
    ∃ call, calls = [call] ∧
      (∀ arguments, result = .ok arguments → arguments = call.arguments) ∧
      words call.arguments = "llama" :: "--model" :: words name ++ settings.told ∧
      (words name = [name] ↔ ' ' ∉ name.toList) ∧
      (∀ exe offset size, model.source = .embedded exe offset size → ' ' ∉ name.toList) ∧
      (' ' ∉ name.toList → readFlags (words call.arguments).tail =
        some (("--model", some name) :: settings.parameters)) ∧
      ("--model" :: settings.parameters.map Prod.fst).Nodup := by
  intro name
  rw [handOff_of_bytes hmodel hbytes]
  have hwords := settings.words_arguments name
  refine ⟨_, rfl, fun arguments hresult => ?_, hwords, words_eq_singleton_iff, ?_, fun hplain => ?_,
    settings.nodup_flags⟩
  · dsimp only [Takeover.watched] at hresult ⊢
    generalize (start id _ _).1 = answer at hresult
    cases answer with
    | error reasons => cases hresult
    | ok _ => exact (Except.ok.inj hresult).symm
  · intro exe offset size hsource
    simp only [name, hsource, Source.modelName]
    decide
  · rw [hwords, words_of_not_mem hplain]
    show readFlags ("--model" :: name :: settings.told) = _
    rw [readFlags_cons (by decide), settings.readFlags_told]
    rfl

theorem handOff_words_weights :
    let (_, _, _, calls) :=
      handOff (Engine.accept false).watched 0 .default (Delivery.oneModel.1, .idle, [])
    ∃ call, calls = [call] ∧ readFlags (words call.arguments).tail =
      some (("--model", some "weights.gguf") :: EngineSettings.default.parameters) := by
  obtain ⟨call, hcalls, -, -, -, -, hread, -⟩ :=
    handOff_words (show Delivery.oneModel.1.model? 0 = some Delivery.weights from rfl) (by decide)
      (Engine.accept false) .default .idle
  exact ⟨call, hcalls, hread (by decide)⟩

def flagged : Model := ⟨.buffered ⟨Magic.gguf⟩, .file "m --seed 7", true⟩

/-- The pieces of a name are arguments like all others: the whole name is no word, and a reader from
the left finds a flag twice. -/
theorem seed_from_name :
    let world := ((World.ofFiles .empty).share flagged).2
    let (_, _, _, calls) := handOff (Engine.accept false).watched 0 .default (world, .idle, [])
    ∃ call, calls = [call] ∧
      words call.arguments ≠
        "llama" :: "--model" :: flagged.source.modelName :: EngineSettings.default.told ∧
      (readFlags (words call.arguments).tail).map (List.filter (·.1 = "--seed")) =
        some [("--seed", some "7"), ("--seed", some "4294967295")] := by
  have hwords : words (EngineSettings.default.arguments flagged.source.modelName) =
      "llama" :: "--model" :: "m" :: "--seed" :: "7" :: EngineSettings.default.told :=
    EngineSettings.words_arguments _ _
  refine ⟨_, rfl, ?_, ?_⟩
  · rw [hwords]
    intro heq
    simp only [List.cons.injEq] at heq
    exact absurd heq.2.2.1 (by decide)
  · rw [hwords, List.tail_cons, readFlags_cons (by decide), readFlags_cons (by decide),
      EngineSettings.readFlags_told]
    rfl

end HandOff

/-!
The argument string read from its right end.  A name may go on like a flag, so nothing is certain
from the left; but what follows the name is always told in the same words, and from the right the
name is all that is left over.
-/

theorem intercalate_words (text : String) : String.intercalate " " (words text) = text := by
  have hpieces : (words text).map String.toList = text.toList.splitOn ' ' := by
    simp [words, Function.comp_def]
  apply String.toList_inj.mp
  rw [String.toList_intercalate, hpieces]
  exact List.intercalate_splitOn ..

/-- Takes the values of some flags off words.  Flags and words both come last first, and so does the
first of the values that were found before. -/
def lastValues (values : List String) :
    List String → List String → Option (List String × List String)
  | [], words => some (values, words)
  | flag :: flags, value :: word :: words =>
    if word = flag then lastValues (value :: values) flags words else none
  | _ :: _, _ => none

theorem lastValues_told (flags : List (String × String)) (values rest : List String) :
    lastValues values (flags.map Prod.fst).reverse
        ((flags.flatMap fun flag => [flag.1, flag.2]).reverse ++ rest) =
      some (flags.map Prod.snd ++ values, rest) := by
  induction flags using List.reverseRecOn generalizing values with
  | nil => rfl
  | append_singleton flags flag ih => simp [lastValues, ih]

def lastSwitch : List String → Bool × List String
  | [] => (false, [])
  | word :: words => if word = "--log-disable" then (true, words) else (false, word :: words)

namespace EngineSettings

open Number (Single)

def ofValues? (logDisabled : Bool) : List String → Option EngineSettings
  | [contextSize, gpuLayers, predictions, seed, batchSize, groupFactor, groupWidth, ropeBase,
      ropeScale, mainGpu, temperature, topK, topP, minP] => do
    some
      { contextSize := ← Command.Value.word32? contextSize
        gpuLayers := ← Command.Value.int32? gpuLayers
        predictions := ← Command.Value.int32? predictions
        seed := ← Command.Value.word32? seed
        batchSize := ← Command.Value.word32? batchSize
        groupFactor := ← Command.Value.word32? groupFactor
        groupWidth := ← Command.Value.word32? groupWidth
        ropeBase := ← Single.parse? ropeBase
        ropeScale := ← Single.parse? ropeScale
        mainGpu := ← Command.Value.word32? mainGpu
        temperature := ← Single.parse? temperature
        topK := ← Command.Value.word32? topK
        topP := ← Single.parse? topP
        minP := ← Single.parse? minP
        logDisabled }
  | _ => none

/-- Reads an argument string from the right. -/
def ofArguments? (arguments : String) : Option (EngineSettings × String) := do
  let (logDisabled, told) := lastSwitch (words arguments).reverse
  let (values, start) ← lastValues [] (flagNames.map ("--" ++ ·)).reverse told
  let settings ← ofValues? logDisabled values
  match start.reverse with
  | program :: flag :: pieces =>
    if program = "llama" ∧ flag = "--model" then some (settings, String.intercalate " " pieces)
    else none
  | _ => none

/-- Settings with one form of what is not a number. -/
def canonical (settings : EngineSettings) : EngineSettings :=
  { settings with
    ropeBase := settings.ropeBase.canonical
    ropeScale := settings.ropeScale.canonical
    temperature := settings.temperature.canonical
    topP := settings.topP.canonical
    minP := settings.minP.canonical }

theorem ofValues?_flags (settings : EngineSettings) :
    ofValues? settings.logDisabled (settings.flags.map Prod.snd) = some settings.canonical := by
  simp [ofValues?, flags, Command.Value.word32?_toString, Command.Value.int32?_toString,
    Single.parse?_text, canonical]

theorem lastSwitch_told (settings : EngineSettings) (rest : List String) :
    lastSwitch (settings.told.reverse ++ rest) =
      (settings.logDisabled, (settings.flags.flatMap
        fun flag => ["--" ++ flag.1, flag.2]).reverse ++ rest) := by
  have hnumber : settings.minP.text ≠ "--log-disable" := by
    intro heq
    have hread := settings.minP.parse?_text
    rw [heq, show Single.parse? "--log-disable" = none by decide] at hread
    cases hread
  cases hlog : settings.logDisabled <;>
    simp [told, parameters, flags, hlog, lastSwitch, hnumber]

theorem ofArguments?_arguments (settings : EngineSettings) (name : String) :
    ofArguments? (settings.arguments name) = some (settings.canonical, name) := by
  have hflags : flagNames.map ("--" ++ ·) =
      (settings.flags.map fun flag => ("--" ++ flag.1, flag.2)).map Prod.fst := by
    rw [← settings.map_fst_flags, List.map_map, List.map_map]
    rfl
  have hvalues : (settings.flags.map fun flag => ("--" ++ flag.1, flag.2)).map Prod.snd =
      settings.flags.map Prod.snd := by
    rw [List.map_map]
    rfl
  have htold := lastValues_told (settings.flags.map fun flag => ("--" ++ flag.1, flag.2)) []
    ("llama" :: "--model" :: words name).reverse
  rw [List.flatMap_map, hvalues, List.append_nil] at htold
  rw [ofArguments?, words_arguments, List.reverse_append, lastSwitch_told, hflags]
  simp only [htold, Option.bind_eq_bind, Option.bind_some, ofValues?_flags, List.reverse_reverse,
    and_self, if_true, intercalate_words]

theorem arguments_canonical (settings : EngineSettings) (name : String) :
    settings.canonical.arguments name = settings.arguments name := by
  have hflags : settings.canonical.flags = settings.flags := by
    simp only [flags, canonical, Single.text_canonical]
  unfold arguments
  rw [hflags]
  rfl

/-- The argument string loses nothing.  Whatever the name is, it can be read from the right end;
strings are equal exactly if names and settings are, where what is not a number counts as one. -/
theorem arguments_determine (settings other : EngineSettings) (name otherName : String) :
    ofArguments? (settings.arguments name) = some (settings.canonical, name) ∧
      (settings.arguments name = other.arguments otherName ↔
        name = otherName ∧ settings.canonical = other.canonical) ∧
      (settings.canonical = other.canonical ↔
        { settings with
          ropeBase := other.ropeBase, ropeScale := other.ropeScale,
          temperature := other.temperature, topP := other.topP, minP := other.minP } = other ∧
        settings.ropeBase.Same other.ropeBase ∧ settings.ropeScale.Same other.ropeScale ∧
        settings.temperature.Same other.temperature ∧ settings.topP.Same other.topP ∧
        settings.minP.Same other.minP) := by
  refine ⟨settings.ofArguments?_arguments name, ⟨fun h => ?_, ?_⟩, ?_⟩
  · have hread := settings.ofArguments?_arguments name
    rw [h, other.ofArguments?_arguments otherName, Option.some.injEq, Prod.mk.injEq] at hread
    exact ⟨hread.2.symm, hread.1.symm⟩
  · rintro ⟨rfl, h⟩
    rw [← settings.arguments_canonical, h, other.arguments_canonical]
  · obtain ⟨contextSize, gpuLayers, predictions, seed, batchSize, groupFactor, groupWidth, ropeBase,
      ropeScale, mainGpu, temperature, topK, topP, minP, logDisabled⟩ := settings
    cases other
    simp only [canonical, mk.injEq, Single.canonical_eq_canonical_iff]
    tauto

/-- A name that goes on like a flag is told from settings that are like it. -/
example : default.arguments "m --ctx-size 1" ≠
    ({ default with contextSize := 1 } : EngineSettings).arguments "m" := by
  decide +kernel

end EngineSettings

end ModelBundle
