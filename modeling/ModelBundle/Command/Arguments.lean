import ModelBundle.Basic
import ModelBundle.Number
import ModelBundle.Settings.File

/-!
Command lines: the values that can stand on one, how it is taken apart, and the commands it may be
about.
-/

namespace ModelBundle.Command

open Number (Single)

namespace Value

def path? (text : String) : Option Path := if text = "" then none else some text

private def digits? (text : List Char) : Option Nat :=
  if text.isEmpty || !text.all Char.isDigit then none
  else some (text.foldl (fun value digit => 10 * value + (digit.toNat - 48)) 0)

def natural? (text : String) : Option Nat :=
  match text.toList with
  | '+' :: rest => digits? rest
  | rest => digits? rest

def integer? (text : String) : Option Int :=
  match text.toList with
  | '-' :: rest => (digits? rest).map fun n => -(n : Int)
  | '+' :: rest => (digits? rest).map fun n => (n : Int)
  | rest => (digits? rest).map fun n => (n : Int)

/-- A number of 64 bits; not even zero may have a minus sign. -/
def word64? (text : String) : Option UInt64 :=
  match natural? text with
  | some n => if n < UInt64.size then some (.ofNat n) else none
  | none => none

/-- A number of 32 bits; zero may have a minus sign. -/
def word32? (text : String) : Option UInt32 :=
  match integer? text with
  | some n => if 0 ≤ n && n.toNat < UInt32.size then some (.ofNat n.toNat) else none
  | none => none

def int32? (text : String) : Option Int32 :=
  match integer? text with
  | some n => if Int32.minValue.toInt ≤ n && n ≤ Int32.maxValue.toInt then some (.ofInt n) else none
  | none => none

/-! Numbers are read back as they are printed. -/

private theorem digits?_toDigits (n : Nat) : digits? (Nat.toDigits 10 n) = some n := by
  have hdigits : (Nat.toDigits 10 n).all Char.isDigit = true :=
    List.all_eq_true.mpr fun _ h => Nat.isDigit_of_mem_toDigits (by decide) (by decide) h
  have hvalue : (Nat.toDigits 10 n).foldl (fun value digit => 10 * value + (digit.toNat - 48)) 0 =
      n := Nat.ofDigitChars_ten_toDigits
  simp [digits?, hdigits, hvalue]

theorem integer?_toString (n : Int) : integer? (toString n) = some n := by
  cases n with
  | negSucc n =>
    have htext : (toString (Int.negSucc n)).toList = '-' :: Nat.toDigits 10 (n + 1) := by
      rw [show toString (Int.negSucc n) = "-" ++ (n + 1).repr from rfl, String.toList_append,
        Nat.toList_repr]
      rfl
    simp only [integer?, htext, digits?_toDigits]
    rfl
  | ofNat n =>
    have htext : (toString (Int.ofNat n)).toList = Nat.toDigits 10 n := Nat.toList_repr
    have hdigit : ∀ c rest, Nat.toDigits 10 n = c :: rest → c.isDigit = true := fun c rest h =>
      Nat.isDigit_of_mem_toDigits (b := 10) (n := n) (by decide) (by decide) (by simp [h])
    unfold integer?
    rw [htext]
    split
    · rename_i rest h
      exact absurd (hdigit _ _ h) (by decide)
    · rename_i rest h
      exact absurd (hdigit _ _ h) (by decide)
    · rw [digits?_toDigits]
      rfl

theorem word32?_toString (n : UInt32) : word32? (toString n) = some n := by
  have hread : integer? (toString n) = some (n.toNat : Int) := integer?_toString n.toNat
  have hbound : n.toNat < UInt32.size := n.toNat_lt_size
  simp [word32?, hread, hbound]

theorem int32?_toString (n : Int32) : int32? (toString n) = some n := by
  have hread : integer? (toString n) = some n.toInt := integer?_toString n.toInt
  have hleast : Int32.minValue.toInt ≤ n.toInt := n.minValue_le_toInt
  have hgreatest : n.toInt ≤ Int32.maxValue.toInt := n.toInt_le
  simp only [int32?, hread, hleast, hgreatest, decide_true, Bool.and_self, if_true,
    Int32.ofInt_toInt]

end Value

inductive ValueKind where
  | path
  | word64
  | word32
  | int32
  | single
deriving DecidableEq, Repr

def ValueKind.accepts : ValueKind → String → Bool
  | path, text => (Value.path? text).isSome
  | word64, text => (Value.word64? text).isSome
  | word32, text => (Value.word32? text).isSome
  | int32, text => (Value.int32? text).isSome
  | single, text => (Single.parse? text).isSome

example : ValueKind.word32.accepts "-0" = true := by decide
example : ValueKind.word64.accepts "-0" = false := by decide

end ModelBundle.Command

/-!
Taking a command line apart: flags by their long or short names, their values, and what stands
alone.  A long name may have its value behind an equals sign; short names may stand together, and
the rest of such a word is the value of the first one that takes a value.

A command line is read from the left, and the first word that makes no sense or asks for help
settles what comes of it.
-/

namespace ModelBundle.Command

structure Flag where
  /-- The long name, which also stands for the flag. -/
  name : String
  otherName : Option String
  short : Option Char
  takes : Option ValueKind
  /-- Whether the word behind it is its value even if it looks like a flag. -/
  takesHyphens : Bool
deriving DecidableEq, Repr

def Flag.mark (name : String) (short : Option Char) : Flag := ⟨name, none, short, none, false⟩

def Flag.value (name : String) (short : Option Char) (kind : ValueKind) : Flag :=
  ⟨name, none, short, some kind, false⟩

structure Grammar where
  flags : List Flag
  paths : Nat
deriving DecidableEq, Repr

namespace Grammar

def long? (grammar : Grammar) (name : String) : Option Flag :=
  grammar.flags.find? fun flag => flag.name = name || flag.otherName = some name

def short? (grammar : Grammar) (name : Char) : Option Flag :=
  grammar.flags.find? fun flag => flag.short = some name

end Grammar

inductive Stop where
  | usage
  | help
  | version
deriving DecidableEq, Repr

/-- What a command line gives: flags with their values, and paths that stand alone, the latest
first. -/
structure Given where
  flags : List (String × String)
  paths : List Path
deriving DecidableEq, Repr

namespace Given

def empty : Given := ⟨[], []⟩

def has (given : Given) (flag : Flag) : Bool := given.flags.any (·.1 = flag.name)

def value? (given : Given) (flag : Flag) : Option String :=
  (given.flags.find? (·.1 = flag.name)).map Prod.snd

def addFlag (given : Given) (flag : Flag) (value : String) : Except Stop Given :=
  if given.has flag then .error .usage
  else .ok { given with flags := (flag.name, value) :: given.flags }

def addValue (given : Given) (flag : Flag) (kind : ValueKind) (text : String) :
    Except Stop Given :=
  if kind.accepts text then given.addFlag flag text else .error .usage

def addPath (given : Given) (grammar : Grammar) (path : Path) : Except Stop Given :=
  if ValueKind.path.accepts path && given.paths.length < grammar.paths then
    .ok { given with paths := path :: given.paths }
  else .error .usage

end Given

namespace Flags

def helpFlag : Flag := .mark "help" (some 'h')
def versionFlag : Flag := .mark "version" (some 'V')

abbrev Waiting := Option (Flag × ValueKind)

def meet (flag : Flag) (given : Given) : Except Stop Given :=
  if flag = helpFlag then .error .help
  else if flag = versionFlag then .error .version
  else given.addFlag flag ""

def splitLong (word : List Char) : String × Option String :=
  (String.ofList (word.takeWhile (· ≠ '=')),
    match word.dropWhile (· ≠ '=') with
    | [] => none
    | _ :: value => some (String.ofList value))

def takeLong (grammar : Grammar) (word : List Char) (given : Given) :
    Except Stop (Given × Waiting) :=
  let (name, value) := splitLong word
  match grammar.long? name with
  | none => .error .usage
  | some flag =>
    match flag.takes, value with
    | some kind, some value => (fun given => (given, none)) <$> given.addValue flag kind value
    | some kind, none => .ok (given, some (flag, kind))
    | none, some _ => .error .usage
    | none, none => (fun given => (given, none)) <$> meet flag given

def takeShort (grammar : Grammar) (given : Given) :
    List Char → Except Stop (Given × Waiting)
  | [] => .ok (given, none)
  | c :: rest =>
    match grammar.short? c with
    | none => .error .usage
    | some flag =>
      match flag.takes, rest with
      | some kind, [] => .ok (given, some (flag, kind))
      | some kind, '=' :: value | some kind, value =>
        (fun given => (given, none)) <$> given.addValue flag kind (String.ofList value)
      | none, rest =>
        match meet flag given with
        | .ok given => takeShort grammar given rest
        | .error stop => .error stop

def takePaths (grammar : Grammar) (given : Given) : List String → Except Stop Given
  | [] => .ok given
  | word :: rest =>
    match given.addPath grammar word with
    | .ok given => takePaths grammar given rest
    | .error stop => .error stop

def take (grammar : Grammar) (given : Given) :
    Waiting → List String → Except Stop Given
  | none, [] => .ok given
  | some _, [] => .error .usage
  | some (flag, kind), word :: rest =>
    if flag.takesHyphens || word = "-" || word.toList.head? ≠ some '-' then
      match given.addValue flag kind word with
      | .ok given => take grammar given none rest
      | .error stop => .error stop
    else .error .usage
  | none, word :: rest =>
    match word.toList with
    | '-' :: '-' :: [] => takePaths grammar given rest
    | '-' :: '-' :: long =>
      match takeLong grammar long given with
      | .ok (given, waiting) => take grammar given waiting rest
      | .error stop => .error stop
    | '-' :: c :: short =>
      match takeShort grammar given (c :: short) with
      | .ok (given, waiting) => take grammar given waiting rest
      | .error stop => .error stop
    | _ =>
      match given.addPath grammar word with
      | .ok given => take grammar given none rest
      | .error stop => .error stop

def read (grammar : Grammar) (words : List String) : Except Stop Given :=
  take grammar .empty none words

end Flags

/-!
The commands, their flags, and the values the flags take.
-/

open Number (Single)

structure LoadArguments where
  model : Option Path
  memory : Bool
  noMapping : Bool
  ceiling : Option UInt64
  allowInvalidMagic : Bool
  exe : Option Path
  settings : Option Path
  json : Bool
  contextSize : Option UInt32
  gpuLayers : Option Int32
  predictions : Option Int32
  seed : Option UInt32
  temperature : Option Single
  topK : Option UInt32
  topP : Option Single
  minP : Option Single
deriving DecidableEq, Repr

namespace LoadArguments

def none : LoadArguments :=
  ⟨.none, false, false, .none, false, .none, .none, false, .none, .none, .none, .none, .none,
    .none, .none, .none⟩

/-- Settings for loading: what a file or the default says, with the arguments on top. -/
def applyLoad (arguments : LoadArguments) (file : LoadSettings) : LoadSettings where
  modelPath := arguments.model.or file.modelPath
  forceCopy := file.forceCopy || arguments.memory
  useMapping := file.useMapping && !arguments.noMapping
  ceiling := arguments.ceiling.getD file.ceiling
  policy := if arguments.allowInvalidMagic then .warn else file.policy

def applyEngine (arguments : LoadArguments) (file : EngineSettings) : EngineSettings :=
  { file with
    contextSize := arguments.contextSize.getD file.contextSize
    gpuLayers := arguments.gpuLayers.getD file.gpuLayers
    predictions := arguments.predictions.getD file.predictions
    seed := arguments.seed.getD file.seed
    temperature := arguments.temperature.getD file.temperature
    topK := arguments.topK.getD file.topK
    topP := arguments.topP.getD file.topP
    minP := arguments.minP.getD file.minP }

/-- Both, where forcing a copy has switched mapping off. -/
def resolve (arguments : LoadArguments) (file : FileSettings) : FileSettings where
  load := (arguments.applyLoad file.load).resolve
  engine := arguments.applyEngine file.engine

end LoadArguments

inductive Task where
  | embed (host model output : Path) (align : Bool)
  | inspect (path : Path) (json : Bool)
  | load (arguments : LoadArguments)
deriving DecidableEq, Repr

structure Invocation where
  verbose : Bool
  task : Task
deriving DecidableEq, Repr

namespace Invocation

open Flags

def verboseFlag : Flag := .mark "verbose" (some 'v')

/-! Flags. -/

def outputFlag : Flag := .value "output" (some 'o') .path
def alignFlag : Flag := .mark "align" none
def jsonFlag : Flag := .mark "json" none
def modelFlag : Flag := .value "model" (some 'm') .path
def memoryFlag : Flag := .mark "memory" none
def noMappingFlag : Flag := .mark "no-mmap" none
def ceilingFlag : Flag := .value "mmap-ceiling" none .word64
def allowInvalidMagicFlag : Flag := .mark "allow-invalid-magic" none
def exeFlag : Flag := .value "exe" none .path
def settingsFlag : Flag := .value "config" none .path
def contextSizeFlag : Flag := .value "ctx-size" (some 'c') .word32
def gpuLayersFlag : Flag := ⟨"n-gpu-layers", some "ngl", none, some .int32, true⟩
def predictionsFlag : Flag := ⟨"n-predict", none, some 'n', some .int32, true⟩
def seedFlag : Flag := .value "seed" (some 's') .word32
def temperatureFlag : Flag := .value "temperature" none .single
def topKFlag : Flag := .value "top-k" none .word32
def topPFlag : Flag := .value "top-p" none .single
def minPFlag : Flag := .value "min-p" none .single

def frontGrammar : Grammar := ⟨[verboseFlag, helpFlag, versionFlag], 0⟩

def embedGrammar : Grammar := ⟨[verboseFlag, helpFlag, outputFlag, alignFlag], 2⟩

def inspectGrammar : Grammar := ⟨[verboseFlag, helpFlag, jsonFlag], 1⟩

def loadGrammar : Grammar where
  flags := [verboseFlag, helpFlag, modelFlag, memoryFlag, noMappingFlag, ceilingFlag,
    allowInvalidMagicFlag, exeFlag, settingsFlag, jsonFlag, contextSizeFlag, gpuLayersFlag,
    predictionsFlag, seedFlag, temperatureFlag, topKFlag, topPFlag, minPFlag]
  paths := 0

/-! Commands. -/

def embedTask (given : Given) : Except Stop Task :=
  match given.paths, given.value? outputFlag with
  | [model, host], some output => .ok (.embed host model output (given.has alignFlag))
  | _, _ => .error .usage

def inspectTask (given : Given) : Except Stop Task :=
  match given.paths with
  | [path] => .ok (.inspect path (given.has jsonFlag))
  | _ => .error .usage

def loadTask (given : Given) : Except Stop Task :=
  .ok (.load {
    model := given.value? modelFlag
    memory := given.has memoryFlag
    noMapping := given.has noMappingFlag
    ceiling := (given.value? ceilingFlag).bind Value.word64?
    allowInvalidMagic := given.has allowInvalidMagicFlag
    exe := given.value? exeFlag
    settings := given.value? settingsFlag
    json := given.has jsonFlag
    contextSize := (given.value? contextSizeFlag).bind Value.word32?
    gpuLayers := (given.value? gpuLayersFlag).bind Value.int32?
    predictions := (given.value? predictionsFlag).bind Value.int32?
    seed := (given.value? seedFlag).bind Value.word32?
    temperature := (given.value? temperatureFlag).bind Single.parse?
    topK := (given.value? topKFlag).bind Value.word32?
    topP := (given.value? topPFlag).bind Single.parse?
    minP := (given.value? minPFlag).bind Single.parse? })

def command? (name : String) : Option (Grammar × (Given → Except Stop Task)) :=
  if name = "embed" then some (embedGrammar, embedTask)
  else if name = "inspect" then some (inspectGrammar, inspectTask)
  else if name = "load" then some (loadGrammar, loadTask)
  else none

def helpOn : List String → Stop
  | [] => .help
  | [name] => if name = "help" || (command? name).isSome then .help else .usage
  | _ => .usage

def readCommand (verbose : Bool) (name : String) (words : List String) :
    Except Stop Invocation :=
  if name = "help" then .error (helpOn words)
  else match command? name with
    | none => .error .usage
    | some (grammar, task) => do
      let given ← Flags.read grammar words
      return ⟨verbose || given.has verboseFlag, ← task given⟩

def readFront (verbose : Bool) : List String → Except Stop Invocation
  | [] => .error .usage
  | word :: rest =>
    match word.toList with
    | '-' :: '-' :: [] => .error .usage
    | '-' :: _ :: _ =>
      match Flags.read frontGrammar [word] with
      | .error stop => .error stop
      | .ok given =>
        if verbose && given.has verboseFlag then .error .usage
        else readFront (verbose || given.has verboseFlag) rest
    | _ => readCommand verbose word rest

def read (words : List String) : Except Stop Invocation := readFront false words

end Invocation

end ModelBundle.Command
