import ModelBundle.Basic

/-!
What can go wrong, from the conditions that the operating system reports to the errors of the
library, and work that may fail.  Each fault knows its wording; a system condition also its
number.
-/

namespace ModelBundle

inductive SystemCode where
  | noSuchFile
  | permissionDenied
  | busy
  | alreadyExists
  | noSuchDevice
  | notADirectory
  | isADirectory
  | invalidArgument
  | fileTooLarge
  | nameTooLong
  | directoryNotEmpty
  | tooManyLinks
deriving DecidableEq, Repr

namespace SystemCode

def number : SystemCode → Nat
  | noSuchFile => 2
  | permissionDenied => 13
  | busy => 16
  | alreadyExists => 17
  | noSuchDevice => 19
  | notADirectory => 20
  | isADirectory => 21
  | invalidArgument => 22
  | fileTooLarge => 27
  | nameTooLong => 36
  | directoryNotEmpty => 39
  | tooManyLinks => 40

def description : SystemCode → String
  | noSuchFile => "No such file or directory"
  | permissionDenied => "Permission denied"
  | busy => "Device or resource busy"
  | alreadyExists => "File exists"
  | noSuchDevice => "No such device"
  | notADirectory => "Not a directory"
  | isADirectory => "Is a directory"
  | invalidArgument => "Invalid argument"
  | fileTooLarge => "File too large"
  | nameTooLong => "File name too long"
  | directoryNotEmpty => "Directory not empty"
  | tooManyLinks => "Too many levels of symbolic links"

def message (code : SystemCode) : String :=
  code.description ++ " (os error " ++ toString code.number ++ ")"

end SystemCode

inductive Refusal where
  | capacity
  | allocator
  | wholeFile
deriving DecidableEq, Repr

def Refusal.message (size : Nat) : Refusal → String
  | capacity => "cannot allocate " ++ toString size ++ " bytes: memory allocation failed " ++
      "because the computed capacity exceeded the collection's maximum"
  | allocator => "cannot allocate " ++ toString size ++ " bytes: memory allocation failed " ++
      "because the memory allocator returned an error"
  | wholeFile => "out of memory"

inductive Fault where
  | system (code : SystemCode)
  /-- A path with a zero character in it names nothing. -/
  | zeroInPath
  /-- A length that no file can be asked to have. -/
  | lengthOutOfRange
  /-- The input ended inside a value of fixed width. -/
  | endOfInput
  | outOfMemory (size : Nat) (refusal : Refusal)
  /-- The output of an operation is also one of its inputs. -/
  | overwritesInput (path : String)
  | notText
  | other (text : String)
deriving DecidableEq, Repr

def Fault.message : Fault → String
  | system code => code.message
  | zeroInPath => "file name contained an unexpected NUL byte"
  | lengthOutOfRange => "out of range integral type conversion attempted"
  | endOfInput => "failed to fill whole buffer"
  | outOfMemory size refusal => refusal.message size
  | overwritesInput path => "output " ++ path ++ " would overwrite an input"
  | notText => "stream did not contain valid UTF-8"
  | other text => text

/-!
Why a load, an inspection or an embedding fails.  Finding no embedded payload is not among these:
it is an ordinary outcome.  Every error has one wording.
-/

inductive ImageFault where
  | unsupported
  /-- A known format whose headers do not hold together. -/
  | malformed (what : String)
deriving DecidableEq, Repr

def ImageFault.message : ImageFault → String
  | unsupported => "not an ELF, PE or Mach-O image"
  | malformed what => what

inductive MapFault where
  | emptyRange
  | overflow
  | pastEnd (fileSize : Nat)
  | granularity
  | addressSpace
  | system (code : SystemCode)
  | other (text : String)
deriving DecidableEq, Repr

def MapFault.message : MapFault → String
  | emptyRange => "empty range"
  | overflow => "range overflows u64"
  | pastEnd fileSize => "file is only " ++ toString fileSize ++ " bytes"
  | granularity => "invalid granularity"
  | addressSpace => "range exceeds the address space"
  | system code => code.message
  | other text => text

inductive LoadError where
  | notFound (path : Path)
  | tooSmall (path : Path) (length minimum : Nat)
  /-- A trailer that was already relied on does not fit the file. -/
  | sizeMismatch (offset size : UInt64) (fileSize : Nat)
  | mapFailed (offset size : UInt64) (cause : MapFault)
  /-- Fewer bytes were there than a buffer was to hold. -/
  | shortRead (offset expected : UInt64) (actual : Nat)
  | invalidMagic (found : Bytes)
  | noModel
  | alreadyLoaded
  | alreadyEmbedded (path : Path) (offset size : UInt64)
  | unknownHost (cause : ImageFault)
  /-- The engine refused the model, for reasons listed outermost first. -/
  | refused (reasons : List String)
  | io (fault : Fault)
deriving DecidableEq, Repr

namespace LoadError

def message : LoadError → String
  | notFound path => "file not found: " ++ path
  | tooSmall path length minimum =>
    path ++ " is too small: " ++ toString length ++ " bytes, need at least " ++ toString minimum
  | sizeMismatch offset size fileSize =>
    "trailer mismatch: offset " ++ toString offset ++ " + size " ++ toString size ++
      " + 16 != file size " ++ toString fileSize
  | mapFailed offset size cause =>
    "failed to map " ++ toString size ++ " bytes at offset " ++ toString offset ++ ": " ++
      cause.message
  | shortRead offset expected actual =>
    "short read at offset " ++ toString offset ++ ": expected " ++ toString expected ++
      " bytes, got " ++ toString actual
  | invalidMagic found =>
    "invalid GGUF magic: got " ++ Bytes.hexList found ++ ", expected 47 47 55 46"
  | noModel => "no embedded model found and no model path configured"
  | alreadyLoaded => "a model is already loaded; release it before loading another"
  | alreadyEmbedded path offset size =>
    path ++ " already carries an embedded payload (" ++ toString size ++ " bytes at offset " ++
      toString offset ++ ")"
  | unknownHost cause => "not a recognised executable: " ++ cause.message
  | refused reasons => "inference engine refused the model: " ++ String.intercalate ": " reasons
  | io fault => fault.message

/-- A missing file is an error of its own; any other failure to open stays what it is. -/
def ofOpen (path : Path) : Fault → LoadError
  | .system .noSuchFile => notFound path
  | other => io other

end LoadError

/-!
Work on a state that may fail.  What was done before a failure stays done, so every step that
must leave no trace says itself how it is undone.
-/

/-- A step that turns a state into a new one and gives a value or an error. -/
def Action (σ α : Type) := σ → Except LoadError α × σ

namespace Action

variable {σ τ α β : Type}

def fail (error : LoadError) : Action σ α := fun s => (.error error, s)

instance : Monad (Action σ) where
  pure value := fun s => (.ok value, s)
  bind step next := fun s =>
    match step s with
    | (.ok value, s) => next value s
    | (.error error, s) => (.error error, s)

def get : Action σ σ := fun s => (.ok s, s)

def modify (f : σ → σ) : Action σ Unit := fun s => (.ok (), f s)

def ofExcept : Except LoadError α → Action σ α
  | .ok value => pure value
  | .error error => fail error

def attempt (step : Action σ α) : Action σ (Except LoadError α) := fun s =>
  (.ok (step s).1, (step s).2)

def zoom (part : τ → σ) (put : τ → σ → τ) (step : Action σ α) : Action τ α := fun t =>
  ((step (part t)).1, put t (step (part t)).2)

@[simp] theorem pure_apply (value : α) (s : σ) : (pure value : Action σ α) s = (.ok value, s) := rfl

@[simp] theorem fail_apply (error : LoadError) (s : σ) :
    (fail error : Action σ α) s = (.error error, s) := rfl

theorem bind_apply (step : Action σ α) (next : α → Action σ β) (s : σ) :
    (step >>= next) s = match step s with
      | (.ok value, s) => next value s
      | (.error error, s) => (.error error, s) := rfl

theorem bind_ok {step : Action σ α} {next : α → Action σ β} {s s' : σ} {value : α}
    (h : step s = (.ok value, s')) : (step >>= next) s = next value s' := by
  simp [bind_apply, h]

theorem bind_error {step : Action σ α} {next : α → Action σ β} {s s' : σ} {error : LoadError}
    (h : step s = (.error error, s')) : (step >>= next) s = (.error error, s') := by
  simp [bind_apply, h]

@[simp] theorem get_apply (s : σ) : (get : Action σ σ) s = (.ok s, s) := rfl

@[simp] theorem modify_apply (f : σ → σ) (s : σ) : modify f s = (.ok (), f s) := rfl

@[simp] theorem ofExcept_apply (result : Except LoadError α) (s : σ) :
    ofExcept result s = (result, s) := by
  cases result <;> rfl

@[simp] theorem attempt_apply (step : Action σ α) (s : σ) :
    attempt step s = (.ok (step s).1, (step s).2) := rfl

@[simp] theorem zoom_apply (part : τ → σ) (put : τ → σ → τ) (step : Action σ α) (t : τ) :
    zoom part put step t = ((step (part t)).1, put t (step (part t)).2) := rfl

end Action

end ModelBundle
