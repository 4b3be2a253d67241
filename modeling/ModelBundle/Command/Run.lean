import ModelBundle.Bundle
import ModelBundle.Command.Arguments
import ModelBundle.Document.Text
import ModelBundle.Inspection
import ModelBundle.Loader

/-!
Running commands and printing what comes of them.  Accounts for reading are tables of two columns,
drawn with dashes and bars.
-/

namespace ModelBundle.Command.Grid

abbrev Row := String × String

def header : Row := ("Field", "Value")

private def width (rows : List Row) (column : Row → String) : Nat :=
  rows.foldl (fun most row => max most (column row).length) 0

private def padded (text : String) (width : Nat) : String :=
  " " ++ text ++ String.ofList (List.replicate (width - text.length + 1) ' ')

private def line (left right : Nat) (row : Row) : String :=
  "|" ++ padded row.1 left ++ "|" ++ padded row.2 right ++ "|"

private def rule (left right : Nat) : String :=
  let dashes := fun width => String.ofList (List.replicate (width + 2) '-')
  "+" ++ dashes left ++ "+" ++ dashes right ++ "+"

def render (rows : List Row) : String :=
  let rows := header :: rows
  let left := width rows Prod.fst
  let right := width rows Prod.snd
  let edge := rule left right
  String.intercalate "\n" (edge :: rows.flatMap fun row => [line left right row, edge])

example : render [("a", "b")] =
    "+-------+-------+\n| Field | Value |\n+-------+-------+\n" ++
      "| a     | b     |\n+-------+-------+" := by
  decide

end ModelBundle.Command.Grid

/-!
What commands print: a description of a file and an account of a load, each as a document or for
reading.
-/

namespace ModelBundle.Command

open Document (Content)

namespace Report

def image (summary : ImageSummary) : Content :=
  .record [("format", .string summary.format.tag), ("is_64", .bool summary.is64),
    ("entry", .number summary.entry.toNat), ("is_executable", .bool summary.isExecutable),
    ("image_end", .number summary.imageEnd.toNat)]

def trailer (trailer : Trailer) : Content :=
  .record [("offset", .number trailer.offset.toNat), ("size", .number trailer.size.toNat)]

def bytes (bytes : Bytes) : Content := .list (bytes.map fun byte => .number byte.toNat)

def inspection (i : Inspection) : Content :=
  .record [("file_len", .number i.fileSize), ("host", .optional image i.host),
    ("trailer", .optional trailer i.trailer), ("payload_magic", .optional bytes i.payloadMagic),
    ("payload_valid", .bool i.payloadValid)]

private def hostRows (host : Option ImageSummary) : List Grid.Row :=
  match host with
  | some image =>
    [("Host format", image.format.name ++ " (" ++ toString image.bits ++ "-bit)"),
      ("Entry point", Note.hexNumber image.entry.toNat),
      ("Image end", Note.hexNumber image.imageEnd.toNat)]
  | none => [("Host format", "unknown")]

private def payloadRows (trailer : Option Trailer) : List Grid.Row :=
  match trailer with
  | some trailer =>
    [("Payload offset", toString trailer.offset), ("Payload size", toString trailer.size)]
  | none => [("Payload", "none embedded")]

private def magicRows (magic : Option Bytes) (valid : Bool) : List Grid.Row :=
  match magic with
  | some magic => [("Payload magic", if valid then "GGUF" else Bytes.hexList magic)]
  | none => []

def rows (i : Inspection) : List Grid.Row :=
  ("File size", toString i.fileSize) :: hostRows i.host ++
    (i.overlayLength.toList.map fun n => ("Overlay", toString n)) ++
    payloadRows i.trailer ++ magicRows i.payloadMagic i.payloadValid

end Report

structure Loaded where
  source : Source
  kind : PayloadKind
  size : Nat
  valid : Bool
  stages : List Stage
  engineArguments : String
  recorded : String
deriving DecidableEq, Repr

namespace Report

def source : Source → Content
  | .embedded exe offset size =>
    .record [("kind", .string "embedded"), ("exe", .string exe), ("offset", .number offset.toNat),
      ("size", .number size.toNat)]
  | .file path => .record [("kind", .string "file"), ("path", .string path)]

def loaded (report : Loaded) : Content :=
  .record [("source", source report.source), ("kind", .string report.kind.name),
    ("bytes", .number report.size), ("valid", .bool report.valid),
    ("states", .list (report.stages.map fun stage => .string stage.name)),
    ("engine_args", .string report.engineArguments)]

def manner : PayloadKind → String
  | .mapped => "mapped"
  | .buffered => "loaded into memory"

def loadedLines (report : Loaded) (address : String) : List String :=
  ["✓ model " ++ manner report.kind ++ ": " ++ Note.megabytes report.size ++ " at " ++ address] ++
    (if report.valid then [] else ["! payload does not carry the GGUF magic"]) ++
    ["engine args: " ++ report.recorded]

end Report

end ModelBundle.Command

/-!
Running a command on a world.  A command ends with what it prints, or fails with a context and a
cause.
-/

namespace ModelBundle.Command

/-- What a command finds besides the files: how the system maps them, which program is running or
why that cannot be told, and which paths are Unicode text. -/
structure Surroundings where
  page : Page
  executable : Except Fault Path
  isText : Path → Bool

def Surroundings.usual : Surroundings := ⟨.usual, .ok FileSystem.program, fun _ => true⟩

/-- Where to look for a payload: in the file that is named, or in the program itself. -/
def LoadArguments.executable (arguments : LoadArguments) (surroundings : Surroundings) :
    Except Fault Path :=
  match arguments.exe with
  | some exe => .ok exe
  | .none => surroundings.executable

inductive Failure where
  | embedding (model : Path) (error : LoadError)
  | inspecting (path : Path) (error : LoadError)
  | settingsUnreadable (path : Path) (fault : Fault)
  | settingsInvalid (path : Path) (flaw : Document.Flaw)
  | unlocated (fault : Fault)
  | loading (error : LoadError)
  | handingOff (error : LoadError)
  /-- A document cannot hold a path that is not Unicode text. -/
  | unprintable (path : Path)
deriving DecidableEq, Repr

namespace Failure

def context : Failure → String
  | embedding model _ => "failed to embed " ++ model
  | inspecting path _ => "cannot inspect " ++ path
  | settingsUnreadable path _ => "cannot read config " ++ path
  | settingsInvalid path _ => "invalid config " ++ path
  | unlocated _ => "cannot resolve the running executable"
  | loading _ => "failed to load model"
  | handingOff error => error.message
  | unprintable _ => "path contains invalid UTF-8 characters"

def flawText : Document.Flaw → String
  | .malformed => "malformed document"
  | .unfit => "unfit value"
  | .cutOff => "document ends too early"

/-- The cause below the context, unless the failure stands for itself. -/
def cause : Failure → Option String
  | embedding _ error | inspecting _ error | loading error => some error.message
  | settingsUnreadable _ fault | unlocated fault => some fault.message
  | settingsInvalid _ flaw => some (flawText flaw)
  | handingOff _ | unprintable _ => none

def indented (text : String) : String :=
  String.ofList (text.toList.flatMap fun c => if c = '\n' then "\n    ".toList else [c])

def report (context : String) (cause : Option String) : String :=
  "Error: " ++ context ++
    match cause with
    | some cause => "\n\nCaused by:\n    " ++ indented cause
    | none => ""

end Failure

inductive Output where
  | embedded (trailer : Trailer) (out : Path)
  | inspected (inspection : Inspection) (json : Bool)
  | loaded (report : Loaded) (json : Bool)
deriving DecidableEq, Repr

/-- The text of an output, without the last line end; `address` says where loaded bytes are. -/
def Output.text (address : String) : Output → String
  | embedded trailer out =>
    "Embedded " ++ toString trailer.size ++ " bytes at offset " ++ toString trailer.offset ++
      " -> " ++ out
  | inspected inspection true => (Report.inspection inspection).print
  | inspected inspection false => Grid.render (Report.rows inspection)
  | loaded report true => (Report.loaded report).print
  | loaded report false => String.intercalate "\n" (Report.loadedLines report address)

def logLine (note : Note) : String :=
  let name := note.level.name
  let fill := String.ofList (List.replicate (5 - name.length) ' ')
  "[" ++ name ++ fill ++ " " ++ note.topic ++ "] " ++ Failure.indented note.text

abbrev Run (α : Type) := World → Except Failure α × World

def failingAs {α : Type} (wrap : LoadError → Failure) (step : Action World α) : Run α :=
  fun world =>
    match step world with
    | (.ok value, world) => (.ok value, world)
    | (.error error, world) => (.error (wrap error), world)

def readSettings (path : Option Path) (world : World) : Except Failure FileSettings :=
  match path with
  | none => .ok .default
  | some path =>
    match world.files.readWhole path with
    | .error fault => .error (.settingsUnreadable path fault)
    | .ok bytes =>
      match String.fromUTF8? bytes.toByteArray with
      | none => .error (.settingsUnreadable path .notText)
      | some text =>
        match FileSettings.ofText text with
        | .error flaw => .error (.settingsInvalid path flaw)
        | .ok settings => .ok settings

/-- The end of a load: engine, consumer and loader let go, in this order. -/
def finish (id : Nat) (engine : Engine) (loader : Loader) (world : World) : World :=
  let (world, _) := Engine.stop (world, engine)
  (Loader.release (world.letGo id, loader)).1

/-- The end of a load that fails late: the same go, and nothing is told. -/
def abandon (id : Nat) (engine : Engine) (loader : Loader) (world : World) : World :=
  let (world, _) := Engine.stop (world, engine)
  Loader.drop (world.letGo id, loader)

def account (model : Model) (loader : Loader) (engine : Engine) (arguments : String) : Loaded where
  source := model.source
  kind := model.payload.kind
  size := model.bytes.length
  valid := model.valid
  stages := loader.history
  engineArguments := arguments
  recorded := engine.arguments

/-- Hands a loaded model to a recording engine, gives an account of it, and lets everything go. -/
def handOver (surroundings : Surroundings) (json : Bool) (id : Nat) (settings : EngineSettings)
    (loader : Loader) : Run Loaded := fun world =>
  match handOff (Engine.accept true) id settings (world, .idle) with
  | (.error error, (world, engine)) => (.error (.handingOff error), abandon id engine loader world)
  | (.ok arguments, (world, engine)) =>
    match world.model? id with
    | none => (.error (.handingOff (.refused [emptyPayload])), abandon id engine loader world)
    | some model =>
      if json && !surroundings.isText model.source.path then
        (.error (.unprintable model.source.path), abandon id engine loader world)
      else (.ok (account model loader engine arguments), finish id engine loader world)

def runLoad (surroundings : Surroundings) (arguments : LoadArguments) : Run Loaded := fun world =>
  match readSettings arguments.settings world with
  | .error failure => (.error failure, world)
  | .ok file =>
    match arguments.executable surroundings with
    | .error fault => (.error (.unlocated fault), world)
    | .ok exe =>
      let settings := arguments.resolve file
      let world := if settings.load.modelPath.isNone then world.note (.relyingOn exe) else world
      let loader := Loader.new settings.load (Mapper.system surroundings.page)
      match Loader.load (some exe) (world, loader) with
      | (.error error, (world, _)) => (.error (.loading error), world)
      | (.ok id, (world, loader)) =>
        handOver surroundings arguments.json id settings.engine loader world

def run (surroundings : Surroundings) (task : Task) : Run Output := fun world =>
  match task with
  | .embed host model output align =>
    let align := if align then some (Mapping.granularity surroundings.page) else none
    match failingAs (.embedding model) (Bundle.embed host model output align) world with
    | (.ok trailer, world) => (.ok (.embedded trailer output), world)
    | (.error failure, world) => (.error failure, world)
  | .inspect path json =>
    match failingAs (.inspecting path) (Inspection.inspect path surroundings.page) world with
    | (.ok inspection, world) => (.ok (.inspected inspection json), world)
    | (.error failure, world) => (.error failure, world)
  | .load arguments =>
    match runLoad surroundings arguments world with
    | (.ok report, world) => (.ok (.loaded report arguments.json), world)
    | (.error failure, world) => (.error failure, world)

/-! Whole command lines. -/

inductive Outcome where
  | stopped (stop : Stop)
  | failed (failure : Failure)
  | finished (output : Output)
deriving DecidableEq, Repr

def Outcome.exitCode : Outcome → Nat
  | stopped .usage => 2
  | stopped .help | stopped .version => 0
  | failed _ => 1
  | finished _ => 0

def version : String := "umekomi 0.1.0"

def Invocation.level (invocation : Invocation) : Level :=
  if invocation.verbose then .debug else .info

def level (words : List String) : Level :=
  match Invocation.read words with
  | .ok invocation => invocation.level
  | .error _ => .info

def perform (words : List String) (world : World) (surroundings : Surroundings := .usual) :
    Outcome × World :=
  match Invocation.read words with
  | .error stop => (.stopped stop, world)
  | .ok invocation =>
    match run surroundings invocation.task world with
    | (.ok output, world) => (.finished output, world)
    | (.error failure, world) => (.failed failure, world)

end ModelBundle.Command
