import ModelBundle.Proofs.Commands.Settings
import ModelBundle.Proofs.Documents.Printed
import ModelBundle.Proofs.Loading.Sized
import ModelBundle.Proofs.Sessions.HandOff

/-!
What the load command comes to.  It fails over its settings file, over the program to look into,
over the load, and over a report that cannot be printed; and over nothing else: what a load hands
out has bytes, and the engine that records them refuses nothing.
-/

namespace ModelBundle.Command

open Document (Writes)

/-- What a load starts from: the world, in which it may be noted that there is no model file to fall
back on, and a loader with these settings. -/
def departure (page : Page) (exe : Path) (arguments : LoadArguments) (settings : FileSettings)
    (world : World) : Loader.Work :=
  let settings := (arguments.resolve settings).load
  (if settings.modelPath.isNone then world.note (.relyingOn exe) else world,
    .new settings (Mapper.system page))

theorem files_departure (page : Page) (exe : Path) (arguments : LoadArguments)
    (settings : FileSettings) (world : World) :
    (departure page exe arguments settings world).1.files = world.files := by
  unfold departure
  dsimp only
  split <;> rfl

def Loaded.ofModel (model : Model) (stages : List Stage) (arguments : String) : Loaded where
  source := model.source
  kind := model.payload.kind
  size := model.bytes.length
  valid := model.valid
  stages
  engineArguments := arguments
  recorded := arguments

theorem handOver_of_bytes {world : World} {id : Nat} {model : Model}
    (hmodel : world.model? id = some model) (hbytes : model.bytes ≠ [])
    (surroundings : Surroundings) (json : Bool) (settings : EngineSettings) (loader : Loader) :
    (handOver surroundings json id settings loader world).1 =
      if json && !surroundings.isText model.source.path then
        .error (.unprintable model.source.path)
      else .ok (.ofModel model loader.history (settings.arguments model.source.modelName)) := by
  have hstays : ∀ note, ((world.offered id model
      (settings.arguments model.source.modelName)).note note).model? id = some model :=
    fun _ => (World.model?_offered world id model _ id).trans hmodel
  unfold handOver
  rw [handOff_of_bytes hmodel hbytes]
  simp only [Engine.accept, if_true, Engine.idle, Except.map, Except.mapError, hstays, account,
    Loaded.ofModel]
  split <;> rfl

theorem readSettings_ne_handingOff (path : Option Path) (world : World) (error : LoadError) :
    readSettings path world ≠ .error (.handingOff error) := by
  unfold readSettings
  repeat' split
  all_goals simp

section Run

variable {surroundings : Surroundings} {arguments : LoadArguments} {world : World}
  {settings : FileSettings} {exe : Path}

def attempt (surroundings : Surroundings) (arguments : LoadArguments) (settings : FileSettings)
    (exe : Path) (world : World) : Except LoadError Nat × Loader.Work :=
  Loader.load (some exe) (departure surroundings.page exe arguments settings world)

/-- The command gets a model: its settings file, if there is one, can be read and is valid, it is
known where to look, and the load succeeds. -/
structure Gets (surroundings : Surroundings) (arguments : LoadArguments) (world : World)
    (settings : FileSettings) (exe : Path) (model : Model) : Prop where
  configured : SettingsSay world.files arguments.settings settings
  located : arguments.executable surroundings = .ok exe
  loads : ∃ id, (attempt surroundings arguments settings exe world).1 = .ok id ∧
    (attempt surroundings arguments settings exe world).2.1.model? id = some model

theorem Gets.unique {other : FileSettings} {elsewhere : Path} {model found : Model}
    (h : Gets surroundings arguments world settings exe model)
    (h' : Gets surroundings arguments world other elsewhere found) :
    settings = other ∧ exe = elsewhere ∧ model = found := by
  obtain rfl := h.configured.unique h'.configured
  obtain rfl := Except.ok.inj (h.located.symm.trans h'.located)
  obtain ⟨id, hid, hmodel⟩ := h.loads
  obtain ⟨id', hid', hmodel'⟩ := h'.loads
  obtain rfl := Except.ok.inj (hid.symm.trans hid')
  exact ⟨rfl, rfl, Option.some.inj (hmodel.symm.trans hmodel')⟩

/-- What the command says about the model that it gets. -/
def report (surroundings : Surroundings) (arguments : LoadArguments) (settings : FileSettings)
    (exe : Path) (world : World) (model : Model) : Loaded :=
  .ofModel model (attempt surroundings arguments settings exe world).2.2.history
    ((arguments.resolve settings).engine.arguments model.source.modelName)

theorem runLoad_eq (h : SettingsSay world.files arguments.settings settings)
    (hexe : arguments.executable surroundings = .ok exe) :
    runLoad surroundings arguments world =
      match attempt surroundings arguments settings exe world with
      | (.error error, (world, _)) => (.error (.loading error), world)
      | (.ok id, (world, loader)) =>
        handOver surroundings arguments.json id (arguments.resolve settings).engine loader
          world := by
  simp only [runLoad, readSettings_eq_ok_iff.mpr h, hexe]
  rfl

theorem exists_filled (limited : world.files.Limited) {id : Nat}
    (hid : (attempt surroundings arguments settings exe world).1 = .ok id) :
    ∃ selection model,
      Loader.selected (arguments.resolve settings).load world.files (some exe) = .ok selection ∧
      (attempt surroundings arguments settings exe world).2.1.model? id = some model ∧
      Loader.Filled selection (arguments.resolve settings).load.policy
        (attempt surroundings arguments settings exe world).2.2.history model := by
  have hfiles := files_departure surroundings.page exe arguments settings world
  have reached : Loader.Reached (arguments.resolve settings).load (Mapper.system surroundings.page)
      (departure surroundings.page exe arguments settings world).2 := .new
  have hid : (Loader.load (some exe)
      ((departure surroundings.page exe arguments settings world).1,
        (departure surroundings.page exe arguments settings world).2)).1 = .ok id := hid
  obtain ⟨selection, model, hselected, hmodel, filled⟩ :=
    Loader.load_filled reached rfl (hfiles.symm ▸ limited) hid
  rw [hfiles] at hselected
  exact ⟨selection, model, hselected, hmodel, filled⟩

theorem Gets.filled {model : Model} (h : Gets surroundings arguments world settings exe model)
    (limited : world.files.Limited) : ∃ selection,
      Loader.selected (arguments.resolve settings).load world.files (some exe) = .ok selection ∧
      Loader.Filled selection (arguments.resolve settings).load.policy
        (attempt surroundings arguments settings exe world).2.2.history model := by
  obtain ⟨id, hid, hmodel⟩ := h.loads
  obtain ⟨selection, found, hselected, hfound, filled⟩ := exists_filled limited hid
  cases hmodel.symm.trans hfound
  exact ⟨selection, hselected, filled⟩

theorem runLoad_of_gets {model : Model} (limited : world.files.Limited)
    (h : Gets surroundings arguments world settings exe model) :
    (runLoad surroundings arguments world).1 =
      if arguments.json && !surroundings.isText model.source.path then
        .error (.unprintable model.source.path)
      else .ok (report surroundings arguments settings exe world model) := by
  obtain ⟨selection, -, filled⟩ := h.filled limited
  obtain ⟨id, hid, hmodel⟩ := h.loads
  have hbytes : model.bytes ≠ [] := List.length_pos_iff.mp filled.pos
  rw [runLoad_eq h.configured h.located]
  unfold report
  rcases hload : attempt surroundings arguments settings exe world with ⟨result, after, loader⟩
  rw [hload] at hid hmodel
  obtain rfl : result = .ok id := hid
  exact handOver_of_bytes hmodel hbytes surroundings arguments.json _ loader

theorem runLoad_of_not_gets (limited : world.files.Limited)
    (h : ∀ settings exe model, ¬ Gets surroundings arguments world settings exe model) :
    ∃ failure, (runLoad surroundings arguments world).1 = .error failure ∧
      ∀ error, failure ≠ .handingOff error := by
  cases hread : readSettings arguments.settings world with
  | error failure =>
    refine ⟨failure, by simp only [runLoad, hread], ?_⟩
    rintro error rfl
    exact readSettings_ne_handingOff _ _ error hread
  | ok settings =>
    have hsettings := readSettings_eq_ok_iff.mp hread
    cases hexe : arguments.executable surroundings with
    | error fault => exact ⟨.unlocated fault, by simp only [runLoad, hread, hexe], by simp⟩
    | ok exe =>
      have hrun := runLoad_eq hsettings hexe
      rcases hload : attempt surroundings arguments settings exe world with
        ⟨error | id, after, loader⟩
      · rw [hload] at hrun
        exact ⟨.loading error, congrArg Prod.fst hrun, by simp⟩
      · obtain ⟨selection, model, -, hmodel, -⟩ := exists_filled limited (congrArg Prod.fst hload)
        exact absurd ⟨hsettings, hexe, id, congrArg Prod.fst hload, hmodel⟩ (h settings exe model)

end Run

/-- The account of a load that is given, and what is printed of it. -/
structure Reported (arguments : LoadArguments) (selection : Selection) (model : Model)
    (given : String) (report : Loaded) : Prop where
  recorded : report.recorded = given
  ready : report.stages.getLast? = some .ready
  /-- A document, whatever the address of the bytes. -/
  document : arguments.json = true → ∀ address, ∃ document,
    Writes (Output.text address (.loaded report true)) document ∧
    (Document.Content.record [("source", Report.source model.source),
      ("kind", .string model.payload.kind.name), ("bytes", .number selection.size.toNat),
      ("valid", .bool model.valid),
      ("states", .list (report.stages.map fun stage => .string stage.name)),
      ("engine_args", .string given)]).Tells document
  lines : arguments.json = false → ∀ address, Output.text address (.loaded report false) =
    "✓ model " ++ Report.manner model.payload.kind ++ ": " ++
      Note.megabytes selection.size.toNat ++ " at " ++ address ++
      (if model.valid then "" else "\n! payload does not carry the GGUF magic") ++
      "\nengine args: " ++ given

/-- How the load command ends. -/
structure LoadCommand (surroundings : Surroundings) (arguments : LoadArguments) (world : World)
    (ended : Except Failure Loaded) : Prop where
  /-- It succeeds if it gets a model and can print the path of its source. -/
  succeeds : (∃ report, ended = .ok report) ↔ ∃ settings exe model,
    Gets surroundings arguments world settings exe model ∧
      (arguments.json = true → surroundings.isText model.source.path = true)
  handedOver : ∀ error, ended ≠ .error (.handingOff error)
  exit : ∀ words verbose, Invocation.read words = .ok ⟨verbose, .load arguments⟩ →
    ((perform words world surroundings).1.exitCode = 0 ↔ ∃ report, ended = .ok report)
  finished : ∀ words verbose report, Invocation.read words = .ok ⟨verbose, .load arguments⟩ →
    ended = .ok report →
      (perform words world surroundings).1 = .finished (.loaded report arguments.json)
  reported : ∀ report, ended = .ok report → ∃ settings exe model selection,
    Gets surroundings arguments world settings exe model ∧
    Loader.selected (arguments.resolve settings).load world.files (some exe) = .ok selection ∧
    model.bytes.length = selection.size.toNat ∧
    Reported arguments selection model
      ((arguments.resolve settings).engine.arguments model.source.modelName) report

theorem reported_report {surroundings : Surroundings} {arguments : LoadArguments} {world : World}
    {settings : FileSettings} {exe : Path} {model : Model} {selection : Selection}
    (filled : Loader.Filled selection (arguments.resolve settings).load.policy
      (attempt surroundings arguments settings exe world).2.2.history model) :
    Reported arguments selection model
      ((arguments.resolve settings).engine.arguments model.source.modelName)
      (report surroundings arguments settings exe world model) where
  recorded := rfl
  ready := filled.ready
  document _ _ := by
    rw [← filled.length]
    exact Document.Content.writes_print _
  lines _ address := by
    rw [← filled.length]
    simp only [Output.text, Report.loadedLines, report, Loaded.ofModel]
    apply String.toList_injective
    by_cases hvalid : model.valid = true <;> simp [hvalid]

theorem perform_load {words : List String} {verbose : Bool} {arguments : LoadArguments}
    (h : Invocation.read words = .ok ⟨verbose, .load arguments⟩) (surroundings : Surroundings)
    (world : World) : (perform words world surroundings).1 =
      match (runLoad surroundings arguments world).1 with
      | .ok report => .finished (.loaded report arguments.json)
      | .error failure => .failed failure := by
  simp only [perform, h, run]
  rcases runLoad surroundings arguments world with ⟨failure | report, after⟩ <;> rfl

/-- For all arguments, surroundings and worlds with files of possible lengths. -/
theorem runLoad_outcome (surroundings : Surroundings) (arguments : LoadArguments) (world : World)
    (limited : world.files.Limited) :
    LoadCommand surroundings arguments world (runLoad surroundings arguments world).1 := by
  have ends : (∃ settings exe model, Gets surroundings arguments world settings exe model ∧
        (arguments.json = true → surroundings.isText model.source.path = true) ∧
        (runLoad surroundings arguments world).1 =
          .ok (report surroundings arguments settings exe world model)) ∨
      (∃ failure, (runLoad surroundings arguments world).1 = .error failure ∧
        ∀ error, failure ≠ .handingOff error) ∧
      ¬ ∃ settings exe model, Gets surroundings arguments world settings exe model ∧
        (arguments.json = true → surroundings.isText model.source.path = true) := by
    by_cases hgets : ∃ settings exe model, Gets surroundings arguments world settings exe model
    · obtain ⟨settings, exe, model, gets⟩ := hgets
      have hrun := runLoad_of_gets limited gets
      by_cases hprintable : arguments.json = true → surroundings.isText model.source.path = true
      · refine .inl ⟨settings, exe, model, gets, hprintable, hrun.trans (if_neg ?_)⟩
        simpa using hprintable
      · refine .inr ⟨⟨_, hrun.trans (if_pos (by simpa using hprintable)), by simp⟩, ?_⟩
        rintro ⟨other, elsewhere, found, gets', hprints⟩
        obtain ⟨-, -, rfl⟩ := gets.unique gets'
        exact hprintable hprints
    · refine .inr ⟨runLoad_of_not_gets limited ?_, ?_⟩
      · exact fun settings exe model gets => hgets ⟨settings, exe, model, gets⟩
      · exact fun ⟨settings, exe, model, gets, _⟩ => hgets ⟨settings, exe, model, gets⟩
  refine ⟨?_, ?_, fun words verbose hread => ?_, fun words verbose report hread hok => ?_, ?_⟩
  · rcases ends with ⟨settings, exe, model, gets, hprints, hok⟩ | ⟨⟨failure, hfailed, -⟩, hnever⟩
    · exact iff_of_true ⟨_, hok⟩ ⟨settings, exe, model, gets, hprints⟩
    · refine iff_of_false ?_ hnever
      rintro ⟨report, hok⟩
      cases hfailed.symm.trans hok
  · rintro error herror
    rcases ends with ⟨_, _, _, -, -, hok⟩ | ⟨⟨failure, hfailed, hother⟩, -⟩
    · cases hok.symm.trans herror
    · cases hfailed.symm.trans herror
      exact hother error rfl
  · rw [perform_load hread]
    cases (runLoad surroundings arguments world).1 <;> simp [Outcome.exitCode]
  · rw [perform_load hread, hok]
  · rintro found hfound
    rcases ends with ⟨settings, exe, model, gets, -, hok⟩ | ⟨⟨failure, hfailed, -⟩, -⟩
    · cases hok.symm.trans hfound
      obtain ⟨selection, hselected, filled⟩ := gets.filled limited
      exact ⟨settings, exe, model, selection, gets, hselected, filled.length,
        reported_report filled⟩
    · cases hfailed.symm.trans hfound

/-- A bundle is named on the command line, and its payload is loaded with the default settings. -/
theorem runLoad_outcome_oneBundle :
    let world := World.ofFiles Loader.oneBundle
    let arguments : LoadArguments := { LoadArguments.none with exe := some "app", json := true }
    world.files.Limited ∧
      Invocation.read ["load", "--exe", "app", "--json"] = .ok ⟨false, .load arguments⟩ ∧
      (perform ["load", "--exe", "app", "--json"] world).1.exitCode = 0 := by
  intro world arguments
  have limited : world.files.Limited := fun handle content h =>
    (Loader.affordable_oneBundle.regular h).bounded
  have hread : Invocation.read ["load", "--exe", "app", "--json"] =
      .ok ⟨false, .load arguments⟩ := by decide +kernel
  have hid : (attempt .usual arguments .default "app" world).1 = .ok 0 := by decide +kernel
  obtain ⟨-, model, -, hmodel, -⟩ := exists_filled limited hid
  have command := runLoad_outcome .usual arguments world limited
  have gets : Gets .usual arguments world .default "app" model := ⟨rfl, rfl, 0, hid, hmodel⟩
  have hok := command.succeeds.mpr ⟨_, _, _, gets, fun _ => rfl⟩
  exact ⟨limited, hread, (command.exit _ _ hread).mpr hok⟩

theorem not_writes_of_mark (rest : List Char) (document : Document) :
    ¬ Writes (String.ofList ('✓' :: rest)) document := by
  intro h
  have hread := Document.decode_of_writes h fun _ => .ok ()
  simp [Document.decode, Document.value, Document.dropBlanks, Document.isBlank, bind,
    Except.bind] at hread

/-- The same bundle where its path is no text: the load succeeds and the command does not.  And
without the request for a document, none is printed. -/
theorem runLoad_of_unprintable :
    let world := World.ofFiles Loader.oneBundle
    let surroundings := { Surroundings.usual with isText := fun _ => false }
    let arguments : LoadArguments := { LoadArguments.none with exe := some "app", json := true }
    (SettingsSay world.files arguments.settings .default ∧
      arguments.executable surroundings = .ok "app" ∧
      (attempt surroundings arguments .default "app" world).1 = .ok 0 ∧
      (runLoad surroundings arguments world).1 = .error (.unprintable "app") ∧
      (perform ["load", "--exe", "app", "--json"] world surroundings).1.exitCode = 1) ∧
    ∃ report, (perform ["load", "--exe", "app"] world).1 = .finished (.loaded report false) ∧
      ∀ address document, ¬ Writes (Output.text address (.loaded report false)) document := by
  intro world surroundings arguments
  have hreport : ∃ report, (perform ["load", "--exe", "app"] world).1 =
      .finished (.loaded report false) := by
    have hread : Invocation.read ["load", "--exe", "app"] =
        .ok ⟨false, .load { arguments with json := false }⟩ := by decide +kernel
    rw [perform_load hread]
    have hok : (runLoad .usual { arguments with json := false } world).1.toOption.isSome := by
      decide +kernel
    cases hrun : (runLoad .usual { arguments with json := false } world).1 with
    | ok report => exact ⟨report, rfl⟩
    | error failure =>
      rw [hrun] at hok
      cases hok
  obtain ⟨report, hreport⟩ := hreport
  refine ⟨⟨rfl, rfl, by decide +kernel, by decide +kernel, by decide +kernel⟩, report, hreport, ?_⟩
  intro address document
  obtain ⟨rest, hrest⟩ : ∃ rest, (Output.text address (.loaded report false)).toList =
      '✓' :: rest := ⟨_, by simp [Output.text, Report.loadedLines]; rfl⟩
  have htext : String.ofList (Output.text address (.loaded report false)).toList = _ :=
    String.ofList_toList
  rw [← htext, hrest]
  exact not_writes_of_mark _ document

end ModelBundle.Command
