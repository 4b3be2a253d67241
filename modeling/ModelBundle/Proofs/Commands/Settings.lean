import ModelBundle.Command.Run
import ModelBundle.Document.Basic
import ModelBundle.Proofs.FileSystem.Walking
import ModelBundle.Proofs.Steps

/-!
Where settings come from.  A field of a record that is read from a document is the value that the
document gives for it, by name or by position, or else the default.  The order of the members does
not matter.
-/

namespace ModelBundle.Document

variable {σ α β : Type}

def names (fields : List (FieldOf σ)) : List String := fields.map FieldOf.name

/-- The document that stands for a field: the member of its name, or the item in its place. -/
def given? (names : List String) (name : String) : Document → Option Document
  | object members _ _ =>
    (members.find? fun member => member.1.text.toOption = some name).map Prod.snd
  | array items _ => ((names.zip items).find? (·.1 = name)).map Prod.snd
  | _ => none

def Told (read : Document → Except Flaw α) (default value : α) : Option Document → Prop
  | none => value = default
  | some document => read document = .ok value

theorem Told.eq {read : Document → Except Flaw α} {default value : α}
    {document : Option Document} (told : Told read default value document) :
    value = (document.bind fun document => (read document).toOption).getD default := by
  cases document with
  | none => exact told
  | some document =>
    have hread : read document = .ok value := told
    simp [hread, Except.toOption]

/-- Among these fields, the one of this name is read in this way and stored where `get` finds it,
and the others leave it alone. -/
def Located (fields : List (FieldOf σ)) (name : String) (read : Document → Except Flaw α)
    (get : σ → α) : Prop :=
  ∀ field ∈ fields, ∀ value change, field.read value = .ok change →
    (field.name = name → ∃ found, read value = .ok found ∧ ∀ record, get (change record) = found) ∧
    (field.name ≠ name → ∀ record, get (change record) = get record)

@[simp] theorem located_nil (name : String) (read : Document → Except Flaw α) (get : σ → α) :
    Located [] name read get :=
  fun _ h => absurd h List.not_mem_nil

theorem read_field_eq_ok {name : String} {read : Document → Except Flaw α} {store : σ → α → σ}
    {value : Document} {change : σ → σ} (h : (field name read store).read value = .ok change) :
    ∃ found, read value = .ok found ∧ change = fun record => store record found := by
  obtain ⟨found, hfound, hchange⟩ := bind_eq_ok_iff.mp h
  exact ⟨found, hfound, (Except.ok.inj hchange).symm⟩

theorem Located.here {fields : List (FieldOf σ)} {name : String}
    {read : Document → Except Flaw α} {get : σ → α} {store : σ → α → σ}
    (h : Located fields name read get) (hget : ∀ record value, get (store record value) = value) :
    Located (field name read store :: fields) name read get := by
  intro other hmem value change hchange
  rcases List.mem_cons.mp hmem with rfl | hmem
  · obtain ⟨found, hfound, rfl⟩ := read_field_eq_ok hchange
    exact ⟨fun _ => ⟨found, hfound, fun record => hget record found⟩, fun hne => absurd rfl hne⟩
  · exact h other hmem value change hchange

theorem Located.there {fields : List (FieldOf σ)} {name other : String}
    {read : Document → Except Flaw α} {get : σ → α} {read' : Document → Except Flaw β}
    {store : σ → β → σ} (h : Located fields name read get) (hne : other ≠ name)
    (hget : ∀ record value, get (store record value) = get record) :
    Located (field other read' store :: fields) name read get := by
  intro another hmem value change hchange
  rcases List.mem_cons.mp hmem with rfl | hmem
  · obtain ⟨found, -, rfl⟩ := read_field_eq_ok hchange
    exact ⟨fun heq => absurd heq hne, fun _ record => hget record found⟩
  · exact h another hmem value change hchange

section Record

variable {fields : List (FieldOf σ)} {name : String} {read : Document → Except Flaw α}
  {get : σ → α} {flaw : Option Flaw}

theorem get_takeMembers (located : Located fields name read get) (hname : name ∈ names fields)
    {members : List (Quoted × Document)} {seen : List String} {record result : σ}
    (h : takeMembers fields flaw seen record members = .ok result) :
    (name ∈ seen → get result = get record) ∧
    (name ∉ seen → Told read (get record) (get result)
      ((members.find? fun member => member.1.text.toOption = some name).map Prod.snd)) := by
  induction members generalizing seen record with
  | nil =>
    simp only [takeMembers, bind_eq_ok_iff] at h
    obtain ⟨-, -, h⟩ := h
    cases h
    exact ⟨fun _ => rfl, fun _ => rfl⟩
  | cons member rest ih =>
    obtain ⟨quoted, value⟩ := member
    simp only [takeMembers, bind_eq_ok_iff] at h
    obtain ⟨other, hother, h⟩ := h
    have hfirst : quoted.text.toOption = some other := by rw [hother]; rfl
    split at h
    · rename_i hfind
      simp only [bind_eq_ok_iff] at h
      obtain ⟨-, -, h⟩ := h
      have hne : other ≠ name := by
        rintro rfl
        obtain ⟨field, hmem, hfield⟩ := List.mem_map.mp hname
        have := List.find?_eq_none.mp hfind field hmem
        simp [hfield] at this
      simpa [hfirst, hne] using ih h
    · rename_i field hfind
      have hmem := List.mem_of_find?_eq_some hfind
      have hfield : field.name = other := by simpa using List.find?_some hfind
      split at h
      · cases h
      · rename_i hseen
        simp only [bind_eq_ok_iff] at h
        obtain ⟨change, hchange, h⟩ := h
        obtain ⟨hself, hkeep⟩ := located field hmem value change hchange
        by_cases heq : other = name
        · subst heq
          obtain ⟨found, hfound, hget⟩ := hself hfield
          have hnew : other ∉ seen := by simpa using hseen
          have hlater := (ih h).1 List.mem_cons_self
          rw [hget] at hlater
          exact ⟨fun hold => absurd hold hnew, fun _ => by
            simpa [hfirst, Told, hlater] using hfound⟩
        · have hget := hkeep (fun h => heq (hfield.symm.trans h)) record
          simpa [hfirst, heq, hget, Ne.symm heq] using ih h

theorem get_takeItems_of_not_mem (located : Located fields name read get)
    (hname : name ∉ names fields) {items : List Document} {record result : σ}
    (h : takeItems flaw record fields items = .ok result) : get result = get record := by
  induction fields generalizing items record with
  | nil =>
    cases items with
    | nil =>
      simp only [takeItems, bind_eq_ok_iff] at h
      obtain ⟨-, -, h⟩ := h
      cases h
      rfl
    | cons item rest => cases h
  | cons field fields ih =>
    cases items with
    | nil =>
      simp only [takeItems, bind_eq_ok_iff] at h
      obtain ⟨-, -, h⟩ := h
      cases h
      rfl
    | cons item rest =>
      simp only [takeItems, bind_eq_ok_iff] at h
      obtain ⟨change, hchange, h⟩ := h
      simp only [names, List.map_cons, List.mem_cons, not_or] at hname
      have hget := (located field List.mem_cons_self item change hchange).2 (Ne.symm hname.1)
      rw [ih (fun other hmem => located other (List.mem_cons_of_mem _ hmem)) hname.2 h, hget]

theorem get_takeItems (located : Located fields name read get) (distinct : (names fields).Nodup)
    {items : List Document} {record result : σ}
    (h : takeItems flaw record fields items = .ok result) :
    Told read (get record) (get result)
      ((((names fields).zip items).find? (·.1 = name)).map Prod.snd) := by
  induction fields generalizing items record with
  | nil =>
    cases items with
    | nil =>
      simp only [takeItems, bind_eq_ok_iff] at h
      obtain ⟨-, -, h⟩ := h
      cases h
      rfl
    | cons item rest => cases h
  | cons field fields ih =>
    cases items with
    | nil =>
      simp only [takeItems, bind_eq_ok_iff] at h
      obtain ⟨-, -, h⟩ := h
      cases h
      simp [Told]
    | cons item rest =>
      simp only [takeItems, bind_eq_ok_iff] at h
      obtain ⟨change, hchange, h⟩ := h
      obtain ⟨hself, hkeep⟩ := located field List.mem_cons_self item change hchange
      have hrest : Located fields name read get :=
        fun other hmem => located other (List.mem_cons_of_mem _ hmem)
      obtain ⟨hfresh, hdistinct⟩ := List.nodup_cons.mp distinct
      by_cases heq : field.name = name
      · obtain ⟨found, hfound, hget⟩ := hself heq
        have hlater := get_takeItems_of_not_mem hrest (heq ▸ hfresh) h
        rw [hget] at hlater
        simpa [names, heq, Told, hlater] using hfound
      · simpa [names, heq, hkeep heq] using ih hrest hdistinct h

/-- A field of a record is what the document says about it, or its default. -/
theorem get_record {default result : σ} {document : Document}
    (located : Located fields name read get) (hname : name ∈ names fields)
    (distinct : (names fields).Nodup) (h : record fields default document = .ok result) :
    Told read (get default) (get result) (given? (names fields) name document) := by
  cases document with
  | object members flaw misplaced => exact (get_takeMembers located hname h).2 List.not_mem_nil
  | array items flaw => exact get_takeItems located distinct h
  | null | bool | number | string | broken | brokenNumber => cases h

end Record

end ModelBundle.Document

/-!
Where settings come from: the command line, the settings file, the defaults.  A flag that is given
wins over the file, and the file wins over the default; only what is about mapping and about the
magic is put together from both.
-/

namespace ModelBundle

open Document

namespace LoadSettings

theorem resolve_eq (settings : LoadSettings) : settings.resolve =
    { settings with useMapping := settings.useMapping && !settings.forceCopy } := by
  obtain ⟨modelPath, forceCopy, useMapping, ceiling, policy⟩ := settings
  cases forceCopy <;> simp [resolve]

theorem located_fields :
    Located fields "model_path" optionalText modelPath ∧
      Located fields "force_heap" asBool forceCopy ∧
      Located fields "use_mmap" asBool useMapping ∧
      Located fields "mmap_ceiling" word64 ceiling ∧
      Located fields "invalid_magic" (choice MagicPolicy.ofName?) policy := by
  refine ⟨?_, ?_, ?_, ?_, ?_⟩
  all_goals
    repeat first
      | exact located_nil _ _ _
      | refine Located.here ?_ fun _ _ => rfl
      | refine Located.there ?_ (by decide) fun _ _ => rfl

end LoadSettings

namespace EngineSettings

theorem located_fields :
    (Located fields "ctx_size" word32 contextSize ∧
      Located fields "n_gpu_layers" int32 gpuLayers ∧
      Located fields "n_predict" int32 predictions ∧
      Located fields "seed" word32 seed ∧
      Located fields "temperature" single temperature ∧
      Located fields "top_k" word32 topK ∧
      Located fields "top_p" single topP ∧
      Located fields "min_p" single minP) ∧
    Located fields "n_batch" word32 batchSize ∧
      Located fields "grp_attn_n" word32 groupFactor ∧
      Located fields "grp_attn_w" word32 groupWidth ∧
      Located fields "rope_freq_base" single ropeBase ∧
      Located fields "rope_freq_scale" single ropeScale ∧
      Located fields "main_gpu" word32 mainGpu ∧
      Located fields "log_disable" asBool logDisabled := by
  refine ⟨⟨?_, ?_, ?_, ?_, ?_, ?_, ?_, ?_⟩, ?_, ?_, ?_, ?_, ?_, ?_, ?_⟩
  all_goals
    repeat first
      | exact located_nil _ _ _
      | refine Located.here ?_ fun _ _ => rfl
      | refine Located.there ?_ (by decide) fun _ _ => rfl

end EngineSettings

namespace FileSettings

theorem located_fields :
    Located fields "load" LoadSettings.ofDocument load ∧
      Located fields "engine" EngineSettings.ofDocument engine := by
  refine ⟨?_, ?_⟩
  all_goals
    repeat first
      | exact located_nil _ _ _
      | refine Located.here ?_ fun _ _ => rfl
      | refine Located.there ?_ (by decide) fun _ _ => rfl

def said? {σ α : Type} (part : String) (fields : List (FieldOf σ)) (name : String)
    (read : Document → Except Flaw α) (file : Option Document) : Option α :=
  ((file.bind (given? (names FileSettings.fields) part)).bind (given? (names fields) name)).bind
    fun document => (read document).toOption

/-- Settings as they stand in a document; without one they are the defaults. -/
def ReadFrom (file : Option Document) (settings : FileSettings) : Prop :=
  match file with
  | none => settings = .default
  | some document => record fields .default document = .ok settings

theorem ReadFrom.get {σ α : Type} {file : Option Document} {settings : FileSettings}
    {part name : String} {fields : List (FieldOf σ)} {inner : FileSettings → σ}
    {read : Document → Except Flaw α} {get : σ → α} (h : ReadFrom file settings)
    (hpart : Located FileSettings.fields part (record fields (inner .default)) inner)
    (hpartName : part ∈ names FileSettings.fields) (located : Located fields name read get)
    (hname : name ∈ names fields) (distinct : (names fields).Nodup) :
    get (inner settings) = (said? part fields name read file).getD (get (inner .default)) := by
  unfold said?
  cases file with
  | none =>
    have hdefault : settings = .default := h
    rw [hdefault]
    rfl
  | some document =>
    have told := get_record hpart hpartName (by decide) h
    simp only [Option.bind_some]
    cases hgiven : given? (names FileSettings.fields) part document with
    | none =>
      rw [hgiven] at told
      have hinner : inner settings = inner .default := told
      rw [hinner]
      rfl
    | some inside =>
      rw [hgiven] at told
      exact (get_record located hname distinct told).eq

end FileSettings

namespace Command

/-- What stands in the settings file, or the default without one. -/
def SettingsSay (files : FileSystem) (path : Option Path) (settings : FileSettings) : Prop :=
  match path with
  | none => settings = .default
  | some path => ∃ bytes text, files.readWhole path = .ok bytes ∧
      String.fromUTF8? bytes.toByteArray = some text ∧ FileSettings.ofText text = .ok settings

theorem readSettings_eq_ok_iff {path : Option Path} {world : World} {settings : FileSettings} :
    readSettings path world = .ok settings ↔ SettingsSay world.files path settings := by
  cases path with
  | none => simp [readSettings, SettingsSay, eq_comm]
  | some path =>
    simp only [readSettings, SettingsSay]
    cases world.files.readWhole path with
    | error fault => simp
    | ok bytes =>
      cases htext : String.fromUTF8? bytes.toByteArray with
      | none => simp [htext]
      | some text =>
        cases hsettings : FileSettings.ofText text <;> simp [htext, hsettings]

theorem SettingsSay.unique {files : FileSystem} {path : Option Path}
    {settings other : FileSettings} (h : SettingsSay files path settings)
    (h' : SettingsSay files path other) : settings = other := by
  have hread : readSettings path (.ofFiles files) = .ok settings := readSettings_eq_ok_iff.mpr h
  have hother : readSettings path (.ofFiles files) = .ok other := readSettings_eq_ok_iff.mpr h'
  exact Except.ok.inj (hread.symm.trans hother)

def documentOf (text : String) : Document :=
  (value (4 * text.toList.length + 4) text.toList).1

def settingsDocument? (files : FileSystem) (path : Option Path) : Option Document := do
  let bytes ← (files.read (← path)).toOption
  let text ← String.fromUTF8? bytes.toByteArray
  return documentOf text

theorem convert_of_decode {α : Type} {text : String} {convert : Document → Except Flaw α}
    {result : α} (h : decode text convert = .ok result) :
    convert (documentOf text) = .ok result := by
  obtain ⟨found, hfound, hrest⟩ := bind_eq_ok_iff.mp h
  split at hrest
  · split at hrest
    · cases hrest
      exact hfound
    · cases hrest
  · cases hrest

theorem SettingsSay.readFrom {files : FileSystem} {path : Option Path} {settings : FileSettings}
    (h : SettingsSay files path settings) :
    FileSettings.ReadFrom (settingsDocument? files path) settings := by
  cases path with
  | none => exact h
  | some path =>
    obtain ⟨bytes, text, hbytes, htext, hsettings⟩ := h
    have hdocument : settingsDocument? files (some path) = some (documentOf text) := by
      have hread := (FileSystem.readWhole_eq_ok_iff.mp hbytes).1
      simp [settingsDocument?, hread, htext, Except.toOption]
    rw [hdocument]
    exact convert_of_decode hsettings

end Command

end ModelBundle
