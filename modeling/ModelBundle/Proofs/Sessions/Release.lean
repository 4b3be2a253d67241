import ModelBundle.Proofs.Loading.Outcome
import ModelBundle.Proofs.Sessions.Holders

/-!
Whole sessions.  A mapping is given back once: in the step in which the last handle on its model
goes, or when its sole owner gives the bytes back early.
-/

namespace ModelBundle.Session

inductive Command where
  /-- Others change the files, in any way. -/
  | alter (files : FileSystem)
  | newLoader (name : String) (settings : LoadSettings) (mapper : Mapper)
  | dropLoader (name : String)
  | load (name : String) (exe : Option Path) (consumer : Option String)
  | release (name : String)
  | clone (name other : String)
  | drop (name : String)
  | releaseModel (name : String)
  | handOff (consumer engine : String) (settings : EngineSettings) (reasons : Option (List String))
  | stopEngine (name : String)

namespace Command

def Accountable : Command → Prop
  | newLoader _ _ mapper => mapper.Accountable
  | _ => True

/-- The model whose bytes a command gives back early: a consumer's, if nobody else holds it. -/
def emptied? (command : Command) (session : Session) : Option Nat :=
  match command with
  | releaseModel name => (session.consumer? name).filter fun id => session.holders id = 1
  | _ => none

/-- Carries a command out and keeps the record.  A load adds its model as it is right after the
load; what counts as emptied early depends on the holders, not on what is answered. -/
def perform (command : Command) (session : Session) (record : Record) : Session × Record :=
  match command with
  | alter files => ({ session with world := { session.world with files } }, record)
  | newLoader name settings mapper => (session.newLoader name settings mapper, record)
  | dropLoader name => ((session.dropLoader name).getD session, record)
  | load name exe consumer =>
    match session.load name exe consumer with
    | none => (session, record)
    | some (.error _, after) => (after, record)
    | some (.ok held, after) =>
      match after.world.model? held.id with
      | none => (after, record)
      | some model => (after, record.load held.id model)
  | release name => ((session.release name).getD session, record)
  | clone name other => (((session.clone name other).map Prod.snd).getD session, record)
  | drop name => (session.drop name, record)
  | releaseModel name =>
    ((((session.releaseModel name).bind id).map Prod.snd).getD session,
      ((command.emptied? session).map record.releaseEarly).getD record)
  | handOff consumer engine settings reasons =>
    match session.handOff consumer engine settings reasons with
    | some (_, _, _, after) => (after, record)
    | none => (session, record)
  | stopEngine name => ((session.stopEngine name).getD session, record)

/-- What a command is for: who holds a model after it. -/
def Done (command : Command) (before after : Session) : Prop :=
  match command with
  | alter files => after.world.files = files
  | newLoader name settings mapper => after.loader? name = some (.new settings mapper)
  | dropLoader name => after.loader? name = none
  | load name exe consumer =>
    ∀ held loaded, before.load name exe consumer = some (.ok held, loaded) →
      (∃ loader, after.loader? name = some loader ∧ loader.active = some held.id) ∧
        ∀ other ∈ consumer, after.consumer? other = some held.id
  | release name => ∀ loader, after.loader? name = some loader → loader.active = none
  | clone name other => ∀ id, before.consumer? name = some id → after.consumer? other = some id
  | drop name => after.consumer? name = none
  | releaseModel name => ∀ id, before.consumer? name = some id → before.holders id = 1 →
      ∃ model, after.world.model? id = some model ∧ model.bytes = []
  | handOff consumer engine _ reasons => reasons = none → ∀ id model,
      before.consumer? consumer = some id → before.world.model? id = some model →
        model.bytes ≠ [] → ∃ taker, after.engine? engine = some taker ∧ taker.held = some id
  | stopEngine name => ∀ engine, after.engine? name = some engine → engine.held = none

end Command

def run (commands : List Command) : Session × Record :=
  commands.foldl (fun state command => command.perform state.1 state.2) (new, .new)

theorem run_append_singleton (commands : List Command) (command : Command) :
    run (commands ++ [command]) = command.perform (run commands).1 (run commands).2 := by
  unfold run
  rw [List.foldl_append]
  rfl

theorem Sound.getD {session : Session} {record : Record} {after? : Option Session}
    (sound : Sound session record fun _ => 0)
    (h : ∀ after, after? = some after → Sound after record fun _ => 0) :
    Sound (after?.getD session) record fun _ => 0 := by
  cases after? with
  | none => exact sound
  | some after => exact h after rfl

theorem perform_releaseModel {session : Session} {record : Record}
    (sound : Sound session record fun _ => 0) (name : String) :
    Command.perform (.releaseModel name) session record =
      match (session.consumer? name).filter fun id => session.holders id = 1 with
      | some id =>
        ({ session with world := session.world.releaseEarly id }, record.releaseEarly id)
      | none => (session, record) := by
  unfold Command.perform Command.emptied? releaseModel
  dsimp only
  cases session.consumer? name with
  | none => rfl
  | some id =>
    by_cases hsole : session.holders id = 1 <;> simp [Option.filter, sound.handles_eq, hsole]

theorem sound_perform {session : Session} {record : Record}
    (sound : Sound session record fun _ => 0) {command : Command}
    (accountable : command.Accountable) :
    Sound (command.perform session record).1 (command.perform session record).2 fun _ => 0 := by
  cases command with
  | alter files => exact sound.world (sound.kept.accounted (.of_eq _ rfl rfl))
  | newLoader name settings mapper => exact sound.newLoader name settings accountable
  | dropLoader name => exact sound.getD fun _ h => (sound.dropLoader h).1
  | load name exe consumer =>
    have hload := sound.load name exe consumer
    unfold Command.perform
    dsimp only
    generalize session.load name exe consumer = outcome at hload ⊢
    rcases outcome with _ | ⟨error | held, after⟩
    · exact sound
    · exact hload
    · obtain ⟨-, model, hmodel, hsound⟩ := hload
      dsimp only
      rw [hmodel]
      exact hsound
  | release name => exact sound.getD fun _ h => sound.release h
  | clone name other =>
    apply sound.getD
    intro after h
    obtain ⟨⟨held, found⟩, hclone, rfl⟩ := Option.map_eq_some_iff.mp h
    exact sound.clone hclone
  | drop name => exact sound.drop name
  | releaseModel name =>
    rw [perform_releaseModel sound]
    cases hid : (session.consumer? name).filter fun id => session.holders id = 1 with
    | none => exact sound
    | some id =>
      obtain ⟨hconsumer, hsole⟩ := Option.filter_eq_some_iff.mp hid
      exact sound.releaseModel hconsumer (of_decide_eq_true hsole)
  | handOff consumer engine settings reasons =>
    unfold Command.perform
    dsimp only
    split
    case h_1 h => exact sound.handOff h
    case h_2 => exact sound
  | stopEngine name => exact sound.getD fun _ h => sound.stopEngine h

theorem sound_run {commands : List Command}
    (accountable : ∀ command ∈ commands, command.Accountable) :
    Sound (run commands).1 (run commands).2 fun _ => 0 := by
  suffices h : ∀ (session : Session) (record : Record), (Sound session record fun _ => 0) →
      Sound (commands.foldl (fun state command => command.perform state.1 state.2)
        (session, record)).1 (commands.foldl (fun state command => command.perform state.1 state.2)
        (session, record)).2 fun _ => 0 from h new .new .new
  induction commands with
  | nil => exact fun _ _ sound => sound
  | cons command rest ih =>
    intro session record sound
    have hstep := sound_perform sound (accountable command List.mem_cons_self)
    rw [List.foldl_cons]
    exact ih (fun later hmem => accountable later (List.mem_cons_of_mem _ hmem)) _ _ hstep

namespace Sound

variable {session : Session} {record : Record}

theorem closings_le_one (sound : Sound session record fun _ => 0) (number : Nat) :
    session.world.closings number ≤ 1 := by
  have hbalance := sound.kept.balance number
  split at hbalance <;> omega

theorem live_iff (sound : Sound session record fun _ => 0) (number : Nat) :
    session.world.Live number ↔ ∃ id model, record.model? id = some model ∧
      model.payload.number? = some number ∧ 0 < session.holders id ∧ id ∉ record.early := by
  have hbalance := sound.kept.balance number
  constructor
  · rintro ⟨hmade, hopen⟩
    rw [if_pos hmade, hopen] at hbalance
    have howners : 0 < session.world.owners number := by omega
    obtain ⟨⟨id, shared⟩, hmem, hstake⟩ := Table.exists_mem_of_total_pos howners
    have hshared : session.world.shared? id = some shared :=
      Table.get?_of_mem sound.kept.distinct hmem
    have hnumber := stake_pos_iff.mp hstake
    obtain ⟨model, hmodel, hleft⟩ := sound.kept.recorded id shared hshared
    dsimp only at hnumber
    rw [hleft] at hnumber
    unfold Record.left at hnumber
    split at hnumber
    case isTrue => simp [Model.cleared] at hnumber
    case isFalse hlate => exact ⟨id, model, hmodel, hnumber, sound.kept.held hshared, hlate⟩
  · rintro ⟨id, model, hmodel, hnumber, hheld, hlate⟩
    obtain ⟨shared, hshared⟩ := sound.kept.shared hheld
    obtain ⟨found, hfound, hleft⟩ := sound.kept.recorded id shared hshared
    rw [hmodel, Option.some.injEq] at hfound
    subst hfound
    rw [Record.left, if_neg hlate] at hleft
    have howners := World.stake_le_owners sound.kept.distinct hshared number
    rw [hleft, hnumber, stake_self] at howners
    split at hbalance
    case isTrue hmade => exact ⟨hmade, by omega⟩
    case isFalse => omega

theorem closings_eq_one (sound : Sound session record fun _ => 0) {number : Nat}
    (made : number < session.world.mapped) (h : ¬ session.world.Live number) :
    session.world.closings number = 1 := by
  have hle := sound.closings_le_one number
  have hpos : session.world.closings number ≠ 0 := fun hzero => h ⟨made, hzero⟩
  omega

end Sound

theorem model?_perform {session : Session} {record : Record}
    (sound : Sound session record fun _ => 0) (command : Command) {id : Nat} {model : Model}
    (h : record.model? id = some model) :
    (command.perform session record).2.model? id = some model := by
  cases command with
  | load name exe consumer =>
    have hload := sound.load name exe consumer
    unfold Command.perform
    dsimp only
    generalize session.load name exe consumer = outcome at hload ⊢
    rcases outcome with _ | ⟨error | held, after⟩
    · exact h
    · exact h
    · obtain ⟨hnew, loaded, hloaded, -⟩ := hload
      have hne : held.id ≠ id := by
        rintro rfl
        rw [hnew] at h
        cases h
      dsimp only
      rw [hloaded]
      dsimp only
      rw [Record.model?_load, if_neg hne]
      exact h
  | releaseModel name =>
    rw [perform_releaseModel sound]
    split <;> exact h
  | handOff consumer engine settings reasons =>
    unfold Command.perform
    dsimp only
    split <;> exact h
  | alter | newLoader | dropLoader | release | clone | drop | stopEngine => exact h

theorem consumer?_drop (session : Session) (name : String) :
    (session.drop name).consumer? name = none := by
  unfold drop
  cases h : session.consumer? name with
  | none => exact h
  | some id =>
    dsimp only [consumer?]
    rw [Table.get?_erase, if_pos rfl]

theorem consumer?_keep (session : Session) (name : String) (id : Nat) :
    (session.keep name id).consumer? name = some id := by
  unfold keep consumer?
  dsimp only
  rw [Table.get?_set, if_pos rfl]

theorem loader?_setLoader (session : Session) (name : String) (work : Loader.Work) :
    (session.setLoader name work).loader? name = some work.2 := by
  unfold setLoader loader?
  dsimp only
  rw [Table.get?_set, if_pos rfl]

theorem engine?_setEngine (session : Session) (name : String) (state : World × Engine) :
    (session.setEngine name state).engine? name = some state.2 := by
  unfold setEngine engine?
  dsimp only
  rw [Table.get?_set, if_pos rfl]

theorem loader?_keep (session : Session) (name other : String) (id : Nat) :
    (session.keep other id).loader? name = session.loader? name := by
  unfold keep drop
  split <;> rfl

theorem load_done {session loaded : Session} {name : String} {exe : Option Path}
    {consumer : Option String} {held : Held}
    (h : session.load name exe consumer = some (.ok held, loaded)) :
    (∃ loader, loaded.loader? name = some loader ∧ loader.active = some held.id) ∧
      ∀ other ∈ consumer, loaded.consumer? other = some held.id := by
  obtain ⟨loader, -, hafter⟩ := Option.map_eq_some_iff.mp h
  rcases hload : Loader.load exe (session.world, loader) with ⟨error | id, work⟩
  · rw [hload] at hafter
    cases consumer <;> cases hafter
  · rw [hload] at hafter
    have hmine := Loader.active_of_load hload
    cases consumer with
    | none =>
      cases hafter
      exact ⟨⟨work.2, loader?_setLoader _ _ _, hmine⟩, fun _ h => by cases h⟩
    | some other =>
      cases hafter
      refine ⟨⟨work.2, (loader?_keep _ _ _ _).trans (loader?_setLoader _ _ _), hmine⟩, ?_⟩
      rintro _ ⟨⟩
      exact consumer?_keep _ _ _

theorem handOff_done {id : Nat} {settings : EngineSettings} {world : World} {engine : Engine}
    {model : Model} (hmodel : world.model? id = some model) (hbytes : model.bytes ≠ []) :
    (ModelBundle.handOff (Engine.answer none) id settings (world, engine)).2.2.held = some id := by
  unfold ModelBundle.handOff Engine.answer
  simp only [hmodel, List.isEmpty_iff, hbytes, if_false]
  rfl

theorem done_perform {session : Session} {record : Record}
    (sound : Sound session record fun _ => 0) (command : Command) :
    command.Done session (command.perform session record).1 := by
  cases command with
  | alter files => rfl
  | newLoader name settings mapper => exact loader?_setLoader _ _ _
  | dropLoader name =>
    show ((session.dropLoader name).getD session).loader? name = none
    cases h : session.dropLoader name with
    | some after => exact (sound.dropLoader h).2
    | none => exact Option.map_eq_none_iff.mp h
  | load name exe consumer =>
    intro held loaded h
    unfold Command.perform
    dsimp only
    rw [h]
    dsimp only
    split <;> exact load_done h
  | release name =>
    intro loader hloader
    change ((session.release name).getD session).loader? name = some loader at hloader
    cases h : session.loader? name with
    | none => simp [Session.release, h] at hloader
    | some found =>
      simp only [Session.release, h, Option.map_some, Option.getD_some, loader?_setLoader,
        Option.some.injEq] at hloader
      rw [← hloader]
      exact Loader.active_release _
  | clone name other =>
    intro id hid
    show (((session.clone name other).map Prod.snd).getD session).consumer? other = some id
    simp only [Session.clone, hid, Option.map_some, Option.getD_some, consumer?_keep]
  | drop name => exact consumer?_drop _ _
  | releaseModel name =>
    intro id hid hsole
    have hpos : 0 < session.holders id := by omega
    rw [perform_releaseModel sound, hid, Option.filter_some, if_pos (decide_eq_true hsole)]
    obtain ⟨model, hmodel, hleft⟩ := (sound.releaseModel hid hsole).left hpos
    refine ⟨_, hleft, ?_⟩
    have hearly : id ∈ (record.releaseEarly id).early := List.mem_cons_self
    rw [Record.left, if_pos hearly]
    exact Payload.bytes_cleared _
  | handOff consumer engine settings reasons =>
    rintro rfl id model hid hmodel hbytes
    simp only [Command.perform, Session.handOff, hid, Option.map_some]
    exact ⟨_, engine?_setEngine _ _ _, handOff_done hmodel hbytes⟩
  | stopEngine name =>
    intro engine hengine
    change ((session.stopEngine name).getD session).engine? name = some engine at hengine
    cases h : session.engine? name with
    | none => simp [Session.stopEngine, h] at hengine
    | some found =>
      simp only [Session.stopEngine, h, Option.map_some, Option.getD_some, engine?_setEngine,
        Option.some.injEq] at hengine
      rw [← hengine]
      unfold Engine.stop
      dsimp only
      split
      · assumption
      · rfl

/-- How mappings and models fare in the session that some commands led to. -/
structure ReleasedOnce (commands : List Command) : Prop where
  /-- No mapping is given back twice. -/
  once : ∀ number, (run commands).1.world.closings number ≤ 1
  /-- One is live exactly as long as somebody holds the model that was loaded with it, and its
  bytes were not given back early. -/
  live_iff : ∀ number, (run commands).1.world.Live number ↔ ∃ id model,
    (run commands).2.model? id = some model ∧ model.payload.number? = some number ∧
      0 < (run commands).1.holders id ∧ id ∉ (run commands).2.early
  /-- What is held is as it was loaded. -/
  intact : ∀ id, 0 < (run commands).1.holders id → id ∉ (run commands).2.early → ∃ model,
    (run commands).2.model? id = some model ∧ (run commands).1.world.model? id = some model
  /-- No loader has a model active that was emptied early. -/
  active : ∀ name loader id, (run commands).1.loader? name = some loader →
    loader.active = some id → id ∉ (run commands).2.early
  /-- Every command that comes next does what it is for. -/
  done : ∀ command : Command, command.Done (run commands).1 (run (commands ++ [command])).1
  /-- The step in which the last handle goes gives the mapping back. -/
  last : ∀ command : Command, command.Accountable → ∀ id model number,
    (run commands).2.model? id = some model → model.payload.number? = some number →
      0 < (run commands).1.holders id → id ∉ (run commands).2.early →
      (run (commands ++ [command])).1.holders id = 0 →
      (run commands).1.world.closings number = 0 ∧
        (run (commands ++ [command])).1.world.closings number = 1
  /-- So does the step in which a sole owner gives the bytes back early. -/
  sole : ∀ name id model number, (run commands).1.consumer? name = some id →
    (run commands).1.holders id = 1 → (run commands).2.model? id = some model →
      model.payload.number? = some number → id ∉ (run commands).2.early →
      (run commands).1.world.closings number = 0 ∧
        (run (commands ++ [.releaseModel name])).1.world.closings number = 1
  /-- A load that fails changes nothing in what is live. -/
  failed : ∀ name exe consumer error after,
    (run commands).1.load name exe consumer = some (.error error, after) →
      ∀ number, after.world.Live number ↔ (run commands).1.world.Live number

namespace Sound

variable {session : Session} {record : Record}

theorem closed_by (sound : Sound session record fun _ => 0) (command : Command)
    (accountable : command.Accountable) {id number : Nat} {model : Model}
    (hmodel : record.model? id = some model) (hnumber : model.payload.number? = some number)
    (held : 0 < session.holders id) (hlate : id ∉ record.early)
    (hgone : (command.perform session record).1.holders id = 0 ∨
      id ∈ (command.perform session record).2.early) :
    session.world.closings number = 0 ∧
      (command.perform session record).1.world.closings number = 1 := by
  have hbefore := (sound.live_iff number).mpr ⟨id, model, hmodel, hnumber, held, hlate⟩
  have hafter := sound_perform sound accountable
  have hstays := model?_perform sound command hmodel
  refine ⟨hbefore.2, hafter.closings_eq_one (hafter.kept.made id model number hstays hnumber) ?_⟩
  intro hlive
  obtain ⟨other, found, hfound, hsame, hpos, hnot⟩ := (hafter.live_iff number).mp hlive
  obtain rfl := hafter.kept.single id other model found number hstays hfound hnumber hsame
  rcases hgone with hzero | hearly
  · omega
  · exact hnot hearly

theorem failed (sound : Sound session record fun _ => 0) {name : String} {exe : Option Path}
    {consumer : Option String} {error : LoadError} {after : Session}
    (h : session.load name exe consumer = some (.error error, after)) (number : Nat) :
    after.world.Live number ↔ session.world.Live number := by
  obtain ⟨loader, hloader, hafter⟩ := Option.map_eq_some_iff.mp h
  have haccounted := Loader.load_accounted (sound.mappers name loader hloader) session.world exe
  generalize Loader.load exe (session.world, loader) = outcome at haccounted hafter
  obtain ⟨result, work⟩ := outcome
  cases result with
  | ok id => cases consumer <;> cases hafter
  | error other =>
    cases hafter
    exact haccounted.1.live_iff number

end Sound

theorem mappings_released_once (commands : List Command)
    (accountable : ∀ command ∈ commands, command.Accountable) : ReleasedOnce commands := by
  have sound := sound_run accountable
  refine ⟨sound.closings_le_one, sound.live_iff, fun id => sound.intact, sound.active, ?_, ?_, ?_,
    fun _ _ _ _ _ h => sound.failed h⟩
  · intro command
    rw [run_append_singleton]
    exact done_perform sound command
  · intro command hcommand id model number hmodel hnumber held hlate hlast
    rw [run_append_singleton] at hlast ⊢
    exact sound.closed_by command hcommand hmodel hnumber held hlate (.inl hlast)
  · intro name id model number hid hsole hmodel hnumber hlate
    rw [run_append_singleton]
    refine sound.closed_by (.releaseModel name) trivial hmodel hnumber (by omega) hlate (.inr ?_)
    rw [perform_releaseModel sound, hid, Option.filter_some, if_pos (decide_eq_true hsole)]
    exact List.mem_cons_self

def passedOn : List Command :=
  [.alter Loader.oneBundle, .newLoader "main" .default .system,
    .load "main" (some "app") (some "first"), .clone "first" "second", .release "main",
    .handOff "second" "engine" .default none, .drop "first", .drop "second"]

def solelyOwned : List Command :=
  [.alter Loader.oneBundle, .newLoader "main" .default .system,
    .load "main" (some "app") (some "first"), .release "main"]

theorem accountable_passedOn : ∀ command ∈ passedOn, command.Accountable := by
  intro command hmem
  simp only [passedOn, List.mem_cons, List.not_mem_nil, or_false] at hmem
  rcases hmem with rfl | rfl | rfl | rfl | rfl | rfl | rfl | rfl
  case inr.inl => exact Mapper.system_accountable _
  all_goals trivial

theorem accountable_solelyOwned : ∀ command ∈ solelyOwned, command.Accountable := by
  intro command hmem
  simp only [solelyOwned, List.mem_cons, List.not_mem_nil, or_false] at hmem
  rcases hmem with rfl | rfl | rfl | rfl
  case inr.inl => exact Mapper.system_accountable _
  all_goals trivial

/-- The one mapping is live until the engine stops and is given back then.  The other is given back
with the early release, while its model still has a handle, and not again when that one goes. -/
theorem mappings_released_once_passedOn :
    (∀ command ∈ passedOn, command.Accountable) ∧
      (run passedOn).1.holders 0 = 1 ∧ (run passedOn).1.world.Live 0 ∧
      (run (passedOn ++ [.stopEngine "engine"])).1.world.closings 0 = 1 ∧
    (∀ command ∈ solelyOwned, command.Accountable) ∧
      (run solelyOwned).1.holders 0 = 1 ∧ (run solelyOwned).1.world.Live 0 ∧
      (run (solelyOwned ++ [.releaseModel "first"])).1.holders 0 = 1 ∧
      (run (solelyOwned ++ [.releaseModel "first"])).1.world.closings 0 = 1 ∧
      (run (solelyOwned ++ [.releaseModel "first", .drop "first"])).1.holders 0 = 0 ∧
      (run (solelyOwned ++ [.releaseModel "first", .drop "first"])).1.world.closings 0 = 1 := by
  have passed := mappings_released_once passedOn accountable_passedOn
  have owned := mappings_released_once solelyOwned accountable_solelyOwned
  obtain ⟨model, hmodel, hnumber⟩ : ∃ model, (run passedOn).2.model? 0 = some model ∧
      model.payload.number? = some 0 := ⟨_, rfl, rfl⟩
  obtain ⟨model', hmodel', hnumber'⟩ : ∃ model, (run solelyOwned).2.model? 0 = some model ∧
      model.payload.number? = some 0 := ⟨_, rfl, rfl⟩
  have hlate : 0 ∉ (run passedOn).2.early := by
    rw [show (run passedOn).2.early = [] from rfl]
    exact List.not_mem_nil
  have hlate' : 0 ∉ (run solelyOwned).2.early := by
    rw [show (run solelyOwned).2.early = [] from rfl]
    exact List.not_mem_nil
  have held : 0 < (run passedOn).1.holders 0 := Nat.one_pos
  have held' : 0 < (run solelyOwned).1.holders 0 := Nat.one_pos
  have hstop := passed.last (.stopEngine "engine") trivial 0 model 0 hmodel hnumber held hlate rfl
  have hearly := owned.sole "first" 0 model' 0 rfl rfl hmodel' hnumber' hlate'
  exact ⟨accountable_passedOn, rfl,
    (passed.live_iff 0).mpr ⟨0, model, hmodel, hnumber, held, hlate⟩,
    hstop.2, accountable_solelyOwned, rfl,
    (owned.live_iff 0).mpr ⟨0, model', hmodel', hnumber', held', hlate'⟩, rfl, hearly.2, rfl, rfl⟩

end ModelBundle.Session
