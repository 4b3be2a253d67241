import ModelBundle.Loader
import ModelBundle.Proofs.Steps
import ModelBundle.Proofs.Trailers

/-!
Loaders as callers meet them.  Until a load asks for bytes, all it does to the world is to leave
notes.
-/

namespace ModelBundle.Loader

open ModelBundle.Action

theorem keeps_silent_remark (note : Note) : Keeps World.silent (remark note) :=
  fun _ => rfl

theorem keeps_silent_findEmbedded (exe : Option Path) :
    Keeps World.silent (findEmbedded exe) := by
  cases exe with
  | none => exact keeps_pure _ _
  | some exe =>
    apply keeps_bind (keeps_attempt (Trailer.keeps_silent_locate exe))
    intro found
    cases found with
    | ok found => exact keeps_pure _ _
    | error error => exact keeps_bind (keeps_silent_remark _) fun _ => keeps_pure _ _

theorem keeps_silent_openFile (path : Path) : Keeps World.silent (openFile path) := by
  intro world
  unfold openFile
  split <;> rfl

theorem keeps_silent_selectEmbedded (exe : Path) (trailer : Trailer) :
    Keeps World.silent (selectEmbedded exe trailer) :=
  keeps_bind (keeps_silent_remark _) fun _ =>
    keeps_bind (keeps_silent_openFile exe) fun _ =>
      keeps_bind (fun _ => rfl) fun _ =>
        keeps_bind (keeps_ofExcept _ _) fun _ => keeps_pure _ _

theorem keeps_silent_selectFile (path : Path) : Keeps World.silent (selectFile path) := by
  apply keeps_bind (keeps_silent_openFile path)
  intro handle
  apply keeps_bind (fun _ => rfl)
  intro size
  split
  · exact keeps_fail _ _
  · exact keeps_bind (keeps_silent_remark _) fun _ => keeps_pure _ _

theorem keeps_silent_select (settings : LoadSettings) (found : Option (Path × Trailer)) :
    Keeps World.silent (select settings found) := by
  unfold select
  split
  · exact keeps_silent_selectEmbedded _ _
  · exact keeps_silent_selectFile _
  · exact keeps_fail _ _

theorem keeps_silent_read (handle : Handle) (offset size : UInt64) :
    Keeps World.silent (Buffer.read handle offset size) := by
  intro world
  unfold Buffer.read
  split <;> rfl

end ModelBundle.Loader

/-!
Loaders as callers meet them: made with some settings and a mapper, and then used for any number
of loads and releases, between which the world may change in any way.
-/

namespace ModelBundle.Loader

open ModelBundle.Action

inductive Reached (settings : LoadSettings) (mapper : Mapper) : Loader → Prop where
  | new : Reached settings mapper (new settings mapper)
  | load {loader : Loader} (world : World) (exe : Option Path) :
      Reached settings mapper loader → Reached settings mapper (load exe (world, loader)).2.2
  | release {loader : Loader} (world : World) :
      Reached settings mapper loader → Reached settings mapper (release (world, loader)).2

/-- The part of a loader that a load leaves alone until it hands out its model. -/
def core (work : Work) : LoadSettings × Mapper × Option Nat :=
  (work.2.settings, work.2.mapper, work.2.active)

theorem keeps_core_outside {α : Type} (step : Action World α) : Keeps core (outside step) :=
  fun _ => rfl

theorem keeps_core_enter (next : Stage) : Keeps core (enter next) :=
  fun _ => rfl

theorem keeps_core_request (selection : Selection) : Keeps core (request selection) :=
  fun _ => rfl

theorem keeps_core_copy (selection : Selection) : Keeps core (copy selection) :=
  keeps_bind (keeps_core_enter _) fun _ =>
    keeps_bind (keeps_core_outside _) fun _ =>
      keeps_bind (keeps_core_outside _) fun _ => keeps_pure core _

theorem keeps_core_acquire (settings : LoadSettings) (selection : Selection) :
    Keeps core (acquire settings selection) := by
  unfold acquire
  split
  · apply keeps_bind (keeps_core_enter _)
    intro _
    apply keeps_bind (keeps_core_request _)
    intro result
    cases result with
    | ok region => exact keeps_bind (keeps_core_outside _) fun _ => keeps_pure core _
    | error error => exact keeps_bind (keeps_core_outside _) fun _ => keeps_core_copy _
  · split
    · exact keeps_bind (keeps_core_outside _) fun _ => keeps_core_copy _
    · exact keeps_core_copy _

theorem keeps_core_proceed (found : Option (Path × Trailer)) : Keeps core (proceed found) := by
  apply keeps_bind (keeps_get core)
  intro work
  apply keeps_bind (keeps_core_outside _)
  intro selection
  apply keeps_bind (keeps_core_acquire _ _)
  intro payload
  exact keeps_bind (keeps_core_enter _) fun _ => keeps_core_outside _

theorem keeps_core_run (exe : Option Path) : Keeps core (run exe) :=
  keeps_bind (keeps_core_enter _) fun _ =>
    keeps_bind (keeps_core_outside _) fun found => keeps_core_proceed found

theorem load_of_active {loader : Loader} {id : Nat} (h : loader.active = some id) (world : World)
    (exe : Option Path) : load exe (world, loader) = (.error .alreadyLoaded, (world, loader)) := by
  have hsome : loader.active.isSome = true := by rw [h]; rfl
  simp only [load, bind_apply, get_apply, hsome, if_true, fail_apply]

theorem load_of_idle {loader : Loader} (h : loader.active = none) (world : World)
    (exe : Option Path) :
    load exe (world, loader) =
      match run exe (world, { loader with stage := .start, history := [.start] }) with
      | (.ok model, work) => handOut model (enter .ready work).2
      | (.error error, work) => (.error error, (enter .failed work).2) := by
  have hidle : loader.active.isSome = false := by rw [h]; rfl
  simp only [load, restart, bind_apply, get_apply, hidle, Bool.false_eq_true, if_false,
    modify_apply, attempt_apply]
  rcases run exe (world, { loader with stage := .start, history := [.start] })
    with ⟨error | model, work⟩ <;> rfl

theorem active_of_load {exe : Option Path} {work after : Work} {id : Nat}
    (h : load exe work = (.ok id, after)) : after.2.active = some id := by
  obtain ⟨world, loader⟩ := work
  cases hactive : loader.active with
  | some other =>
    rw [load_of_active hactive] at h
    cases h
  | none =>
    rw [load_of_idle hactive] at h
    split at h
    · cases h
      rfl
    · cases h

theorem release_of_idle {loader : Loader} (h : loader.active = none) (world : World) :
    release (world, loader) = (world, loader) := by
  simp only [release, h]

theorem active_release (work : Work) : (release work).2.active = none := by
  obtain ⟨world, loader⟩ := work
  cases hactive : loader.active with
  | none => rw [release_of_idle hactive, hactive]
  | some id => simp only [release, hactive]

def setup (work : Work) : LoadSettings × Mapper :=
  (work.2.settings, work.2.mapper)

theorem keeps_setup_load (exe : Option Path) : Keeps setup (load exe) := by
  have hrun : Keeps setup (run exe) := (keeps_core_run exe).map fun core => (core.1, core.2.1)
  apply keeps_bind (keeps_get setup)
  intro work
  split
  · exact keeps_fail setup _
  · apply keeps_bind (fun _ => rfl)
    intro _
    apply keeps_bind (keeps_attempt hrun)
    intro result
    cases result with
    | ok model => exact keeps_bind (fun _ => rfl) fun _ _ => rfl
    | error error => exact keeps_bind (fun _ => rfl) fun _ => keeps_fail setup _

theorem setup_release (work : Work) : setup (release work) = setup work := by
  obtain ⟨world, loader⟩ := work
  cases h : loader.active with
  | none => simp only [release, h]
  | some id => simp only [release, h, setup]

theorem Reached.setup_eq {settings : LoadSettings} {mapper : Mapper} {loader : Loader}
    (reached : Reached settings mapper loader) (world : World) :
    setup (world, loader) = (settings.resolve, mapper) := by
  induction reached with
  | new => rfl
  | load other exe _ ih => exact (keeps_setup_load exe (other, _)).trans ih
  | release other _ ih => exact (setup_release (other, _)).trans ih

theorem Reached.settings_eq {settings : LoadSettings} {mapper : Mapper} {loader : Loader}
    (reached : Reached settings mapper loader) : loader.settings = settings.resolve :=
  congrArg Prod.fst (reached.setup_eq (.ofFiles .empty))

theorem Reached.mapper_eq {settings : LoadSettings} {mapper : Mapper} {loader : Loader}
    (reached : Reached settings mapper loader) : loader.mapper = mapper :=
  congrArg Prod.snd (reached.setup_eq (.ofFiles .empty))

theorem Reached.left_by_load {settings : LoadSettings} {mapper : Mapper} {loader : Loader}
    (reached : Reached settings mapper loader) {id : Nat} (hactive : loader.active = some id) :
    ∃ before world exe, Reached settings mapper before ∧ before.active = none ∧
      loader = (Loader.load exe (world, before)).2.2 := by
  induction reached with
  | new => cases hactive
  | load world exe before ih =>
    rename_i loader
    cases hbefore : loader.active with
    | none => exact ⟨loader, world, exe, before, hbefore, rfl⟩
    | some other =>
      rw [load_of_active hbefore] at hactive ⊢
      exact ih hactive
  | release world _ _ =>
    rw [active_release] at hactive
    cases hactive

end ModelBundle.Loader
