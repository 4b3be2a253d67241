import Mathlib
import ModelBundle.Proofs.Loading.Reached

/-!
The course of a load: the stages it goes through, as a regular language.  Every step of a load adds
a word of its own language to the history, and the languages of a sequence of steps multiply.
-/

namespace ModelBundle.Loader

open ModelBundle.Action

def visit (stage : Stage) : Language Stage := {[stage]}

def copying : Language Stage :=
  visit .fallbackReading + visit .mapping * visit .fallbackReading

def acquiring : Language Stage := visit .mapping + copying

/-- What the history of a loader can be, up to the release of its model. -/
def course : Language Stage :=
  visit .start + visit .start * visit .lookingForTrailer *
    (visit .failed + acquiring * visit .validating * (visit .ready + visit .failed) +
      copying * visit .failed)

theorem mem_visit {stage : Stage} {word : List Stage} : word ∈ visit stage ↔ word = [stage] :=
  Iff.rfl

theorem getLast?_of_mem {stages : Language Stage} {stage : Stage} {word : List Stage}
    (h : word ∈ stages * visit stage) : word.getLast? = some stage := by
  obtain ⟨front, -, last, hlast, rfl⟩ := Language.mem_mul.mp h
  simp [mem_visit.mp hlast]

/-- Every run of the step adds to the history a word of one language if it succeeds and of another
if it fails, and leaves the loader in the last stage it added. -/
def Visits {α : Type} (step : Action Work α) (done failed : Language Stage) : Prop :=
  ∀ work, ∃ added,
    (match (step work).1 with
      | .ok _ => added ∈ done
      | .error _ => added ∈ failed) ∧
    (step work).2.2.history = work.2.history ++ added ∧
    (step work).2.2.stage = added.getLast?.getD work.2.stage

section Visits

variable {α β : Type} {done failed done' failed' : Language Stage}

theorem Visits.mono {step : Action Work α} (h : Visits step done failed) (hdone : done ≤ done')
    (hfailed : failed ≤ failed') : Visits step done' failed' := by
  intro work
  obtain ⟨added, hadded, hrest⟩ := h work
  refine ⟨added, ?_, hrest⟩
  cases hresult : (step work).1 with
  | ok value =>
    rw [hresult] at hadded
    exact hdone hadded
  | error error =>
    rw [hresult] at hadded
    exact hfailed hadded

theorem visits_pure (value : α) : Visits (pure value) 1 0 :=
  fun _ => ⟨[], Language.nil_mem_one, by simp⟩

theorem visits_enter (next : Stage) : Visits (enter next) (visit next) 0 :=
  fun _ => ⟨[next], rfl, by simp [enter]⟩

theorem visits_outside (step : Action World α) : Visits (outside step) 1 1 := by
  intro work
  refine ⟨[], ?_, by simp [outside]⟩
  split <;> exact Language.nil_mem_one

theorem visits_remark (note : Note) : Visits (outside (remark note)) 1 0 :=
  fun _ => ⟨[], Language.nil_mem_one, by simp [outside]⟩

theorem visits_get : Visits get 1 0 :=
  fun _ => ⟨[], Language.nil_mem_one, by simp⟩

theorem visits_request (selection : Selection) : Visits (request selection) 1 0 :=
  fun _ => ⟨[], Language.nil_mem_one, by simp [request]⟩

theorem visits_bind {step : Action Work α} {next : α → Action Work β}
    (hstep : Visits step done failed) (hnext : ∀ value, Visits (next value) done' failed') :
    Visits (step >>= next) (done * done') (failed + done * failed') := by
  intro work
  obtain ⟨first, hfirst, hhistory, hstage⟩ := hstep work
  rw [bind_apply]
  rcases hresult : step work with ⟨result, middle⟩
  rw [hresult] at hfirst hhistory hstage
  cases result with
  | error error => exact ⟨first, Or.inl hfirst, hhistory, hstage⟩
  | ok value =>
    obtain ⟨second, hsecond, hhistory', hstage'⟩ := hnext value middle
    refine ⟨first ++ second, ?_, ?_, ?_⟩
    · dsimp only
      cases hend : (next value middle).1 with
      | ok last =>
        rw [hend] at hsecond
        exact Language.append_mem_mul hfirst hsecond
      | error error =>
        rw [hend] at hsecond
        exact Or.inr (Language.append_mem_mul hfirst hsecond)
    · rw [hhistory', hhistory, List.append_assoc]
    · rw [hstage', hstage, List.getLast?_append]
      cases second.getLast? <;> rfl

end Visits

theorem visits_copy (selection : Selection) :
    Visits (copy selection) (visit .fallbackReading) (visit .fallbackReading) := by
  have h := visits_bind (visits_enter .fallbackReading) fun _ =>
    visits_bind (visits_outside (Buffer.read selection.handle selection.offset selection.size))
      fun buffer => visits_bind (visits_remark (.modelRead selection.size)) fun _ =>
        visits_pure (Payload.buffered buffer)
  simpa [copy] using h

theorem visits_acquire (settings : LoadSettings) (selection : Selection) :
    Visits (acquire settings selection) acquiring copying := by
  have hcopy : Visits (copy selection) acquiring copying :=
    (visits_copy selection).mono (fun _ h => Or.inr (Or.inl h)) fun _ h => Or.inl h
  unfold acquire
  split
  · refine Visits.mono (visits_bind (visits_enter .mapping) fun _ =>
      visits_bind (visits_request selection) (?_ : ∀ result,
        Visits _ (1 + visit .fallbackReading) (visit .fallbackReading))) ?_ ?_
    · rintro (error | region)
      · have h := visits_bind (visits_remark (.mappingFailed error)) fun _ => visits_copy selection
        refine h.mono ?_ ?_
        · simp
        · simp
      · have h := visits_bind (visits_remark (.modelMapped selection.size)) fun _ =>
          visits_pure (Payload.mapped region)
        refine h.mono ?_ ?_
        · simp
        · simp
    · rw [one_mul, mul_add, mul_one]
      exact fun _ h => h.imp_right Or.inr
    · rw [zero_add, one_mul, zero_add]
      exact fun _ h => Or.inr h
  · split
    · have h := visits_bind (visits_remark (.aboveCeiling selection.size settings.ceiling))
        fun _ => hcopy
      simpa using h
    · exact hcopy

theorem visits_proceed (found : Option (Path × Trailer)) :
    Visits (proceed found) (acquiring * visit .validating)
      (1 + (acquiring * visit .validating + copying)) := by
  have h := visits_bind visits_get fun work =>
    visits_bind (visits_outside (select work.2.settings found)) fun selection =>
      visits_bind (visits_acquire work.2.settings selection) fun payload =>
        visits_bind (visits_enter .validating) fun _ =>
          visits_outside (validate work.2.settings.policy selection.source payload)
  refine h.mono ?_ ?_
  · simp
  · simp [add_comm]

theorem visits_run (exe : Option Path) :
    Visits (run exe) (visit .lookingForTrailer * (acquiring * visit .validating))
      (visit .lookingForTrailer * (1 + (acquiring * visit .validating + copying))) := by
  have h := visits_bind (visits_enter .lookingForTrailer) fun _ =>
    visits_bind (visits_outside (findEmbedded exe)) visits_proceed
  refine h.mono ?_ ?_
  · simp
  · simp [← add_assoc, Language.add_self]

def delivering : Language Stage :=
  visit .start * (visit .lookingForTrailer * (acquiring * visit .validating)) * visit .ready

def failing : Language Stage :=
  visit .start * (visit .lookingForTrailer * (1 + (acquiring * visit .validating + copying))) *
    visit .failed

theorem course_eq : course = visit .start + (failing + delivering) := by
  simp only [course, failing, delivering, mul_add, add_mul, mul_assoc, one_mul, add_assoc, add_comm,
    add_left_comm]

/-! Loaders in use. -/

inductive Call where
  | load (world : World) (exe : Option Path)
  | release (world : World)

/-- How the last load ended, and whether its model was let go since.  This is told from what the
calls return alone; a load that is refused because a model is held is not the last load. -/
inductive Standing where
  | unused
  | failed
  | held
  | released
deriving DecidableEq, Repr

namespace Standing

def load (standing : Standing) : Except LoadError Nat → Standing
  | .ok _ => held
  | .error _ => if standing = held then held else failed

def release (standing : Standing) : Standing :=
  if standing = held then released else standing

def histories : Standing → Language Stage
  | unused => visit .start
  | failed => failing
  | held => delivering
  | released => delivering * visit .start

end Standing

def Call.perform : Call → Loader × Standing → Loader × Standing
  | load world exe, (loader, standing) =>
    ((Loader.load exe (world, loader)).2.2, standing.load (Loader.load exe (world, loader)).1)
  | release world, (loader, standing) => ((Loader.release (world, loader)).2, standing.release)

/-- A new loader after some calls, each made in a world of its own. -/
def used (settings : LoadSettings) (mapper : Mapper) (calls : List Call) : Loader × Standing :=
  calls.foldl (fun state call => call.perform state) (new settings mapper, .unused)

/-- The stage of a loader, its history and its model agree with its standing. -/
structure Follows (loader : Loader) (standing : Standing) : Prop where
  last : loader.history.getLast? = some loader.stage
  active : loader.active.isSome = true ↔ standing = .held
  ready : loader.stage = .ready ↔ standing = .held
  history : loader.history ∈ standing.histories

theorem follows_new (settings : LoadSettings) (mapper : Mapper) :
    Follows (new settings mapper) .unused where
  last := rfl
  active := by simp [new]
  ready := by simp [new]
  history := rfl

theorem Follows.load {loader : Loader} {standing : Standing} (h : Follows loader standing)
    (world : World) (exe : Option Path) :
    Follows (load exe (world, loader)).2.2 (standing.load (load exe (world, loader)).1) := by
  cases hactive : loader.active with
  | some id =>
    have hheld : standing = .held := h.active.mp (by simp [hactive])
    rw [load_of_active hactive]
    simpa [Standing.load, hheld] using hheld ▸ h
  | none =>
    have hother : standing ≠ .held := fun heq => by simpa [hactive] using h.active.mpr heq
    have hcore := keeps_core_run exe (world, { loader with stage := .start, history := [.start] })
    obtain ⟨added, hadded, hhistory, -⟩ :=
      visits_run exe (world, { loader with stage := .start, history := [.start] })
    rw [load_of_idle hactive]
    rcases hrun : run exe (world, { loader with stage := .start, history := [.start] })
      with ⟨error | model, ran⟩
    · rw [hrun] at hcore hadded hhistory
      have hran := Language.append_mem_mul (mem_visit.mpr (Eq.refl [Stage.start])) hadded
      rw [← show ran.2.history = [.start] ++ added from hhistory] at hran
      have hfailed : (enter .failed ran).2.2.history ∈ failing :=
        Language.append_mem_mul hran rfl
      simp only [Standing.load, if_neg hother]
      refine ⟨getLast?_of_mem hfailed, ?_, ?_, hfailed⟩
      · simp only [core, Prod.mk.injEq] at hcore
        simp [enter, hcore, hactive]
      · simp [enter]
    · rw [hrun] at hadded hhistory
      have hran := Language.append_mem_mul (mem_visit.mpr (Eq.refl [Stage.start])) hadded
      rw [← show ran.2.history = [.start] ++ added from hhistory] at hran
      have hready : (handOut model (enter .ready ran).2).2.2.history ∈ delivering :=
        Language.append_mem_mul hran rfl
      refine ⟨getLast?_of_mem hready, ?_, ?_, hready⟩
      · simp [handOut, Standing.load]
      · simp [handOut, enter, Standing.load]

theorem Follows.release {loader : Loader} {standing : Standing} (h : Follows loader standing)
    (world : World) : Follows (release (world, loader)).2 standing.release := by
  cases hactive : loader.active with
  | none =>
    have hother : standing ≠ .held := fun heq => by simpa [hactive] using h.active.mpr heq
    rw [release_of_idle hactive, Standing.release, if_neg hother]
    exact h
  | some id =>
    have hheld : standing = .held := h.active.mp (by simp [hactive])
    subst hheld
    have hhistory := Language.append_mem_mul h.history (mem_visit.mpr (Eq.refl [Stage.start]))
    simp only [Loader.release, hactive, Standing.release, if_true]
    exact ⟨getLast?_of_mem hhistory, by simp, by simp, hhistory⟩

theorem follows_used (settings : LoadSettings) (mapper : Mapper) (calls : List Call) :
    Follows (used settings mapper calls).1 (used settings mapper calls).2 := by
  have hrun : ∀ state : Loader × Standing, Follows state.1 state.2 →
      Follows (calls.foldl (fun state call => call.perform state) state).1
        (calls.foldl (fun state call => call.perform state) state).2 := by
    induction calls with
    | nil => exact fun _ h => h
    | cons call rest ih =>
      intro state h
      cases call with
      | load world exe => exact ih _ (h.load world exe)
      | release world => exact ih _ (h.release world)
  exact hrun _ (follows_new settings mapper)

theorem release_iterate (work : Work) (count : Nat) :
    release^[count + 1] work = release work := by
  induction count with
  | zero => rfl
  | succ count ih =>
    rw [Function.iterate_succ_apply', ih]
    exact release_of_idle (active_release work) (release work).1

theorem Follows.word {loader : Loader} {standing : Standing} (h : Follows loader standing) :
    ∃ word ∈ course, (word.getLast? = some .ready ↔ standing = .held ∨ standing = .released) ∧
      loader.history = word ++ if standing = .released then [.start] else [] := by
  have hhistory := h.history
  rw [course_eq]
  cases standing with
  | unused => exact ⟨_, Or.inl hhistory, by simp [mem_visit.mp hhistory], by simp⟩
  | failed => exact ⟨_, Or.inr (Or.inl hhistory), by simp [getLast?_of_mem hhistory], by simp⟩
  | held => exact ⟨_, Or.inr (Or.inr hhistory), by simp [getLast?_of_mem hhistory], by simp⟩
  | released =>
    obtain ⟨word, hword, last, hlast, heq⟩ := Language.mem_mul.mp hhistory
    refine ⟨word, Or.inr (Or.inr hword), by simp [getLast?_of_mem hword], ?_⟩
    rw [← heq, mem_visit.mp hlast, if_pos rfl]

/-- For every loader, after any calls, whatever the files and the mapper were at each of them: the
last stage of its history is the one it is in, it has an active model exactly when that is ready,
and its history is one course, with one further start exactly if the last load delivered a model
that was let go since.  While a model is active, a load is refused and changes nothing at all, so
the mapper is not asked; without one, a release changes nothing. -/
theorem used_follows_course (settings : LoadSettings) (mapper : Mapper) (calls : List Call) :
    let loader := (used settings mapper calls).1
    let standing := (used settings mapper calls).2
    loader.history.getLast? = some loader.stage ∧
      (loader.active.isSome = true ↔ loader.stage = .ready) ∧
      (∃ word ∈ course, (word.getLast? = some .ready ↔ standing = .held ∨ standing = .released) ∧
        loader.history = word ++ if standing = .released then [.start] else []) ∧
      (loader.active.isSome = true → ∀ world exe,
        Loader.load exe (world, loader) = (.error .alreadyLoaded, (world, loader))) ∧
      (loader.active.isSome = false → ∀ world, Loader.release (world, loader) = (world, loader)) ∧
      ∀ world count,
        Loader.release^[count + 1] (world, loader) = Loader.release (world, loader) := by
  intro loader standing
  have follows : Follows loader standing := follows_used settings mapper calls
  refine ⟨follows.last, follows.active.trans follows.ready.symm, follows.word, ?_, ?_, ?_⟩
  · intro hactive world exe
    obtain ⟨id, hid⟩ := Option.isSome_iff_exists.mp hactive
    exact load_of_active hid world exe
  · intro hidle world
    exact release_of_idle (by simpa using hidle) world
  · exact fun world count => release_iterate (world, loader) count

def oneModel : FileSystem where
  entries := [(["work"], .directory), (["work", "m"], .file 0)]
  files := [(0, ⟨Magic.gguf, 0o644⟩)]
  working := ["work"]

/-- The model is missing at first, then loaded, asked for again, and let go twice. -/
def secondTry : List Call :=
  [.load (.ofFiles .empty) none, .load (.ofFiles oneModel) none, .load (.ofFiles oneModel) none,
    .release (.ofFiles oneModel), .release (.ofFiles oneModel)]

theorem used_follows_course_secondTry :
    let settings := { LoadSettings.default with modelPath := some "m" }
    let loader := (used settings (.failing "no memory") secondTry).1
    (used settings (.failing "no memory") (secondTry.take 3)).1.active.isSome = true ∧
      loader.active.isSome = false ∧ loader.history.getLast? = some loader.stage ∧
      ∃ word ∈ course, word.getLast? = some .ready ∧ loader.history = word ++ [.start] := by
  intro settings loader
  obtain ⟨hlast, -, ⟨word, hword, hready, hhistory⟩, -⟩ :=
    used_follows_course settings (.failing "no memory") secondTry
  have hreleased : (used settings (.failing "no memory") secondTry).2 = .released := by
    decide +kernel
  rw [hreleased] at hready hhistory
  exact ⟨by decide +kernel, by decide +kernel, hlast, word, hword, by simpa using hready,
    hhistory⟩

end ModelBundle.Loader
