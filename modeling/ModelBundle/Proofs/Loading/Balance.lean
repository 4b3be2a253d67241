import ModelBundle.Proofs.Loading.Reached
import ModelBundle.Proofs.Sessions.Handles

/-!
What a load does to the mappings.  A load that fails has given back every mapping it made, at
whatever stage it fails; one that succeeds leaves one model with two handles and nothing else.
-/

namespace ModelBundle

open ModelBundle.Action

def taken {α : Type} (take : α → Nat → Nat) : Except LoadError α → Nat → Nat
  | .ok value => take value
  | .error _ => fun _ => 0

/-- The mapper hands out only mappings that it made just then, and keeps none for itself. -/
def Mapper.Accountable (mapper : Mapper) : Prop :=
  ∀ (handle : Handle) (offset size : UInt64) (world : World),
    Accounted world (mapper handle offset size world).2 (fun _ => 0)
      (taken (fun region => stake (Payload.mapped region).number?)
        (mapper handle offset size world).1)

theorem Mapper.system_accountable (page : Page) : (system page).Accountable := by
  intro handle offset size world
  unfold system
  split
  · exact .of_silent _ rfl
  · split
    · exact .of_silent _ rfl
    · refine ⟨rfl, rfl, Nat.le_succ _, List.suffix_refl _, fun number => ?_⟩
      show world.closings number + stake (some world.mapped) number =
        world.closings number + 0 +
          if world.mapped ≤ number ∧ number < world.mapped + 1 then 1 else 0
      by_cases h : world.mapped = number
      · rw [h, stake_self, if_pos ⟨Nat.le_refl _, Nat.lt_succ_self _⟩]
      · rw [stake_of_ne h, if_neg (by omega)]

theorem Mapper.failing_accountable (cause : String) : (failing cause).Accountable :=
  fun _ _ _ _ => .of_silent _ rfl

theorem Mapper.truncating_accountable (path : Path) (keep : Nat) :
    (truncating path keep).Accountable := by
  intro handle offset size world
  unfold truncating
  split
  · exact .of_silent _ rfl
  · exact .of_eq _ rfl rfl

namespace Loader

/-- With an accountable mapper, the step turns what was put in and the mappings it makes into what
it takes along and what it gives back. -/
def Balances {α : Type} (put : Nat → Nat) (step : Action Work α) (take : α → Nat → Nat) : Prop :=
  ∀ work, work.2.mapper.Accountable → (step work).2.2.mapper = work.2.mapper ∧
    Accounted work.1 (step work).2.1 put (taken take (step work).1)

variable {α β : Type} {put : Nat → Nat} {take : α → Nat → Nat} {finish : β → Nat → Nat}

theorem balances_pure (value : α) (take : α → Nat → Nat) :
    Balances (take value) (pure value) take :=
  fun _ _ => ⟨rfl, .of_silent _ rfl⟩

theorem balances_bind {step : Action Work α} {next : α → Action Work β}
    (hstep : Balances put step take) (hnext : ∀ value, Balances (take value) (next value) finish) :
    Balances put (step >>= next) finish := by
  intro work accountable
  have hfirst := hstep work accountable
  rw [bind_apply]
  rcases hresult : step work with ⟨result, middle⟩
  rw [hresult] at hfirst
  obtain ⟨hmapper, hbalance⟩ := hfirst
  cases result with
  | error error => exact ⟨hmapper, hbalance⟩
  | ok value =>
    dsimp only at hmapper hbalance ⊢
    rw [← hmapper] at accountable
    obtain ⟨hmapper', hbalance'⟩ := hnext value middle accountable
    exact ⟨hmapper'.trans hmapper, hbalance.trans hbalance'⟩

theorem balances_enter (put : Nat → Nat) (next : Stage) :
    Balances put (enter next) fun _ => put :=
  fun _ _ => ⟨rfl, .of_silent _ rfl⟩

theorem balances_outside {step : Action World α}
    (h : ∀ world, Accounted world (step world).2 put (taken take (step world).1)) :
    Balances put (outside step) take :=
  fun work _ => ⟨rfl, h work.1⟩

theorem balances_silent {step : Action World α} (h : Keeps World.silent step) :
    Balances (fun _ => 0) (outside step) fun _ _ => 0 := by
  apply balances_outside
  intro world
  have htaken : taken (fun _ _ => 0) (step world).1 = fun _ => 0 := by
    cases (step world).1 <;> rfl
  rw [htaken]
  exact .of_silent _ (h world)

theorem balances_remark (put : Nat → Nat) (note : Note) :
    Balances put (outside (remark note)) fun _ => put :=
  balances_outside fun _ => .of_silent _ rfl

theorem balances_request (selection : Selection) :
    Balances (fun _ => 0) (request selection)
      (taken fun region => stake (Payload.mapped region).number?) :=
  fun work accountable => ⟨rfl, accountable _ _ _ work.1⟩

theorem balances_copy (selection : Selection) :
    Balances (fun _ => 0) (copy selection) fun payload => stake payload.number? := by
  apply balances_bind (balances_enter _ _)
  intro _
  apply balances_bind (balances_silent (keeps_silent_read _ _ _))
  intro buffer
  apply balances_bind (balances_remark _ _)
  intro _
  exact balances_pure (Payload.buffered buffer) fun payload => stake payload.number?

theorem balances_acquire (settings : LoadSettings) (selection : Selection) :
    Balances (fun _ => 0) (acquire settings selection) fun payload => stake payload.number? := by
  unfold acquire
  split
  · apply balances_bind (balances_enter _ _)
    intro _
    apply balances_bind (balances_request selection)
    intro result
    cases result with
    | ok region =>
      apply balances_bind (balances_remark _ _)
      intro _
      exact balances_pure (Payload.mapped region) fun payload => stake payload.number?
    | error error => exact balances_bind (balances_remark _ _) fun _ => balances_copy _
  · split
    · exact balances_bind (balances_remark _ _) fun _ => balances_copy _
    · exact balances_copy _

theorem balances_validate (policy : MagicPolicy) (source : Source) (payload : Payload) :
    Balances (stake payload.number?) (outside (validate policy source payload))
      fun model => stake model.payload.number? := by
  apply balances_outside
  intro world
  unfold validate
  split
  · exact .of_silent _ rfl
  · cases policy with
    | abort => exact .release payload world
    | warn => exact .of_silent _ rfl

theorem balances_run (exe : Option Path) :
    Balances (fun _ => 0) (run exe) fun model => stake model.payload.number? := by
  apply balances_bind (balances_enter _ _)
  intro _
  apply balances_bind (balances_silent (keeps_silent_findEmbedded exe))
  intro found
  unfold proceed
  refine balances_bind (fun work _ => ⟨rfl, .of_silent _ rfl⟩) fun work => ?_
  apply balances_bind (balances_silent (keeps_silent_select _ found))
  intro selection
  apply balances_bind (balances_acquire _ selection)
  intro payload
  apply balances_bind (balances_enter _ _)
  intro _
  exact balances_validate _ _ payload

theorem load_accounted {loader : Loader} (accountable : loader.mapper.Accountable) (world : World)
    (exe : Option Path) :
    match load exe (world, loader) with
    | (.error _, (world', loader')) =>
      Accounted world world' (fun _ => 0) (fun _ => 0) ∧ loader'.active = loader.active
    | (.ok id, (world', loader')) => ∃ model middle,
      Accounted world middle (fun _ => 0) (stake model.payload.number?) ∧
        world' = (middle.share model).2.retain world.nextModel ∧ id = world.nextModel ∧
        loader.active = none ∧ loader'.active = some id := by
  cases hactive : loader.active with
  | some id =>
    rw [load_of_active hactive]
    exact ⟨.of_silent _ rfl, hactive⟩
  | none =>
    have hidle : loader.active.isSome = false := by rw [hactive]; rfl
    simp only [load, restart, bind_apply, get_apply, hidle, Bool.false_eq_true, if_false,
      modify_apply, attempt_apply]
    have hrun := balances_run exe (world, { loader with stage := .start, history := [.start] })
      accountable
    have hcore := keeps_core_run exe (world, { loader with stage := .start, history := [.start] })
    rcases h : run exe (world, { loader with stage := .start, history := [.start] })
      with ⟨result, ran⟩
    rw [h] at hrun hcore
    simp only [core, Prod.mk.injEq] at hcore
    obtain ⟨-, hbalance⟩ := hrun
    cases result with
    | error error =>
      exact ⟨hbalance.trans (.of_silent _ rfl), hcore.2.2.trans hactive⟩
    | ok model =>
      have hready : Accounted world (ran.1.note (.stage ran.2.stage .ready)) (fun _ => 0)
          (stake model.payload.number?) :=
        hbalance.trans (.of_silent _ rfl)
      refine ⟨model, _, hready, ?_, hready.nextModel, trivial, rfl⟩
      rw [← hready.nextModel]
      rfl

/-- After a load the record has the model, with one handle for the loader and one for the caller;
or there is nothing new. -/
theorem load_kept {world : World} {record : Record} {holders : Nat → Nat} {loader : Loader}
    (kept : Kept world record holders) (accountable : loader.mapper.Accountable)
    (exe : Option Path) :
    match load exe (world, loader) with
    | (.error _, (world', loader')) =>
      Kept world' record holders ∧ loader'.active = loader.active
    | (.ok id, (world', loader')) => ∃ model, world'.model? id = some model ∧
      Kept world' (record.load id model) (fun other => holders other + 2 * stake (some id) other) ∧
        (record.model? id = none ∧ id ∉ record.early) ∧ loader'.active = some id ∧
        loader.active = none := by
  have hload := load_accounted accountable world exe
  generalize load exe (world, loader) = outcome at hload ⊢
  obtain ⟨result, world', loader'⟩ := outcome
  cases result with
  | error error => exact ⟨kept.accounted hload.1, hload.2⟩
  | ok id =>
    obtain ⟨model, middle, hmiddle, rfl, rfl, hidle, hactive⟩ := hload
    have hshare := kept.share hmiddle
    have hheld : 0 < holders world.nextModel + stake (some world.nextModel) world.nextModel := by
      rw [stake_self]
      omega
    have hretain := hshare.retain hheld
    refine ⟨model, ?_, hretain.congr fun other => ?_, kept.known _ (Nat.le_refl _), hactive, hidle⟩
    · simp only [World.model?, World.retain, World.share, World.shared?, Table.update,
        hmiddle.nextModel, Table.get?_set, if_true, Option.map_some]
    · omega

end Loader

end ModelBundle
