import ModelBundle.Proofs.Steps
import ModelBundle.Proofs.Trailers

/-!
Keeping account of mappings and handles.  Every mapping is given back once or has one owner, and
every handle on a model has one holder.  A record next to the world says which models were loaded
and which of them were emptied early; the rest of the books is in the world itself.
-/

namespace ModelBundle

def stake (held : Option Nat) (number : Nat) : Nat :=
  if held = some number then 1 else 0

@[simp] theorem stake_none (number : Nat) : stake none number = 0 :=
  rfl

theorem stake_self (number : Nat) : stake (some number) number = 1 :=
  if_pos rfl

theorem stake_of_ne {held number : Nat} (h : held ≠ number) : stake (some held) number = 0 :=
  if_neg fun heq => h (Option.some.inj heq)

theorem stake_pos_iff {held : Option Nat} {number : Nat} :
    0 < stake held number ↔ held = some number := by
  unfold stake
  split
  case isTrue h => exact iff_of_true Nat.one_pos h
  case isFalse h => exact iff_of_false (Nat.lt_irrefl 0) h

def Payload.number? (payload : Payload) : Option Nat :=
  payload.mapping?.map Mapping.number

@[simp] theorem Payload.number?_cleared (payload : Payload) : payload.cleared.number? = none := by
  rw [number?, mapping?_cleared]
  rfl

@[simp] theorem Payload.cleared_cleared (payload : Payload) :
    payload.cleared.cleared = payload.cleared := by
  cases payload <;> rfl

def Model.cleared (model : Model) : Model :=
  { model with payload := model.payload.cleared }

namespace World

def closings (world : World) (number : Nat) : Nat :=
  world.unmapped.countP fun extent => extent.number = number

def Live (world : World) (number : Nat) : Prop :=
  number < world.mapped ∧ world.closings number = 0

def owners (world : World) (number : Nat) : Nat :=
  Table.total (fun shared => stake shared.model.payload.number? number) world.models

def fresh (before after : World) (number : Nat) : Nat :=
  if before.mapped ≤ number ∧ number < after.mapped then 1 else 0

end World

theorem Payload.release_fst (payload : Payload) (world : World) :
    (payload.release world).1 = payload.cleared := by
  cases payload with
  | buffered buffer => rfl
  | mapped region =>
    obtain ⟨mapping, adjustment, size⟩ := region
    cases mapping <;> rfl

theorem Payload.closings_release (payload : Payload) (world : World) (number : Nat) :
    (payload.release world).2.closings number =
      world.closings number + stake payload.number? number := by
  cases payload with
  | buffered buffer => rfl
  | mapped region =>
    obtain ⟨mapping, adjustment, size⟩ := region
    cases mapping with
    | none => rfl
    | some mapping =>
      simp only [release, Region.release, World.unmap, World.closings, List.countP_cons, number?,
        mapping?, Option.map_some, stake, Option.some.injEq, Mapping.extent, decide_eq_true_eq]

def World.titles (world : World) : Table Nat Shared × Nat × Nat :=
  (world.models, world.nextModel, world.mapped)

theorem Payload.titles_release (payload : Payload) (world : World) :
    (payload.release world).2.titles = world.titles := by
  cases payload with
  | buffered buffer => rfl
  | mapped region =>
    obtain ⟨mapping, adjustment, size⟩ := region
    cases mapping <;> rfl

theorem Payload.suffix_release (payload : Payload) (world : World) :
    world.unmapped <:+ (payload.release world).2.unmapped := by
  cases payload with
  | buffered buffer => exact List.suffix_refl _
  | mapped region =>
    obtain ⟨mapping, adjustment, size⟩ := region
    cases mapping with
    | none => exact List.suffix_refl _
    | some mapping => exact List.suffix_cons _ _

/-- Nothing is lost or doubled on the way from one world to another: what was put in and what was
made is there in the end or was given back.  The models stay what they are. -/
structure Accounted (before after : World) (put taken : Nat → Nat) : Prop where
  models : after.models = before.models
  nextModel : after.nextModel = before.nextModel
  mapped : before.mapped ≤ after.mapped
  log : before.unmapped <:+ after.unmapped
  balance : ∀ number, after.closings number + taken number =
    before.closings number + put number + before.fresh after number

namespace Accounted

theorem of_eq {before after : World} (held : Nat → Nat) (htitles : after.titles = before.titles)
    (hlog : after.unmapped = before.unmapped) : Accounted before after held held := by
  simp only [World.titles, Prod.mk.injEq] at htitles
  obtain ⟨hmodels, hnext, hmapped⟩ := htitles
  refine ⟨hmodels, hnext, Nat.le_of_eq hmapped.symm, ?_, fun number => ?_⟩
  · rewrite [hlog]
    exact List.suffix_refl _
  · have hfresh : before.fresh after number = 0 := if_neg (by omega)
    rw [World.closings, hlog, hfresh]
    rfl

theorem of_silent {before after : World} (held : Nat → Nat)
    (h : after.silent = before.silent) : Accounted before after held held := by
  have htitles := congrArg World.titles h
  have hlog := congrArg World.unmapped h
  exact of_eq held htitles hlog

theorem trans {first second third : World} {put between taken : Nat → Nat}
    (h : Accounted first second put between) (h' : Accounted second third between taken) :
    Accounted first third put taken := by
  refine ⟨h'.models.trans h.models, h'.nextModel.trans h.nextModel,
    Nat.le_trans h.mapped h'.mapped, h.log.trans h'.log, fun number => ?_⟩
  have hfresh : first.fresh third number =
      first.fresh second number + second.fresh third number := by
    have := h.mapped
    have := h'.mapped
    unfold World.fresh
    split <;> split <;> split <;> omega
  have := h.balance number
  have := h'.balance number
  omega

theorem closings_le {before after : World} {put taken : Nat → Nat}
    (h : Accounted before after put taken) (number : Nat) :
    before.closings number ≤ after.closings number :=
  h.log.sublist.countP_le

theorem taken_made {before after : World} {taken : Nat → Nat} {number : Nat}
    (h : Accounted before after (fun _ => 0) taken) (htaken : 0 < taken number) :
    before.mapped ≤ number ∧ number < after.mapped := by
  have hbalance := h.balance number
  have hle := h.closings_le number
  unfold World.fresh at hbalance
  split at hbalance
  · assumption
  · omega

theorem live_iff {before after : World} (h : Accounted before after (fun _ => 0) fun _ => 0)
    (number : Nat) : after.Live number ↔ before.Live number := by
  have hbalance := h.balance number
  have hmapped := h.mapped
  unfold World.fresh at hbalance
  unfold World.Live
  split at hbalance <;> omega

theorem release (payload : Payload) (world : World) :
    Accounted world (payload.release world).2 (stake payload.number?) fun _ => 0 := by
  have htitles := payload.titles_release world
  simp only [World.titles, Prod.mk.injEq] at htitles
  obtain ⟨hmodels, hnext, hmapped⟩ := htitles
  refine ⟨hmodels, hnext, Nat.le_of_eq hmapped.symm, payload.suffix_release world, ?_⟩
  intro number
  have hfresh : world.fresh (payload.release world).2 number = 0 := if_neg (by omega)
  rw [payload.closings_release, hfresh]

end Accounted

end ModelBundle
