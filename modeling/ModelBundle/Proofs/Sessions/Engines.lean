import ModelBundle.Loader
import ModelBundle.Proofs.Sessions.Accounts

/-!
What is asked of an engine.  It owns the handles that it keeps and the one that it is given, and
what others hold is not its to change.  One that refuses may be asked for more: to let go of just
the handle it was given.
-/

namespace ModelBundle

namespace World

variable (world : World) (id other : Nat)

/-- A world without its notes.  The order in which models were put up does not count. -/
def contents : FileSystem × Nat × List Extent × Nat × (Nat → Option Shared) :=
  (world.files, world.mapped, world.unmapped, world.nextModel, world.shared?)

theorem handles_of_contents {before after : World} (h : after.contents = before.contents)
    (id : Nat) : after.handles id = before.handles id := by
  simp only [contents, Prod.mk.injEq] at h
  simp only [handles, h]

theorem model?_of_contents {before after : World} (h : after.contents = before.contents)
    (id : Nat) : after.model? id = before.model? id := by
  simp only [contents, Prod.mk.injEq] at h
  simp only [model?, h]

theorem exists_shared_of_handles {world : World} {id : Nat} (h : 0 < world.handles id) :
    ∃ shared, world.shared? id = some shared ∧ shared.handles = world.handles id := by
  unfold handles at h ⊢
  cases hshared : world.shared? id with
  | none => simp [hshared] at h
  | some shared => exact ⟨shared, rfl, rfl⟩

theorem exists_model_of_handles {world : World} {id : Nat} (h : 0 < world.handles id) :
    ∃ model, world.model? id = some model := by
  obtain ⟨shared, hshared, -⟩ := exists_shared_of_handles h
  exact ⟨shared.model, by simp [model?, hshared]⟩

theorem shared?_retain : (world.retain id).shared? other =
    if id = other then (world.shared? id).map fun shared =>
      { shared with handles := shared.handles + 1 }
    else world.shared? other :=
  Table.get?_update _ _ _ _

@[simp] theorem model?_retain : (world.retain id).model? other = world.model? other := by
  unfold model?
  rw [shared?_retain]
  split
  · rename_i h
    subst h
    simp [Function.comp_def]
  · rfl

theorem handles_retain (h : 0 < world.handles id) :
    (world.retain id).handles other = world.handles other + stake (some id) other := by
  obtain ⟨shared, hshared, hhandles⟩ := exists_shared_of_handles h
  have hself : (world.retain id).handles id = world.handles id + 1 := by
    rw [handles, shared?_retain, if_pos rfl, hshared, Option.map_some, hhandles]
  by_cases heq : id = other
  · rw [← heq, stake_self, hself]
  · rw [handles, shared?_retain, if_neg heq, stake_of_ne heq]
    rfl

theorem shared?_letGo : (world.letGo id).shared? other =
    if id = other then (world.shared? id).bind fun shared =>
      if shared.handles ≤ 1 then none else some { shared with handles := shared.handles - 1 }
    else world.shared? other := by
  unfold letGo
  cases hshared : world.shared? id with
  | none =>
    by_cases heq : id = other
    · rw [if_pos heq, ← heq]
      exact hshared
    · rw [if_neg heq]
  | some shared =>
    dsimp only [Option.bind_some]
    by_cases hlast : shared.handles ≤ 1
    · rw [if_pos hlast, if_pos hlast]
      have htitles := shared.model.payload.titles_release
        { world with models := Table.erase world.models id }
      simp only [titles, Prod.mk.injEq] at htitles
      rw [shared?, htitles.1]
      exact Table.get?_erase _ _ _
    · rw [if_neg hlast, if_neg hlast]
      exact Table.get?_set _ _ _ _

theorem handles_letGo :
    (world.letGo id).handles other = world.handles other - stake (some id) other := by
  unfold handles
  rw [shared?_letGo]
  by_cases heq : id = other
  · subst heq
    rw [if_pos rfl, stake_self]
    cases world.shared? id with
    | none => rfl
    | some shared =>
      dsimp only [Option.bind_some]
      by_cases hlast : shared.handles ≤ 1
      · rw [if_pos hlast]
        dsimp only
        omega
      · rw [if_neg hlast]
  · rw [if_neg heq, stake_of_ne heq]
    rfl

theorem model?_letGo (h : stake (some id) other < world.handles other) :
    (world.letGo id).model? other = world.model? other := by
  unfold model?
  rw [shared?_letGo]
  by_cases heq : id = other
  · subst heq
    rw [stake_self] at h
    obtain ⟨shared, hshared, hhandles⟩ := exists_shared_of_handles (Nat.lt_of_succ_lt h)
    have hmore : ¬ shared.handles ≤ 1 := by omega
    simp [hshared, hmore]
  · rw [if_neg heq]

theorem contents_letGo_retain (h : 0 < world.handles id) :
    ((world.retain id).letGo id).contents = world.contents := by
  obtain ⟨shared, hshared, hhandles⟩ := exists_shared_of_handles h
  have hretained : (world.retain id).shared? id =
      some { shared with handles := shared.handles + 1 } := by
    rw [shared?_retain, if_pos rfl, hshared, Option.map_some]
  have hmore : ¬ shared.handles + 1 ≤ 1 := by omega
  have htable : ((world.retain id).letGo id).shared? = world.shared? := by
    funext other
    rw [shared?_letGo, hretained]
    by_cases heq : id = other
    · subst heq
      simp [hmore, hshared]
    · rw [if_neg heq, shared?_retain, if_neg heq]
  have hretain : world.retain id =
      { world with models := (world.retain id).models } := rfl
  have hletGo : (world.retain id).letGo id =
      { world with models := ((world.retain id).letGo id).models } := by
    simp only [letGo, hretained, if_neg hmore]
    rfl
  simp only [contents, htable]
  rw [hletGo]

end World

namespace Takeover

variable {ε : Type}

/-- What is true of an engine that owns its handles: those that are kept and the one that is given
are all it can let go of, and a model that somebody else holds stays as it is. -/
structure Orderly (kept : ε → Nat → Nat) (start : Takeover ε) : Prop where
  balance : ∀ id arguments world engine,
    (∀ other, kept engine other + stake (some id) other ≤ world.handles other) →
    ∀ other, (start id arguments (world, engine)).2.1.handles other +
        (kept engine other + stake (some id) other) =
      world.handles other + kept (start id arguments (world, engine)).2.2 other
  others : ∀ id arguments world engine,
    (∀ other, kept engine other + stake (some id) other ≤ world.handles other) →
    ∀ other, kept engine other + stake (some id) other < world.handles other →
      (start id arguments (world, engine)).2.1.model? other = world.model? other

/-- An engine that drops the handle when refusing, and does nothing else to the world. -/
def Declines (kept : ε → Nat → Nat) (start : Takeover ε) : Prop :=
  ∀ id arguments world engine reasons after,
    start id arguments (world, engine) = (.error reasons, after) →
      after.1.contents = (world.letGo id).contents ∧ kept after.2 = kept engine

structure Call where
  id : Nat
  model : Option Model
  handles : Nat
  arguments : String
  answer : Except (List String) Unit

def watched (start : Takeover ε) : Takeover (ε × List Call) :=
  fun id arguments (world, engine, calls) =>
    let (answer, after, engine) := start id arguments (world, engine)
    let call := ⟨id, world.model? id, world.handles id, arguments, answer⟩
    (answer, after, engine, calls ++ [call])

end Takeover

namespace Engine

def kept (engine : Engine) : Nat → Nat := stake engine.held

theorem accept_orderly (remark : Bool) : (accept remark).Orderly kept := by
  have hnoted (world : World) (note : Note) :
      (if remark then world.note note else world).contents = world.contents := by
    split <;> rfl
  constructor
  · intro id arguments world engine hle other
    have hother := hle other
    unfold accept kept at *
    dsimp only
    cases hheld : engine.held with
    | none =>
      dsimp only
      rw [World.handles_of_contents (hnoted world _), stake_none]
      omega
    | some old =>
      rw [hheld] at hother
      dsimp only
      rw [World.handles_letGo, World.handles_of_contents (hnoted world _)]
      omega
  · intro id arguments world engine hle other hlt
    unfold accept kept at *
    dsimp only
    cases hheld : engine.held with
    | none => exact World.model?_of_contents (hnoted world _) other
    | some old =>
      rw [hheld] at hlt
      dsimp only
      rw [World.model?_letGo, World.model?_of_contents (hnoted world _)]
      rw [World.handles_of_contents (hnoted world _)]
      omega

theorem refuse_orderly (reasons : List String) : (refuse reasons).Orderly kept := by
  constructor
  · intro id arguments world engine hle other
    have hother := hle other
    show (world.letGo id).handles other + _ = _ + engine.kept other
    rw [World.handles_letGo]
    omega
  · intro id arguments world engine hle other hlt
    exact world.model?_letGo id other (by omega)

theorem answer_orderly : (reasons : Option (List String)) → (answer reasons).Orderly kept
  | some reasons => refuse_orderly reasons
  | none => accept_orderly false

theorem answer_declines (reasons : Option (List String)) : (answer reasons).Declines kept := by
  intro id arguments world engine given after h
  cases reasons with
  | none => cases h
  | some reasons =>
    cases h
    exact ⟨rfl, rfl⟩

end Engine

end ModelBundle
