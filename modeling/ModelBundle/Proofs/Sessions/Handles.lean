import ModelBundle.Proofs.Sessions.Accounts

/-!
Models and the handles on them.  A model is there as long as somebody holds it, with the bytes it
was loaded with unless they were given back early.
-/

namespace ModelBundle

/-- The models that were loaded, as they were then, and those whose bytes were given back while a
handle was still on them. -/
structure Record where
  loaded : Table Nat Model
  early : List Nat

namespace Record

def new : Record := ⟨[], []⟩

def model? (record : Record) (id : Nat) : Option Model :=
  Table.get? record.loaded id

def left (record : Record) (id : Nat) (model : Model) : Model :=
  if id ∈ record.early then model.cleared else model

def load (record : Record) (id : Nat) (model : Model) : Record :=
  { record with loaded := Table.set record.loaded id model }

def releaseEarly (record : Record) (id : Nat) : Record :=
  { record with early := id :: record.early }

theorem model?_load (record : Record) (id other : Nat) (model : Model) :
    (record.load id model).model? other = if id = other then some model else record.model? other :=
  Table.get?_set _ _ _ _

theorem left_releaseEarly (record : Record) (id other : Nat) (model : Model) :
    (record.releaseEarly id).left other model =
      if id = other then model.cleared else record.left other model := by
  unfold Record.left Record.releaseEarly
  by_cases h : id = other
  · subst h
    rw [if_pos rfl, if_pos List.mem_cons_self]
  · have hmem : other ∈ id :: record.early ↔ other ∈ record.early := by
      rw [List.mem_cons]
      exact or_iff_right (Ne.symm h)
    simp only [hmem, h, if_false]

theorem cleared_left (record : Record) (id : Nat) (model : Model) :
    (record.left id model).cleared = model.cleared := by
  unfold Record.left
  split
  · simp only [Model.cleared, Payload.cleared_cleared]
  · rfl

end Record

/-- The world agrees with the record, and the handles it counts are those that are held. -/
structure Kept (world : World) (record : Record) (holders : Nat → Nat) : Prop where
  distinct : Table.Distinct world.models
  handles : ∀ id, world.handles id = holders id
  counted : ∀ id shared, world.shared? id = some shared → 0 < shared.handles
  balance : ∀ number, world.closings number + world.owners number =
    if number < world.mapped then 1 else 0
  recorded : ∀ id shared, world.shared? id = some shared →
    ∃ model, record.model? id = some model ∧ shared.model = record.left id model
  known : ∀ id, world.nextModel ≤ id → record.model? id = none ∧ id ∉ record.early
  made : ∀ id model number, record.model? id = some model →
    model.payload.number? = some number → number < world.mapped
  single : ∀ id other model model' number, record.model? id = some model →
    record.model? other = some model' → model.payload.number? = some number →
    model'.payload.number? = some number → id = other

theorem World.stake_le_owners {world : World} {id : Nat} {shared : Shared}
    (distinct : Table.Distinct world.models) (h : world.shared? id = some shared) (number : Nat) :
    stake shared.model.payload.number? number ≤ world.owners number :=
  Table.share_le_total (fun shared => stake shared.model.payload.number? number) distinct h

namespace Kept

variable {world : World} {record : Record} {holders : Nat → Nat}

theorem congr {holders' : Nat → Nat} (kept : Kept world record holders)
    (h : ∀ id, holders id = holders' id) : Kept world record holders' :=
  { kept with handles := fun id => (kept.handles id).trans (h id) }

theorem shared (kept : Kept world record holders) {id : Nat} (held : 0 < holders id) :
    ∃ shared, world.shared? id = some shared := by
  have hhandles := kept.handles id
  unfold World.handles at hhandles
  cases h : world.shared? id with
  | some shared => exact ⟨shared, rfl⟩
  | none =>
    rw [h] at hhandles
    simp only at hhandles
    omega

theorem held (kept : Kept world record holders) {id : Nat} {shared : Shared}
    (h : world.shared? id = some shared) : 0 < holders id := by
  have hcounted := kept.counted id shared h
  rw [← kept.handles id, World.handles, h]
  exact hcounted

theorem shared?_next (kept : Kept world record holders) : world.shared? world.nextModel = none := by
  cases h : world.shared? world.nextModel with
  | none => rfl
  | some shared =>
    obtain ⟨model, hmodel, -⟩ := kept.recorded _ _ h
    rw [(kept.known _ (Nat.le_refl _)).1] at hmodel
    simp at hmodel

theorem accounted {after : World} (kept : Kept world record holders)
    (h : Accounted world after (fun _ => 0) fun _ => 0) : Kept after record holders := by
  have hshared : after.shared? = world.shared? := by
    unfold World.shared?
    rw [h.models]
  have howners : after.owners = world.owners := by
    unfold World.owners
    rw [h.models]
  refine ⟨?_, ?_, ?_, ?_, ?_, ?_, ?_, kept.single⟩
  · rw [h.models]
    exact kept.distinct
  · unfold World.handles
    rw [hshared]
    exact kept.handles
  · rw [hshared]
    exact kept.counted
  · intro number
    have hbalance := h.balance number
    have hkept := kept.balance number
    have hmapped := h.mapped
    rw [howners]
    unfold World.fresh at hbalance
    split at hbalance <;> split <;> split at hkept <;> omega
  · rw [hshared]
    exact kept.recorded
  · rw [h.nextModel]
    exact kept.known
  · intro id model number hmodel hnumber
    exact Nat.lt_of_lt_of_le (kept.made id model number hmodel hnumber) h.mapped

theorem holders_eq (kept : Kept world record holders) {id : Nat} {shared : Shared}
    (h : world.shared? id = some shared) : holders id = shared.handles := by
  rw [← kept.handles id, World.handles, h]

theorem assign {after : World} {record' : Record} {id : Nat}
    (kept : Kept world record holders) (new? : Option Shared)
    (hmodels : after.models = Table.assign world.models id new?)
    (hcounted : ∀ new, new? = some new → 0 < new.handles)
    (hmapped : world.mapped ≤ after.mapped)
    (hbalance : ∀ number,
      after.closings number + (new?.map fun new => stake new.model.payload.number? number).getD 0 =
        world.closings number + Table.shareAt (fun old : Shared =>
          stake old.model.payload.number? number) world.models id + world.fresh after number)
    (hrecorded : ∀ new, new? = some new →
      ∃ model, record'.model? id = some model ∧ new.model = record'.left id model)
    (hothers : ∀ other model, id ≠ other → record.model? other = some model →
      record'.model? other = some model ∧ record'.left other model = record.left other model)
    (known : ∀ other, after.nextModel ≤ other →
      record'.model? other = none ∧ other ∉ record'.early)
    (made : ∀ other model number, record'.model? other = some model →
      model.payload.number? = some number → number < after.mapped)
    (single : ∀ one other model model' number, record'.model? one = some model →
      record'.model? other = some model' → model.payload.number? = some number →
      model'.payload.number? = some number → one = other) :
    Kept after record' fun other =>
      if id = other then (new?.map Shared.handles).getD 0 else holders other := by
  have hshared : ∀ other, after.shared? other =
      if id = other then new? else world.shared? other := by
    intro other
    unfold World.shared?
    rw [hmodels]
    exact Table.get?_assign _ _ _ _
  refine ⟨?_, ?_, ?_, ?_, ?_, known, made, single⟩
  · rw [hmodels]
    exact Table.distinct_assign kept.distinct _ _
  · intro other
    unfold World.handles
    rw [hshared]
    by_cases h : id = other
    · rw [if_pos h, if_pos h]
      cases new? <;> rfl
    · rw [if_neg h, if_neg h]
      exact kept.handles other
  · intro other shared h
    rw [hshared] at h
    split at h
    · exact hcounted shared h
    · exact kept.counted other shared h
  · intro number
    have hsum := Table.total_assign (fun shared => stake shared.model.payload.number? number)
      kept.distinct id new?
    have hchange := hbalance number
    have hkept := kept.balance number
    unfold World.owners World.fresh at *
    rw [hmodels]
    split at hchange <;> split <;> split at hkept <;> omega
  · intro other shared h
    rw [hshared] at h
    split at h
    case isTrue heq =>
      rw [← heq]
      exact hrecorded shared h
    case isFalse hne =>
      obtain ⟨model, hmodel, hleft⟩ := kept.recorded other shared h
      obtain ⟨hmodel', hleft'⟩ := hothers other model hne hmodel
      exact ⟨model, hmodel', hleft.trans hleft'.symm⟩

theorem count {id : Nat} {old : Shared} (kept : Kept world record holders)
    (hold : world.shared? id = some old) {handles : Nat} (hcounted : 0 < handles) :
    Kept { world with models := Table.set world.models id { old with handles } } record
      fun other => if id = other then handles else holders other := by
  apply kept.assign (some { old with handles }) rfl
  · rintro _ ⟨⟩
    exact hcounted
  · exact Nat.le_refl _
  · intro number
    have hfresh : world.fresh { world with
        models := Table.set world.models id { old with handles } } number = 0 :=
      if_neg fun h => Nat.not_lt.mpr h.1 h.2
    rw [hfresh, Table.shareAt_of_some _ hold]
    rfl
  · rintro _ ⟨⟩
    exact kept.recorded id old hold
  · exact fun _ _ _ h => ⟨h, rfl⟩
  · exact kept.known
  · exact kept.made
  · exact kept.single

theorem retain (kept : Kept world record holders) {id : Nat} (held : 0 < holders id) :
    Kept (world.retain id) record fun other => holders other + stake (some id) other := by
  obtain ⟨old, hold⟩ := kept.shared held
  have hretain : world.retain id = { world with
      models := Table.set world.models id { old with handles := old.handles + 1 } } := by
    unfold World.retain Table.update
    rw [show Table.get? world.models id = some old from hold]
  rw [hretain]
  apply (kept.count hold (Nat.succ_pos old.handles)).congr
  intro other
  by_cases h : id = other
  · subst h
    rw [if_pos rfl, stake_self, kept.holders_eq hold]
  · rw [if_neg h, stake_of_ne h, Nat.add_zero]

theorem erase {id : Nat} {old : Shared} (kept : Kept world record holders)
    (hold : world.shared? id = some old) :
    Kept (old.model.payload.release { world with models := Table.erase world.models id }).2 record
      fun other => if id = other then 0 else holders other := by
  have hrelease := Accounted.release old.model.payload
    { world with models := Table.erase world.models id }
  apply kept.assign none hrelease.models
  · rintro _ ⟨⟩
  · exact hrelease.mapped
  · intro number
    have hgiven := hrelease.balance number
    rw [Table.shareAt_of_some _ hold]
    exact hgiven
  · rintro _ ⟨⟩
  · exact fun _ _ _ h => ⟨h, rfl⟩
  · rw [hrelease.nextModel]
    exact kept.known
  · intro other model number hmodel hnumber
    exact Nat.lt_of_lt_of_le (kept.made other model number hmodel hnumber) hrelease.mapped
  · exact kept.single

theorem letGo (kept : Kept world record holders) {id : Nat} (held : 0 < holders id) :
    Kept (world.letGo id) record fun other => holders other - stake (some id) other := by
  obtain ⟨old, hold⟩ := kept.shared held
  have hcounted := kept.counted id old hold
  have hholders := kept.holders_eq hold
  unfold World.letGo
  simp only [hold]
  split
  case isTrue hlast =>
    apply (kept.erase hold).congr
    intro other
    by_cases h : id = other
    · subst h
      rw [if_pos rfl, stake_self]
      omega
    · rw [if_neg h, stake_of_ne h, Nat.sub_zero]
  case isFalse hmore =>
    have hpos : 0 < old.handles - 1 := by omega
    apply (kept.count hold hpos).congr
    intro other
    by_cases h : id = other
    · subst h
      rw [if_pos rfl, stake_self, hholders]
    · rw [if_neg h, stake_of_ne h, Nat.sub_zero]

theorem single_load {model : Model} (kept : Kept world record holders) (id : Nat)
    (hmade : ∀ number, model.payload.number? = some number → world.mapped ≤ number)
    (one other : Nat) (found found' : Model) (number : Nat)
    (hfound : (record.load id model).model? one = some found)
    (hfound' : (record.load id model).model? other = some found')
    (hnumber : found.payload.number? = some number)
    (hnumber' : found'.payload.number? = some number) : one = other := by
  rw [Record.model?_load] at hfound hfound'
  split at hfound <;> split at hfound'
  case isTrue.isTrue heq heq' => exact heq.symm.trans heq'
  case isTrue.isFalse =>
    cases hfound
    have := hmade number hnumber
    have := kept.made other found' number hfound' hnumber'
    omega
  case isFalse.isTrue =>
    cases hfound'
    have := hmade number hnumber'
    have := kept.made one found number hfound hnumber
    omega
  case isFalse.isFalse =>
    exact kept.single one other found found' number hfound hfound' hnumber hnumber'

theorem share {after : World} {model : Model} (kept : Kept world record holders)
    (h : Accounted world after (fun _ => 0) (stake model.payload.number?)) :
    Kept (after.share model).2 (record.load world.nextModel model)
      fun id => holders id + stake (some world.nextModel) id := by
  have hnext := kept.shared?_next
  have hmade : ∀ number, model.payload.number? = some number →
      world.mapped ≤ number ∧ number < after.mapped :=
    fun number hnumber => h.taken_made (stake_pos_iff.mpr hnumber)
  have hshared : Kept (after.share model).2 (record.load world.nextModel model) fun other =>
      if world.nextModel = other then 1 else holders other := by
    apply kept.assign (some ⟨model, 1⟩)
    · unfold World.share
      rw [h.models, h.nextModel]
      rfl
    · rintro _ ⟨⟩
      exact Nat.one_pos
    · exact h.mapped
    · intro number
      rw [Table.shareAt_of_none _ hnext]
      exact h.balance number
    · rintro _ ⟨⟩
      refine ⟨model, ?_, ?_⟩
      · rw [Record.model?_load, if_pos rfl]
      · exact (if_neg (kept.known _ (Nat.le_refl _)).2).symm
    · intro other found hne hfound
      rw [Record.model?_load, if_neg hne]
      exact ⟨hfound, rfl⟩
    · intro id hid
      have hlt : world.nextModel < id := by
        rw [← h.nextModel]
        exact hid
      rw [Record.model?_load, if_neg (Nat.ne_of_lt hlt)]
      exact kept.known id (Nat.le_of_lt hlt)
    · intro id found number hfound hnumber
      rw [Record.model?_load] at hfound
      split at hfound
      · cases hfound
        exact (hmade number hnumber).2
      · exact Nat.lt_of_lt_of_le (kept.made id found number hfound hnumber) h.mapped
    · exact kept.single_load world.nextModel fun number hnumber => (hmade number hnumber).1
  apply hshared.congr
  intro other
  by_cases heq : world.nextModel = other
  · have hzero := kept.handles other
    rw [World.handles, ← heq, hnext] at hzero
    rw [if_pos heq, ← heq, stake_self, ← hzero]
  · rw [if_neg heq, stake_of_ne heq, Nat.add_zero]

theorem releaseEarly (kept : Kept world record holders) {id : Nat} (held : 0 < holders id) :
    Kept (world.releaseEarly id) (record.releaseEarly id) holders := by
  obtain ⟨old, hold⟩ := kept.shared held
  obtain ⟨model, hmodel, hleft⟩ := kept.recorded id old hold
  have hrelease := Accounted.release old.model.payload world
  have hreleased : world.releaseEarly id = { (old.model.payload.release world).2 with
      models := Table.set world.models id { old with model := old.model.cleared } } := by
    unfold World.releaseEarly
    rw [hold]
    simp only [hrelease.models, Payload.release_fst, Model.cleared]
  have hcleared : Kept (world.releaseEarly id) (record.releaseEarly id) fun other =>
      if id = other then old.handles else holders other := by
    rw [hreleased]
    apply kept.assign (some { old with model := old.model.cleared }) rfl
    · rintro _ ⟨⟩
      exact kept.counted id old hold
    · exact hrelease.mapped
    · intro number
      have hgiven := hrelease.balance number
      rw [Table.shareAt_of_some _ hold]
      simp only [Option.map_some, Option.getD_some, Model.cleared, Payload.number?_cleared,
        stake_none]
      exact hgiven
    · rintro _ ⟨⟩
      refine ⟨model, hmodel, ?_⟩
      rw [Record.left_releaseEarly, if_pos rfl]
      dsimp only
      rw [hleft, Record.cleared_left]
    · intro other found hne hfound
      rw [Record.left_releaseEarly, if_neg hne]
      exact ⟨hfound, rfl⟩
    · intro other hother
      have hle : world.nextModel ≤ other := by
        rw [← hrelease.nextModel]
        exact hother
      refine ⟨(kept.known other hle).1, ?_⟩
      intro hmem
      rcases List.mem_cons.mp hmem with rfl | hmem
      · have hnone := (kept.known _ hle).1
        rw [hmodel] at hnone
        cases hnone
      · exact (kept.known other hle).2 hmem
    · intro other found number hfound hnumber
      exact Nat.lt_of_lt_of_le (kept.made other found number hfound hnumber) hrelease.mapped
    · exact kept.single
  apply hcleared.congr
  intro other
  split
  case isTrue heq => rw [← heq, kept.holders_eq hold]
  case isFalse => rfl

end Kept

end ModelBundle
