import Mathlib.Algebra.Order.BigOperators.Group.Finset
import ModelBundle.Model
import ModelBundle.Proofs.Sessions.Engines

/-!
Handing models to engines, one after the other.  The handles on a model are those of the callers and
those that the engines keep; the engine with the model is asked once, and one that declines leaves
everything as it was.
-/

namespace ModelBundle

section HandOff

variable {ε : Type} {world : World} {id : Nat} {model : Model}

theorem handOff_of_empty (hmodel : world.model? id = some model) (hempty : model.bytes = [])
    (start : Takeover ε) (settings : EngineSettings) (engine : ε) :
    handOff start id settings (world, engine) =
      (.error (.refused [emptyPayload]), (world, engine)) := by
  simp [handOff, hmodel, hempty]

def World.offered (world : World) (id : Nat) (model : Model) (arguments : String) : World :=
  ((world.note (.handingOver model.bytes.length)).note (.engineArguments arguments)).retain id

theorem handOff_of_bytes (hmodel : world.model? id = some model) (hbytes : model.bytes ≠ [])
    (start : Takeover ε) (settings : EngineSettings) (engine : ε) :
    handOff start id settings (world, engine) =
      let arguments := settings.arguments model.source.modelName
      let answered := start id arguments (world.offered id model arguments, engine)
      ((answered.1.map fun _ => arguments).mapError .refused, answered.2) := by
  simp only [handOff, hmodel, List.isEmpty_iff, hbytes, if_false, World.offered]
  split <;> rename_i h <;> rw [h] <;> rfl

theorem World.model?_offered (world : World) (id : Nat) (model : Model) (arguments : String)
    (other : Nat) : (world.offered id model arguments).model? other = world.model? other :=
  World.model?_retain _ id other

theorem World.handles_offered (h : 0 < world.handles id) (model : Model) (arguments : String)
    (other : Nat) : (world.offered id model arguments).handles other =
      world.handles other + stake (some id) other :=
  World.handles_retain _ id other h

theorem World.contents_letGo_offered (h : 0 < world.handles id) (model : Model)
    (arguments : String) :
    ((world.offered id model arguments).letGo id).contents = world.contents :=
  World.contents_letGo_retain _ id h

theorem handOff_watched (start : Takeover ε) (id : Nat) (settings : EngineSettings)
    (world : World) (engine : ε) (calls : List Takeover.Call) :
    let (result, after, engine', _) :=
      handOff start.watched id settings (world, engine, calls)
    (result, after, engine') = handOff start id settings (world, engine) := by
  cases hmodel : world.model? id with
  | none => simp [handOff, hmodel]
  | some model =>
    by_cases hempty : model.bytes = []
    · rw [handOff_of_empty hmodel hempty, handOff_of_empty hmodel hempty]
    · rw [handOff_of_bytes hmodel hempty, handOff_of_bytes hmodel hempty]
      rfl

end HandOff

/-- A model for one of several engines, and how that engine starts on it. -/
structure Delivery {ι : Type} (ε : ι → Type) where
  index : ι
  start : Takeover (ε index)
  id : Nat
  settings : EngineSettings

namespace Delivery

variable {ι : Type} {ε : ι → Type}

section Handles

variable [Fintype ι] (kept : (index : ι) → ε index → Nat → Nat) (held : Nat → Nat)

/-- Every handle is held by a caller or kept by an engine. -/
def Owned (state : World × ((index : ι) → ε index)) : Prop :=
  ∀ id, state.1.handles id = held id + ∑ index, kept index (state.2 index) id

variable {kept held}

theorem Owned.kept_le {state : World × ((index : ι) → ε index)} (owned : Owned kept held state)
    (index : ι) (id : Nat) : held id + kept index (state.2 index) id ≤ state.1.handles id := by
  have := Finset.single_le_sum (f := fun other => kept other (state.2 other) id)
    (fun _ _ => Nat.zero_le _) (Finset.mem_univ index)
  rw [owned id]
  omega

end Handles

def calls (delivery : Delivery ε) (state : World × ((index : ι) → ε index)) :
    List Takeover.Call :=
  (handOff delivery.start.watched delivery.id delivery.settings
    (state.1, state.2 delivery.index, [])).2.2.2

variable [DecidableEq ι]

def deliver (delivery : Delivery ε) : Action (World × ((index : ι) → ε index)) String :=
  fun (world, engines) =>
    let (result, after, engine) := handOff delivery.start delivery.id delivery.settings
      (world, engines delivery.index)
    (result, after, Function.update engines delivery.index engine)

def deliverAll (deliveries : List (Delivery ε)) (state : World × ((index : ι) → ε index)) :
    World × ((index : ι) → ε index) :=
  deliveries.foldl (fun state delivery => (delivery.deliver state).2) state

section Step

variable {delivery : Delivery ε} {world : World} {model : Model}

theorem deliver_of_empty (hmodel : world.model? delivery.id = some model)
    (hempty : model.bytes = []) (engines : (index : ι) → ε index) :
    delivery.calls (world, engines) = [] ∧
      delivery.deliver (world, engines) =
        (.error (.refused [emptyPayload]), (world, engines)) := by
  unfold calls deliver
  dsimp only
  rw [handOff_of_empty hmodel hempty, handOff_of_empty hmodel hempty]
  simp

theorem deliver_of_bytes (hmodel : world.model? delivery.id = some model)
    (hbytes : model.bytes ≠ []) (engines : (index : ι) → ε index) :
    let arguments := delivery.settings.arguments model.source.modelName
    let offered := world.offered delivery.id model arguments
    ∃ answer after engine,
      delivery.start delivery.id arguments (offered, engines delivery.index) =
        (answer, after, engine) ∧
      delivery.calls (world, engines) = [⟨delivery.id, offered.model? delivery.id,
        offered.handles delivery.id, arguments, answer⟩] ∧
      delivery.deliver (world, engines) =
        ((answer.map fun _ => arguments).mapError .refused,
          after, Function.update engines delivery.index engine) := by
  unfold calls deliver
  dsimp only
  rw [handOff_of_bytes hmodel hbytes, handOff_of_bytes hmodel hbytes]
  exact ⟨_, _, _, rfl, rfl, rfl⟩

end Step

variable [Fintype ι] {kept : (index : ι) → ε index → Nat → Nat} {held : Nat → Nat}

theorem sum_update (kept : (index : ι) → ε index → Nat → Nat)
    (engines : (index : ι) → ε index) (index : ι) (engine : ε index) (id : Nat) :
    (∑ other, kept other (Function.update engines index engine other) id) +
        kept index (engines index) id =
      (∑ other, kept other (engines other) id) + kept index engine id := by
  have hrest : ∑ other ∈ Finset.univ.erase index,
      kept other (Function.update engines index engine other) id =
      ∑ other ∈ Finset.univ.erase index, kept other (engines other) id := by
    apply Finset.sum_congr rfl
    intro other hmem
    rw [Function.update_of_ne (Finset.ne_of_mem_erase hmem)]
  rw [← Finset.add_sum_erase _ _ (Finset.mem_univ index), hrest,
    ← Finset.add_sum_erase _ (fun other => kept other (engines other) id) (Finset.mem_univ index),
    Function.update_self]
  omega

section Run

variable {state : World × ((index : ι) → ε index)} {delivery : Delivery ε}

theorem deliver_owned (owned : Owned kept held state)
    (orderly : delivery.start.Orderly (kept delivery.index)) (hheld : 0 < held delivery.id) :
    Owned kept held (delivery.deliver state).2 ∧
      ∀ id, 0 < held id → (delivery.deliver state).2.1.model? id = state.1.model? id := by
  obtain ⟨world, engines⟩ := state
  have hle := owned.kept_le delivery.index
  dsimp only at hle
  have hpos : 0 < world.handles delivery.id := by
    have := hle delivery.id
    omega
  obtain ⟨model, hmodel⟩ := World.exists_model_of_handles hpos
  by_cases hempty : model.bytes = []
  · rw [(deliver_of_empty hmodel hempty engines).2]
    exact ⟨owned, fun _ _ => rfl⟩
  · obtain ⟨answer, after, engine, hstart, -, hdeliver⟩ :=
      deliver_of_bytes hmodel hempty engines
    generalize delivery.settings.arguments model.source.modelName = arguments at hstart hdeliver
    have hoffered := World.handles_offered hpos model arguments
    have hown : ∀ other, kept delivery.index (engines delivery.index) other +
        stake (some delivery.id) other ≤
          (world.offered delivery.id model arguments).handles other := by
      intro other
      have := hle other
      rw [hoffered other]
      omega
    have hbalance := orderly.balance _ arguments _ _ hown
    have hothers := orderly.others _ arguments _ _ hown
    rw [hstart] at hbalance hothers
    rw [hdeliver]
    refine ⟨fun id => ?_, fun id hid => ?_⟩
    · have hsum := sum_update kept engines delivery.index engine id
      have hid := hbalance id
      have hbefore := owned id
      rw [hoffered id] at hid
      dsimp only at hid hbefore ⊢
      omega
    · have hmore := hle id
      rw [← World.model?_offered world delivery.id model arguments id]
      apply hothers id
      rw [hoffered id]
      omega

theorem deliverAll_owned (deliveries : List (Delivery ε)) (owned : Owned kept held state)
    (orderly : ∀ delivery ∈ deliveries, delivery.start.Orderly (kept delivery.index))
    (caller : ∀ delivery ∈ deliveries, 0 < held delivery.id) :
    Owned kept held (deliverAll deliveries state) ∧
      ∀ id, 0 < held id → (deliverAll deliveries state).1.model? id = state.1.model? id := by
  induction deliveries generalizing state with
  | nil => exact ⟨owned, fun _ _ => rfl⟩
  | cons delivery rest ih =>
    obtain ⟨hstep, hsame⟩ := deliver_owned owned (orderly delivery List.mem_cons_self)
      (caller delivery List.mem_cons_self)
    obtain ⟨hrest, hlater⟩ := ih hstep
      (fun later hmem => orderly later (List.mem_cons_of_mem _ hmem))
      (fun later hmem => caller later (List.mem_cons_of_mem _ hmem))
    exact ⟨hrest, fun id hid => (hlater id hid).trans (hsame id hid)⟩

end Run

section Outcome

variable {ι : Type} [Fintype ι] [DecidableEq ι] {ε : ι → Type}
  (kept : (index : ι) → ε index → Nat → Nat) (held : Nat → Nat) (last : Delivery ε)
  (before : World × ((index : ι) → ε index)) (result : Except LoadError String)
  (after : World × ((index : ι) → ε index)) (model : Model)

/-- What a delivery comes to when the engine is called, once and with one more handle, and gives
this answer. -/
structure Answered (answer : Except (List String) Unit) : Prop where
  calls : last.calls before = [⟨last.id, some model, before.1.handles last.id + 1,
    last.settings.arguments model.source.modelName, answer⟩]
  accepted : answer = .ok () → result = .ok (last.settings.arguments model.source.modelName)
  owned : last.start.Orderly (kept last.index) → Owned kept held after
  /-- The handles grow by what the engine keeps. -/
  handles : last.start.Orderly (kept last.index) → ∀ id,
    after.1.handles id + kept last.index (before.2 last.index) id =
      before.1.handles id + kept last.index (after.2 last.index) id
  refused : ∀ reasons, answer = .error reasons → result = .error (.refused reasons) ∧
    (LoadError.refused reasons).message =
      "inference engine refused the model: " ++ String.intercalate ": " reasons
  declined : ∀ reasons, answer = .error reasons → last.start.Declines (kept last.index) →
    after.1.contents = before.1.contents ∧
      kept last.index (after.2 last.index) = kept last.index (before.2 last.index)

/-- What a delivery of this model comes to. -/
structure Outcome : Prop where
  owned : Owned kept held before
  others : ∀ index ≠ last.index, after.2 index = before.2 index
  current : before.1.model? last.id = some model
  empty : model.bytes = [] →
    result = .error (.refused [emptyPayload]) ∧ last.calls before = [] ∧ after = before
  answered : model.bytes ≠ [] → ∃ answer, Answered kept held last before result after model answer

end Outcome

/-- For any deliveries to any engines, orderly so far, and one more. -/
theorem deliver_outcome {initial : World × ((index : ι) → ε index)}
    (owned : Owned kept held initial) (earlier : List (Delivery ε)) (last : Delivery ε)
    (orderly : ∀ delivery ∈ earlier, delivery.start.Orderly (kept delivery.index))
    (caller : ∀ delivery ∈ earlier, 0 < held delivery.id) (hheld : 0 < held last.id) :
    let before := deliverAll earlier initial
    let (result, after) := last.deliver before
    ∃ model, initial.1.model? last.id = some model ∧
      Outcome kept held last before result after model := by
  obtain ⟨hbefore, hsame⟩ := deliverAll_owned earlier owned orderly caller
  dsimp only
  generalize deliverAll earlier initial = before at hbefore hsame ⊢
  obtain ⟨world, engines⟩ := before
  have hpos : 0 < world.handles last.id := by
    have := hbefore.kept_le last.index last.id
    dsimp only at this
    omega
  obtain ⟨model, hmodel⟩ := World.exists_model_of_handles hpos
  refine ⟨model, (hsame last.id hheld).symm.trans hmodel, hbefore, ?_, hmodel, ?_, ?_⟩
  · intro index hne
    exact Function.update_of_ne hne _ _
  · intro hempty
    obtain ⟨hcalls, hdeliver⟩ := deliver_of_empty hmodel hempty engines
    rw [hdeliver]
    exact ⟨rfl, hcalls, rfl⟩
  · intro hbytes
    obtain ⟨answer, after, engine, hstart, hcalls, hdeliver⟩ :=
      deliver_of_bytes hmodel hbytes engines
    rw [World.model?_offered, World.handles_offered hpos, stake_self, hmodel] at hcalls
    refine ⟨answer, hcalls, ?_, fun horderly => (deliver_owned hbefore horderly hheld).1,
      ?_, ?_, ?_⟩
    · rintro rfl
      rw [hdeliver]
      rfl
    · intro horderly id
      have howned := (deliver_owned hbefore horderly hheld).1
      have hsum := sum_update kept engines last.index engine id
      have hthen := hbefore id
      have hnow := howned id
      rw [hdeliver] at hnow ⊢
      dsimp only at hthen hnow ⊢
      rw [Function.update_self]
      omega
    · rintro reasons rfl
      rw [hdeliver]
      exact ⟨rfl, rfl⟩
    · rintro reasons rfl declines
      rw [hdeliver]
      obtain ⟨hcontents, hkept⟩ := declines _ _ _ _ _ _ hstart
      refine ⟨hcontents.trans (World.contents_letGo_offered hpos _ _), ?_⟩
      dsimp only
      rw [Function.update_self, hkept]

def weights : Model := ⟨.buffered ⟨Magic.gguf⟩, .file "weights.gguf", true⟩

/-- One model and two engines.  The first takes it, and the second refuses it. -/
def oneModel : World × (Fin 2 → Engine) :=
  (((World.ofFiles .empty).share weights).2, fun _ => .idle)

def accepted : Delivery fun _ : Fin 2 => Engine := ⟨0, Engine.answer none, 0, .default⟩

def refused : Delivery fun _ : Fin 2 => Engine :=
  ⟨1, Engine.answer (some ["cannot start", "no GPU"]), 0, .default⟩

theorem owned_oneModel : Owned (fun _ => Engine.kept) (stake (some 0)) oneModel := by
  intro id
  have hkept : ∑ index : Fin 2, (oneModel.2 index).kept id = 0 :=
    Finset.sum_eq_zero fun _ _ => rfl
  rw [hkept]
  by_cases h : 0 = id
  · subst h
    rfl
  · rw [stake_of_ne h]
    simp [oneModel, World.share, World.ofFiles, World.handles, World.shared?, Table.get?, Table.set,
      Table.erase, h]

theorem deliver_outcome_refused :
    let before := deliverAll [accepted] oneModel
    let (result, after) := refused.deliver before
    Owned (fun _ => Engine.kept) (stake (some 0)) before ∧
      before.1.handles 0 = 2 ∧ (refused.calls before).length = 1 ∧
      result = .error (.refused ["cannot start", "no GPU"]) ∧
      (LoadError.refused ["cannot start", "no GPU"]).message =
        "inference engine refused the model: cannot start: no GPU" ∧
      after.1.contents = before.1.contents := by
  have orderly : ∀ delivery ∈ [accepted], delivery.start.Orderly Engine.kept := by
    intro delivery hmem
    rw [List.mem_singleton.mp hmem]
    exact Engine.answer_orderly none
  obtain ⟨model, hmodel, outcome⟩ :=
    deliver_outcome owned_oneModel [accepted] refused orderly (by decide) (by decide)
  cases hmodel
  obtain ⟨answer, answered⟩ := outcome.answered (by decide)
  have hanswer : answer = .error ["cannot start", "no GPU"] :=
    congrArg (fun call : Takeover.Call => call.answer) (List.cons.inj answered.calls).1.symm
  obtain ⟨hresult, hmessage⟩ := answered.refused _ hanswer
  obtain ⟨hcontents, -⟩ := answered.declined _ hanswer
    (Engine.answer_declines (some ["cannot start", "no GPU"]))
  exact ⟨outcome.owned, rfl, by rw [answered.calls]; rfl, hresult, hmessage, hcontents⟩

end Delivery

end ModelBundle
