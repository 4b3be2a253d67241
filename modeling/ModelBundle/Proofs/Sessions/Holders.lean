import ModelBundle.Proofs.Loading.Balance
import ModelBundle.Session

/-!
Who holds which model in a session: consumers, loaders that have it active, engines that work with
it.  Whatever is done, the handles that are counted are those that are held.
-/

namespace ModelBundle

theorem pos_of_stake_le {holders : Nat → Nat} {id : Nat}
    (h : ∀ other, stake (some id) other ≤ holders other) : 0 < holders id := by
  have hid := h id
  rwa [stake_self] at hid

/-- An engine keeps the handle it is given, or lets it go. -/
def Takeover.Fair (start : Takeover Engine) : Prop :=
  ∀ (id : Nat) (arguments : String) (world : World) (engine : Engine) (record : Record)
    (holders : Nat → Nat), Kept world record holders →
    (∀ other, stake engine.held other + stake (some id) other ≤ holders other) →
    Kept (start id arguments (world, engine)).2.1 record fun other =>
      holders other + stake (start id arguments (world, engine)).2.2.held other -
        (stake engine.held other + stake (some id) other)

theorem Engine.accept_fair (remark : Bool) : Takeover.Fair (accept remark) := by
  intro id arguments world engine record holders kept hle
  have noted (note : Note) : Kept (world.note note) record holders :=
    kept.accounted (.of_silent _ rfl)
  have hkept : ∀ note, Kept (if remark then world.note note else world) record holders := by
    intro note
    split
    · exact noted note
    · exact kept
  unfold accept
  dsimp only
  cases hheld : engine.held with
  | none =>
    apply (hkept _).congr
    intro other
    rw [stake_none]
    omega
  | some old =>
    have hold : 0 < holders old := by
      have := hle old
      rw [hheld, stake_self] at this
      omega
    apply ((hkept _).letGo hold).congr
    intro other
    have := hle other
    rw [hheld] at this
    omega

theorem Engine.refuse_fair (reasons : List String) : Takeover.Fair (refuse reasons) := by
  intro id arguments world engine record holders kept hle
  have hid : 0 < holders id := by
    have := hle id
    rw [stake_self] at this
    omega
  apply (kept.letGo hid).congr
  intro other
  have := hle other
  show _ = holders other + stake engine.held other - _
  omega

theorem Engine.answer_fair : (reasons : Option (List String)) → Takeover.Fair (answer reasons)
  | some reasons => refuse_fair reasons
  | none => accept_fair false

theorem handOff_kept {start : Takeover Engine} (fair : start.Fair) {world : World}
    {record : Record} {holders : Nat → Nat} {id : Nat} (engine : Engine)
    (settings : EngineSettings) (kept : Kept world record holders) (held : 0 < holders id)
    (hle : ∀ other, stake engine.held other ≤ holders other) :
    Kept (handOff start id settings (world, engine)).2.1 record fun other =>
      holders other + stake (handOff start id settings (world, engine)).2.2.held other -
        stake engine.held other := by
  have hsame : Kept world record fun other =>
      holders other + stake engine.held other - stake engine.held other :=
    kept.congr fun other => by omega
  unfold handOff
  dsimp only
  cases world.model? id with
  | none => exact hsame
  | some model =>
    dsimp only
    split
    · exact hsame
    · have hnoted : Kept ((world.note (.handingOver model.bytes.length)).note
          (.engineArguments (settings.arguments model.source.modelName))) record holders :=
        kept.accounted (.of_silent _ rfl)
      have hretain := hnoted.retain held
      have hstart := fair id (settings.arguments model.source.modelName) _ engine record _ hretain
        fun other => Nat.add_le_add_right (hle other) _
      generalize start id (settings.arguments model.source.modelName) _ = outcome at hstart ⊢
      obtain ⟨result, state⟩ := outcome
      cases result with
      | ok done =>
        apply hstart.congr
        intro other
        dsimp only
        omega
      | error reasons =>
        apply hstart.congr
        intro other
        dsimp only
        omega

theorem Loader.drop_kept {world : World} {record : Record} {holders : Nat → Nat} {loader : Loader}
    (kept : Kept world record holders) (hle : ∀ id, stake loader.active id ≤ holders id) :
    Kept (drop (world, loader)) record fun id => holders id - stake loader.active id := by
  unfold drop
  dsimp only
  cases hactive : loader.active with
  | none => exact kept
  | some id =>
    rw [hactive] at hle
    exact kept.letGo (pos_of_stake_le hle)

theorem Loader.release_kept {world : World} {record : Record} {holders : Nat → Nat}
    {loader : Loader} (kept : Kept world record holders)
    (hle : ∀ id, stake loader.active id ≤ holders id) :
    Kept (release (world, loader)).1 record (fun id => holders id - stake loader.active id) ∧
      (release (world, loader)).2.active = none := by
  unfold release
  dsimp only
  cases hactive : loader.active with
  | none => exact ⟨kept, hactive⟩
  | some id =>
    rw [hactive] at hle
    refine ⟨Kept.letGo (kept.accounted ?_) (pos_of_stake_le hle), rfl⟩
    split <;> exact .of_silent _ rfl

theorem Engine.stop_kept {world : World} {record : Record} {holders : Nat → Nat}
    {engine : Engine} (kept : Kept world record holders)
    (hle : ∀ id, stake engine.held id ≤ holders id) :
    Kept (stop (world, engine)).1 record (fun id => holders id - stake engine.held id) ∧
      (stop (world, engine)).2.held = none := by
  unfold stop
  dsimp only
  cases hheld : engine.held with
  | none => exact ⟨kept, hheld⟩
  | some id =>
    rw [hheld] at hle
    exact ⟨kept.letGo (pos_of_stake_le hle), rfl⟩

namespace Session

def holders (session : Session) (id : Nat) : Nat :=
  Table.total (fun held => stake (some held) id) session.consumers +
    Table.total (fun loader : Loader => stake loader.active id) session.loaders +
    Table.total (fun engine : Engine => stake engine.held id) session.engines

/-- The books of a session are in order when some more handles are in hand: those of an operation
that is not done yet. -/
structure Sound (session : Session) (record : Record) (hand : Nat → Nat) : Prop where
  kept : Kept session.world record fun id => session.holders id + hand id
  consumers : Table.Distinct session.consumers
  loaders : Table.Distinct session.loaders
  engines : Table.Distinct session.engines
  mappers : ∀ name loader, session.loader? name = some loader → loader.mapper.Accountable
  active : ∀ name loader id, session.loader? name = some loader → loader.active = some id →
    id ∉ record.early

namespace Sound

variable {session : Session} {record : Record} {hand : Nat → Nat}

theorem new : Sound new .new fun _ => 0 where
  kept :=
    { distinct := Table.distinct_nil
      handles := fun _ => rfl
      counted := fun _ _ h => by cases h
      balance := fun _ => rfl
      recorded := fun _ _ h => by cases h
      known := fun _ _ => ⟨rfl, by simp [Record.new]⟩
      made := fun _ _ _ h => by cases h
      single := fun _ _ _ _ _ h => by cases h }
  consumers := Table.distinct_nil
  loaders := Table.distinct_nil
  engines := Table.distinct_nil
  mappers := fun _ _ h => by cases h
  active := fun _ _ _ h => by cases h

theorem world {world : World} {hand' : Nat → Nat} (sound : Sound session record hand)
    (kept : Kept world record fun id => session.holders id + hand' id) :
    Sound { session with world } record hand' :=
  { sound with kept }

theorem holders_pos_of_consumer (sound : Sound session record hand) {name : String} {id : Nat}
    (h : session.consumer? name = some id) : 0 < session.holders id := by
  have hle := Table.share_le_total (fun held => stake (some held) id) sound.consumers h
  rw [stake_self] at hle
  unfold holders
  omega

theorem eraseConsumer (sound : Sound session record hand) {name : String} {id : Nat}
    (h : session.consumer? name = some id) :
    Sound { session with consumers := Table.erase session.consumers name } record
      fun other => hand other + stake (some id) other := by
  refine { sound with
    kept := sound.kept.congr fun other => ?_
    consumers := Table.distinct_erase sound.consumers _ }
  have hsum := Table.total_eq_erase (fun held => stake (some held) other) sound.consumers name
  rw [Table.shareAt_of_some _ h] at hsum
  unfold holders
  dsimp only at hsum ⊢
  omega

theorem drop (sound : Sound session record hand) (name : String) :
    Sound (session.drop name) record hand := by
  unfold Session.drop
  cases h : session.consumer? name with
  | none => exact sound
  | some id =>
    have herase := sound.eraseConsumer h
    have hpos : 0 < Session.holders { session with
        consumers := Table.erase session.consumers name } id + (hand id + stake (some id) id) := by
      rw [stake_self]
      omega
    refine herase.world ((herase.kept.letGo hpos).congr fun other => ?_)
    omega

theorem keep {id : Nat}
    (sound : Sound session record fun other => hand other + stake (some id) other)
    (name : String) : Sound (session.keep name id) record hand := by
  have hdrop := sound.drop name
  have hnone : Table.get? (session.drop name).consumers name = none := by
    unfold Session.drop
    cases h : session.consumer? name with
    | none => exact h
    | some other =>
      dsimp only
      rw [Table.get?_erase, if_pos rfl]
  refine { hdrop with
    kept := hdrop.kept.congr fun other => ?_
    consumers := Table.distinct_set hdrop.consumers _ _ }
  have hsum := Table.total_set (fun held => stake (some held) other) hdrop.consumers name id
  rw [Table.shareAt_of_none _ hnone] at hsum
  unfold holders Session.keep
  dsimp only at hsum ⊢
  omega

theorem letGo {id : Nat}
    (sound : Sound session record fun other => hand other + stake (some id) other) :
    Sound { session with world := session.world.letGo id } record hand := by
  have hpos : 0 < session.holders id + (hand id + stake (some id) id) := by
    rw [stake_self]
    omega
  refine sound.world ((sound.kept.letGo hpos).congr fun other => ?_)
  omega

theorem clone (sound : Sound session record fun _ => 0) {name other : String} {held : Held}
    {after : Session} (h : session.clone name other = some (held, after)) :
    Sound after record fun _ => 0 := by
  unfold Session.clone at h
  rw [Option.map_eq_some_iff] at h
  obtain ⟨id, hid, hafter⟩ := h
  simp only [Prod.mk.injEq] at hafter
  rw [← hafter.2]
  have hretain := sound.kept.retain (Nat.lt_add_right 0 (sound.holders_pos_of_consumer hid))
  refine keep (sound.world (hretain.congr fun other => ?_)) other
  omega

theorem setLoader {work : Loader.Work} {record' : Record} {holders' hand' : Nat → Nat}
    (sound : Sound session record hand) (name : String) (kept : Kept work.1 record' holders')
    (hearly : record'.early = record.early) (accountable : work.2.mapper.Accountable)
    (hactive : ∀ id, work.2.active = some id → id ∉ record.early)
    (h : ∀ id, holders' id +
        Table.shareAt (fun loader : Loader => stake loader.active id) session.loaders name =
      session.holders id + stake work.2.active id + hand' id) :
    Sound (session.setLoader name work) record' hand' := by
  have hget : ∀ other, (session.setLoader name work).loader? other =
      if name = other then some work.2 else session.loader? other :=
    fun other => Table.get?_set _ _ _ _
  refine ⟨kept.congr fun id => ?_, sound.consumers, Table.distinct_set sound.loaders _ _,
    sound.engines, ?_, ?_⟩
  · have hsum := Table.total_set (fun loader : Loader => stake loader.active id) sound.loaders name
      work.2
    have := h id
    unfold holders at this
    unfold Session.setLoader holders
    dsimp only at hsum ⊢
    omega
  · intro other loader hother
    rw [hget] at hother
    split at hother
    · simp only [Option.some.injEq] at hother
      rw [← hother]
      exact accountable
    · exact sound.mappers other loader hother
  · intro other loader id hother hid
    rw [hearly]
    rw [hget] at hother
    split at hother
    · simp only [Option.some.injEq] at hother
      rw [← hother] at hid
      exact hactive id hid
    · exact sound.active other loader id hother hid

theorem dropLoader (sound : Sound session record hand) {name : String} {after : Session}
    (h : session.dropLoader name = some after) :
    Sound after record hand ∧ after.loader? name = none := by
  unfold Session.dropLoader at h
  rw [Option.map_eq_some_iff] at h
  obtain ⟨loader, hloader, rfl⟩ := h
  have hget : ∀ other, Table.get? (Table.erase session.loaders name) other =
      if name = other then none else session.loader? other :=
    fun other => Table.get?_erase _ _ _
  have hsum : ∀ id, session.holders id = Session.holders { session with
      loaders := Table.erase session.loaders name } id + stake loader.active id := by
    intro id
    have := Table.total_eq_erase (fun loader : Loader => stake loader.active id) sound.loaders name
    rw [Table.shareAt_of_some _ hloader] at this
    unfold holders
    dsimp only at this ⊢
    omega
  constructor
  · refine { sound with
      kept := ?_
      loaders := Table.distinct_erase sound.loaders _
      mappers := ?_
      active := ?_ }
    · have hle : ∀ id, stake loader.active id ≤ session.holders id + hand id := by
        intro id
        have := hsum id
        omega
      apply (Loader.drop_kept sound.kept hle).congr
      intro id
      have := hsum id
      show _ = Session.holders { session with
        loaders := Table.erase session.loaders name } id + hand id
      omega
    · intro other found hother
      rw [loader?, hget] at hother
      split at hother
      · simp at hother
      · exact sound.mappers other found hother
    · intro other found id hother
      rw [loader?, hget] at hother
      split at hother
      · simp at hother
      · exact sound.active other found id hother
  · show Table.get? (Table.erase session.loaders name) name = none
    rw [hget, if_pos rfl]

theorem newLoader (sound : Sound session record hand) (name : String) (settings : LoadSettings)
    {mapper : Mapper} (accountable : mapper.Accountable) :
    Sound (session.newLoader name settings mapper) record hand := by
  have hcleared : Sound ((session.dropLoader name).getD session) record hand ∧
      ((session.dropLoader name).getD session).loader? name = none := by
    cases h : session.dropLoader name with
    | some after => exact sound.dropLoader h
    | none =>
      unfold Session.dropLoader at h
      exact ⟨sound, Option.map_eq_none_iff.mp h⟩
  obtain ⟨hsound, hnone⟩ := hcleared
  apply hsound.setLoader name hsound.kept rfl accountable (fun id h => by cases h)
  intro id
  rw [Table.shareAt_of_none _ hnone]
  show _ = _ + stake none id + hand id
  rw [stake_none]
  omega

theorem release (sound : Sound session record hand) {name : String} {after : Session}
    (h : session.release name = some after) : Sound after record hand := by
  unfold Session.release at h
  rw [Option.map_eq_some_iff] at h
  obtain ⟨loader, hloader, rfl⟩ := h
  have hle : ∀ id, stake loader.active id ≤ session.holders id := by
    intro id
    have := Table.share_le_total (fun loader : Loader => stake loader.active id) sound.loaders
      hloader
    unfold holders
    omega
  obtain ⟨hkept, hactive⟩ := Loader.release_kept sound.kept
    fun id => Nat.le_add_right_of_le (hle id)
  have hmapper : (Loader.release (session.world, loader)).2.mapper = loader.mapper :=
    (Prod.mk.inj (Loader.setup_release (session.world, loader))).2
  refine sound.setLoader name hkept rfl (hmapper ▸ sound.mappers name loader hloader) ?_ ?_
  · intro id hid
    rw [hactive] at hid
    cases hid
  · intro id
    rw [Table.shareAt_of_some _ hloader, hactive, stake_none]
    have := hle id
    omega

theorem left (sound : Sound session record hand) {id : Nat} (held : 0 < session.holders id) :
    ∃ model, record.model? id = some model ∧
      session.world.model? id = some (record.left id model) := by
  obtain ⟨shared, hshared⟩ := sound.kept.shared (Nat.lt_of_lt_of_le held (Nat.le_add_right _ _))
  obtain ⟨model, hmodel, hleft⟩ := sound.kept.recorded id shared hshared
  refine ⟨model, hmodel, ?_⟩
  rw [World.model?, hshared, ← hleft]
  rfl

theorem intact (sound : Sound session record hand) {id : Nat} (held : 0 < session.holders id)
    (kept : id ∉ record.early) :
    ∃ model, record.model? id = some model ∧ session.world.model? id = some model := by
  obtain ⟨model, hmodel, hleft⟩ := sound.left held
  rw [Record.left, if_neg kept] at hleft
  exact ⟨model, hmodel, hleft⟩

theorem holders_pos_of_loader (sound : Sound session record hand) {name : String}
    {loader : Loader} {id : Nat} (h : session.loader? name = some loader)
    (hactive : loader.active = some id) :
    0 < Table.total (fun loader : Loader => stake loader.active id) session.loaders := by
  have hle := Table.share_le_total (fun loader : Loader => stake loader.active id) sound.loaders h
  rw [hactive, stake_self] at hle
  exact hle

theorem load (sound : Sound session record fun _ => 0) (name : String) (exe : Option Path)
    (consumer : Option String) :
    match session.load name exe consumer with
    | none => True
    | some (.error _, after) => Sound after record fun _ => 0
    | some (.ok held, after) => record.model? held.id = none ∧
        ∃ model, after.world.model? held.id = some model ∧
          Sound after (record.load held.id model) fun _ => 0 := by
  unfold Session.load
  cases hloader : session.loader? name with
  | none => trivial
  | some loader =>
    have accountable := sound.mappers name loader hloader
    have hload := Loader.load_kept sound.kept accountable exe
    have hsetup := Loader.keeps_setup_load exe (session.world, loader)
    dsimp only [Option.map_some]
    generalize Loader.load exe (session.world, loader) = outcome at hload hsetup ⊢
    obtain ⟨result, work⟩ := outcome
    have hmapper : work.2.mapper.Accountable := by
      rw [(Prod.mk.inj hsetup).2]
      exact accountable
    cases result with
    | error error =>
      obtain ⟨hkept, hactive⟩ := hload
      refine sound.setLoader name hkept rfl hmapper ?_ fun id => ?_
      · intro id hid
        exact sound.active name loader id hloader (hactive ▸ hid)
      · rw [Table.shareAt_of_some _ hloader, hactive]
        omega
    | ok id =>
      obtain ⟨model, hmodel, hkept, ⟨hnew, hlate⟩, hactive, hidle⟩ := hload
      have hset : Sound (session.setLoader name work) (record.load id model)
          fun other => 0 + stake (some id) other := by
        refine sound.setLoader name hkept rfl hmapper ?_ fun other => ?_
        · intro other hother
          rw [hactive] at hother
          exact Option.some.inj hother ▸ hlate
        · rw [Table.shareAt_of_some _ hloader, hactive, hidle, stake_none]
          omega
      have hfinish : ∀ after : Session, after.loaders = (session.setLoader name work).loaders →
          (Sound after (record.load id model) fun _ => 0) →
          record.model? id = none ∧ ∃ model, after.world.model? id = some model ∧
            Sound after (record.load id model) fun _ => 0 := by
        intro after hloaders hafter
        have hget : after.loader? name = some work.2 := by
          unfold loader?
          rw [hloaders, Session.setLoader, Table.get?_set, if_pos rfl]
        have hpos := hafter.holders_pos_of_loader hget hactive
        have hheld : 0 < after.holders id := by
          unfold holders
          omega
        obtain ⟨found, hfound, hleft⟩ := hafter.intact hheld hlate
        rw [Record.model?_load, if_pos rfl, Option.some.injEq] at hfound
        subst hfound
        exact ⟨hnew, model, hleft, hafter⟩
      cases consumer with
      | none => exact hfinish _ rfl hset.letGo
      | some consumer =>
        refine hfinish _ ?_ (hset.keep consumer)
        unfold Session.keep Session.drop
        split <;> rfl

theorem handles_eq (sound : Sound session record fun _ => 0) (id : Nat) :
    session.world.handles id = session.holders id :=
  sound.kept.handles id

theorem releaseModel (sound : Sound session record fun _ => 0) {name : String} {id : Nat}
    (hid : session.consumer? name = some id) (hsole : session.holders id = 1) :
    Sound { session with world := session.world.releaseEarly id } (record.releaseEarly id)
      fun _ => 0 := by
  have hpos := sound.holders_pos_of_consumer hid
  refine { sound with kept := sound.kept.releaseEarly (Nat.lt_add_right 0 hpos), active := ?_ }
  -- The only handle is the consumer's, so no loader has the model active.
  intro other loader found hother hfound hmem
  rcases List.mem_cons.mp hmem with rfl | hmem
  · have hloader := sound.holders_pos_of_loader hother hfound
    have hconsumer := Table.share_le_total (fun held => stake (some held) found) sound.consumers
      hid
    rw [stake_self] at hconsumer
    unfold holders at hsole
    omega
  · exact sound.active other loader found hother hfound hmem

theorem setEngine {state : World × Engine} {holders' : Nat → Nat}
    (sound : Sound session record hand) (name : String) (kept : Kept state.1 record holders')
    (h : ∀ id, holders' id +
        Table.shareAt (fun engine : Engine => stake engine.held id) session.engines name =
      session.holders id + stake state.2.held id + hand id) :
    Sound (session.setEngine name state) record hand := by
  refine { sound with
    kept := kept.congr fun id => ?_
    engines := Table.distinct_set sound.engines _ _ }
  have hsum := Table.total_set (fun engine : Engine => stake engine.held id) sound.engines name
    state.2
  have := h id
  unfold holders at this
  unfold Session.setEngine holders
  dsimp only at hsum ⊢
  omega

theorem shareAt_engine (sound : Sound session record hand) (name : String) (id : Nat) :
    Table.shareAt (fun engine : Engine => stake engine.held id) session.engines name =
        stake ((session.engine? name).getD .idle).held id ∧
      stake ((session.engine? name).getD .idle).held id ≤ session.holders id := by
  unfold engine?
  cases h : Table.get? session.engines name with
  | none => exact ⟨Table.shareAt_of_none _ h, Nat.zero_le _⟩
  | some engine =>
    refine ⟨Table.shareAt_of_some _ h, ?_⟩
    have := Table.share_le_total (fun engine : Engine => stake engine.held id) sound.engines h
    unfold holders
    dsimp only [Option.getD_some]
    omega

theorem handOff (sound : Sound session record fun _ => 0) {consumer engine : String}
    {settings : EngineSettings} {reasons : Option (List String)}
    {result : Except LoadError String × Held × Engine × Session}
    (h : session.handOff consumer engine settings reasons = some result) :
    Sound result.2.2.2 record fun _ => 0 := by
  unfold Session.handOff at h
  rw [Option.map_eq_some_iff] at h
  obtain ⟨id, hid, rfl⟩ := h
  have hpos := sound.holders_pos_of_consumer hid
  have hengine := sound.shareAt_engine engine
  have hkept := handOff_kept (Engine.answer_fair reasons) ((session.engine? engine).getD .idle)
    settings sound.kept (Nat.lt_add_right 0 hpos) fun other =>
      Nat.le_add_right_of_le (hengine other).2
  apply sound.setEngine engine hkept
  intro other
  rw [(hengine other).1]
  exact Nat.sub_add_cancel (Nat.le_add_right_of_le (Nat.le_add_right_of_le (hengine other).2))

theorem stopEngine (sound : Sound session record hand) {name : String} {after : Session}
    (h : session.stopEngine name = some after) : Sound after record hand := by
  unfold Session.stopEngine at h
  rw [Option.map_eq_some_iff] at h
  obtain ⟨engine, hengine, rfl⟩ := h
  have hshare := sound.shareAt_engine name
  rw [hengine] at hshare
  simp only [Option.getD_some] at hshare
  obtain ⟨hkept, hheld⟩ := Engine.stop_kept sound.kept
    fun id => Nat.le_add_right_of_le (hshare id).2
  apply sound.setEngine name hkept
  intro id
  have := (hshare id).2
  rw [(hshare id).1, hheld, stake_none]
  omega

end Sound

end Session

end ModelBundle
