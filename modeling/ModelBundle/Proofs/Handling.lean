import ModelBundle.Proofs.Ranges
import ModelBundle.Session

/-!
A payload in the hands of its owner.  There are several ways to give its bytes back, and what is
left is given back when the payload itself goes.  The first of these does it, and the others find
nothing left to do.
-/

namespace ModelBundle

inductive Handling where
  | releaseRegion
  | unmap
  | release
  | advise (pattern : AccessPattern)
deriving DecidableEq, Repr

namespace Handling

def apply (handling : Handling) (held : Payload × World) : Payload × World :=
  match handling with
  | releaseRegion =>
    match held.1 with
    | .mapped region => (.mapped (region.release held.2).1, (region.release held.2).2)
    | .buffered _ => held
  | unmap => Session.unmap held.1 held.2
  | release => held.1.release held.2
  | advise pattern => Session.advise pattern held.1 held.2

/-- Only a mapped payload has a region, so for a copy some ways of giving it back do nothing. -/
def ends (kind : PayloadKind) : Handling → Bool
  | release => true
  | releaseRegion | unmap => kind = .mapped
  | advise _ => false

def run (handlings : List Handling) (held : Payload × World) : Payload × World :=
  handlings.foldl (fun held handling => handling.apply held) held

end Handling

namespace Payload

def dispose (held : Payload × World) : World := (held.1.release held.2).2

def extents (payload : Payload) : List Extent :=
  (payload.mapping?.map Mapping.extent).toList

theorem release_eq (payload : Payload) (world : World) :
    (payload.release world).1 = payload.cleared ∧
      (payload.release world).2.unmapped = payload.extents ++ world.unmapped := by
  cases payload with
  | buffered buffer => exact ⟨rfl, rfl⟩
  | mapped region =>
    obtain ⟨mapping, adjustment, size⟩ := region
    cases mapping <;> exact ⟨rfl, rfl⟩

theorem release_cleared (payload : Payload) (world : World) :
    payload.cleared.release world = (payload.cleared, world) := by
  cases payload <;> rfl

theorem release_release (payload : Payload) (world : World) :
    (payload.release world).1.release (payload.release world).2 = payload.release world := by
  have hcleared := (payload.release_eq world).1
  rw [hcleared, release_cleared, ← hcleared]

@[simp] theorem kind_release (payload : Payload) (world : World) :
    (payload.release world).1.kind = payload.kind := by
  rw [(payload.release_eq world).1, kind_cleared]

end Payload

namespace Handling

theorem apply_eq (handling : Handling) (payload : Payload) (world : World) :
    handling.apply (payload, world) =
      if handling.ends payload.kind then payload.release world else (payload, world) := by
  cases handling <;> cases payload <;> rfl

theorem run_eq (handlings : List Handling) (payload : Payload) (world : World) :
    run handlings (payload, world) =
      if handlings.any (ends payload.kind) then payload.release world else (payload, world) := by
  induction handlings generalizing payload world with
  | nil => rfl
  | cons handling rest ih =>
    have hstep : run (handling :: rest) (payload, world) =
        run rest (handling.apply (payload, world)) := rfl
    rw [hstep, apply_eq, List.any_cons]
    by_cases hends : handling.ends payload.kind = true
    · rw [if_pos hends, ih, Payload.kind_release, Payload.release_release, ite_self, hends,
        Bool.true_or, if_pos rfl]
    · rw [if_neg hends, ih, Bool.eq_false_iff.mpr hends, Bool.false_or]

theorem dispose_run (handlings : List Handling) (payload : Payload) (world : World) :
    Payload.dispose (run handlings (payload, world)) = (payload.release world).2 := by
  rw [run_eq]
  split
  · exact congrArg Prod.snd (payload.release_release world)
  · rfl

theorem run_advise (handlings : List Handling) (pattern : AccessPattern)
    (held : Payload × World) : run (handlings ++ [advise pattern]) held = run handlings held := by
  have hlast : run (handlings ++ [advise pattern]) held =
      (advise pattern).apply (run handlings held) := by
    rw [run, List.foldl_append]
    rfl
  rw [hlast]
  exact apply_eq _ _ _

end Handling

/-- A payload as it comes from a file: a range that the system maps, or a copy of one that is not
empty. -/
inductive Obtained (page : Page) (handle : Handle) (offset size : UInt64) (world : World) :
    Payload × World → Prop
  | mapped {region : Region} {after : World}
      (h : Mapper.system page handle offset size world = (.ok region, after)) :
      Obtained page handle offset size world (.mapped region, after)
  | copied {buffer : Buffer} {after : World} (hsize : 0 < size.toNat)
      (h : Buffer.read handle offset size world = (.ok buffer, after)) :
      Obtained page handle offset size world (.buffered buffer, after)

theorem Buffer.ofInput_directory (offset : UInt64) {size : UInt64} (hsize : 0 < size.toNat) :
    ∃ error, ofInput .directory offset size = .error error := by
  have hbytes : ∃ fault, Input.directory.bytesAt offset.toNat size.toNat = .error fault := by
    simp only [Input.bytesAt, if_neg (Nat.ne_of_gt hsize)]
    split <;> exact ⟨_, rfl⟩
  obtain ⟨fault, hfault⟩ := hbytes
  unfold ofInput
  cases refusal? size with
  | some fault => exact ⟨_, rfl⟩
  | none => exact ⟨_, by rw [hfault]⟩

theorem Buffer.read_eq_ok {handle : Handle} {offset size : UInt64} {world after : World}
    {buffer : Buffer} (hsize : 0 < size.toNat)
    (h : read handle offset size world = (.ok buffer, after)) :
    ∃ content, world.files.content? handle = some content ∧
      buffer.content = Bytes.slice content offset.toNat size.toNat ∧
      buffer.content.length = size.toNat ∧ after.unmapped = world.unmapped := by
  unfold read at h
  split at h
  · simp at h
  · rename_i found hread
    simp only [Prod.mk.injEq, Except.ok.injEq] at h
    obtain ⟨rfl, rfl⟩ := h
    unfold World.input at hread
    cases hcontent : world.files.content? handle with
    | some content =>
      rw [hcontent] at hread
      obtain ⟨hbytes, hlength⟩ := of_ofInput hread
      exact ⟨content, rfl, hbytes, hlength, rfl⟩
    | none =>
      rw [hcontent] at hread
      obtain ⟨error, herror⟩ := ofInput_directory offset hsize
      cases hread.symm.trans herror

namespace Obtained

variable {page : Page} {handle : Handle} {offset size : UInt64} {world : World}

theorem source {held : Payload × World} (obtained : Obtained page handle offset size world held) :
    (∃ content, world.files.content? handle = some content ∧
      held.1.bytes = Bytes.slice content offset.toNat size.toNat ∧
      held.1.bytes.length = size.toNat) ∧ held.2.unmapped = world.unmapped := by
  cases obtained with
  | mapped h =>
    obtain ⟨content, -, hcontent, hbytes, -, hrange, hlog, -⟩ := Mapper.system_eq_ok h
    refine ⟨⟨content, hcontent, hbytes, ?_⟩, hlog⟩
    rw [show (Payload.mapped _).bytes = _ from hbytes, Bytes.length_slice]
    omega
  | copied hsize h =>
    obtain ⟨content, hcontent, hbytes, hlength, hlog⟩ := Buffer.read_eq_ok hsize h
    exact ⟨⟨content, hcontent, hbytes, hlength⟩, hlog⟩

theorem region {region : Region} {after : World}
    (obtained : Obtained page handle offset size world (.mapped region, after)) :
    0 < size.toNat ∧ region.mappedLength = region.adjustment.toNat + size.toNat ∧
      ∃ base, (Payload.mapped region).extents =
          [⟨world.mapped, base, region.adjustment.toNat + size.toNat⟩] ∧
        base.toNat % (Mapping.granularity page).toNat = 0 ∧
        base.toNat + region.adjustment.toNat = offset.toNat ∧
        region.adjustment = offset % Mapping.granularity page := by
  cases obtained with
  | mapped h =>
    obtain ⟨-, base, -, -, hpos, -, -, hextent, hboundary, hbase, hadjustment⟩ :=
      Mapper.system_eq_ok h
    refine ⟨hpos, ?_, base, congrArg Option.toList hextent, hboundary, hbase, hadjustment⟩
    unfold Region.mappedLength
    cases hmapping : region.mapping with
    | none => simp [hmapping] at hextent
    | some mapping =>
      rw [hmapping, Option.map_some, Option.some.injEq] at hextent
      exact congrArg Extent.length hextent

end Obtained

/-- A region that its owner has now, against the one that was obtained. -/
structure Region.Kept (region now : Region) (size : UInt64) (ended : Bool) : Prop where
  adjustment : now.adjustment = region.adjustment
  released : now.isReleased = ended
  released_iff : now.isReleased ↔ now.mappedLength = 0
  empty_iff : now.isReleased ↔ now.bytes = []
  held : now.isReleased = false → now.mappedLength = now.adjustment.toNat + size.toNat

theorem Region.kept {region : Region} {size : UInt64} (hsize : 0 < size.toNat)
    (hbytes : region.bytes.length = size.toNat)
    (hmapped : region.mappedLength = region.adjustment.toNat + size.toNat) (ended : Bool) :
    region.Kept (if ended then region.cleared else region) size ended := by
  cases ended with
  | true => exact ⟨rfl, rfl, by simp, by simp, by simp⟩
  | false =>
    have hheld : region.isReleased = false := by
      unfold isReleased
      unfold mappedLength at hmapped
      cases hmapping : region.mapping with
      | none =>
        rw [hmapping] at hmapped
        dsimp only at hmapped
        omega
      | some mapping => rfl
    have hview : region.bytes ≠ [] := by
      intro hnil
      rw [hnil, List.length_nil] at hbytes
      omega
    have hlength : region.mappedLength ≠ 0 := by omega
    exact ⟨rfl, hheld, by simp [hheld, hlength], by simp [hheld, hview], fun _ => hmapped⟩

namespace Payload

/-- What became of a payload that was obtained from a range, by some handlings of it. -/
structure GivenBack (page : Page) (handle : Handle) (offset size : UInt64) (world : World)
    (held : Payload × World) (handlings : List Handling) (ended : Bool) (left : Payload × World) :
    Prop where
  source : ∃ content, world.files.content? handle = some content ∧
    held.1.bytes = Bytes.slice content offset.toNat size.toNat ∧
    held.1.bytes.length = size.toNat
  view : left.1.bytes = if ended then [] else held.1.bytes
  kind : left.1.kind = held.1.kind
  log : left.2.unmapped = (if ended then held.1.extents else []) ++ world.unmapped
  disposed : (dispose left).unmapped = held.1.extents ++ world.unmapped
  advised : ∀ pattern, Handling.run (handlings ++ [.advise pattern]) held = left
  copied : ∀ buffer, held.1 = .buffered buffer → held.1.extents = []
  /-- The one extent of a region is the whole mapping, from its boundary on. -/
  extent : ∀ region, held.1 = .mapped region → ∃ base,
    held.1.extents = [⟨world.mapped, base, region.adjustment.toNat + size.toNat⟩] ∧
      base.toNat % (Mapping.granularity page).toNat = 0 ∧
      base.toNat + region.adjustment.toNat = offset.toNat ∧
      region.adjustment = offset % Mapping.granularity page
  region : ∀ region, held.1 = .mapped region →
    ∃ now, left.1 = .mapped now ∧ region.Kept now size ended

/-- A payload that comes from a file, through any handling.  Its view shows the bytes of the file
until they are given back, and nothing ever after.  The system gets back the whole mapping, from
its boundary on, and gets it back once: with the first handling that ends it, or else with the end
of the payload.  Kind and adjustment stay, hints change nothing, and a region can always tell. -/
theorem given_back_once {page : Page} {handle : Handle} {offset size : UInt64} {world : World}
    {held : Payload × World} (obtained : Obtained page handle offset size world held)
    (handlings : List Handling) :
    GivenBack page handle offset size world held handlings
      (handlings.any (Handling.ends held.1.kind)) (Handling.run handlings held) := by
  obtain ⟨payload, after⟩ := held
  generalize hended : handlings.any (Handling.ends payload.kind) = ended
  have hleft : Handling.run handlings (payload, after) =
      if ended then payload.release after else (payload, after) :=
    hended ▸ Handling.run_eq handlings payload after
  have hpayload : (Handling.run handlings (payload, after)).1 =
      if ended then payload.cleared else payload := by
    rw [hleft, apply_ite Prod.fst, (payload.release_eq after).1]
  obtain ⟨hsource, hlog⟩ := obtained.source
  refine
    { source := hsource
      view := by rw [hpayload, apply_ite bytes, bytes_cleared]
      kind := by rw [hpayload, apply_ite Payload.kind, kind_cleared, ite_self]
      log := ?_
      disposed := by
        rw [Handling.dispose_run handlings payload after, (payload.release_eq after).2, hlog]
      advised := fun pattern => Handling.run_advise _ pattern _
      copied := ?_
      extent := ?_
      region := ?_ }
  · rw [hleft, ← hlog]
    split
    · exact (payload.release_eq after).2
    · rfl
  · rintro buffer rfl
    rfl
  · rintro region rfl
    exact obtained.region.2.2
  · rintro region rfl
    obtain ⟨content, -, -, hlength⟩ := hsource
    refine ⟨_, ?_, Region.kept obtained.region.1 hlength obtained.region.2.1 ended⟩
    rw [hpayload]
    split <;> rfl

/-- Two ways to give bytes back and a hint, on a view that starts in the middle of a file: one
mapping goes back, from the start of the file on. -/
theorem given_back_once_eightBytes :
    ∃ held, Obtained .usual (.file 0) 3 4 (.ofFiles eightBytes) held ∧
      held.1.bytes = [3, 4, 5, 6] ∧
      let left := Handling.run [.advise .random, .unmap, .release] held
      left.1.bytes = [] ∧ left.2.unmapped = [⟨0, 0, 7⟩] ∧
        (dispose left).unmapped = [⟨0, 0, 7⟩] := by
  have obtained : Obtained .usual (.file 0) 3 4 (.ofFiles eightBytes)
      (.mapped _, _) := .mapped rfl
  have back := given_back_once obtained [.advise .random, .unmap, .release]
  exact ⟨_, obtained, rfl, back.view, back.log, back.disposed⟩

end Payload

end ModelBundle
