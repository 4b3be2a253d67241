import Mathlib.Data.List.Nodup
import Mathlib.Data.List.Pairwise
import ModelBundle.Document.Basic
import ModelBundle.Proofs.Documents.Meaning
import ModelBundle.Proofs.Steps

/-!
Records that are written in part, in another order or with more than is known.  A record is its
default with what is given put in the place of some fields; all that counts is which document is
given under which name, and a name that is known is given at most once.
-/

namespace ModelBundle.Document

variable {σ α β : Type}

/-- What can be given for a field of a record: under which name, and what a document changes. -/
structure MeaningOf (σ : Type) where
  name : String
  holds : Document → (σ → σ) → Prop

def meaning (name : String) (holds : Document → α → Prop) (store : σ → α → σ) : MeaningOf σ where
  name
  holds document change := ∃ value, holds document value ∧ change = fun record => store record value

/-- From one record to another, by what is given: each of it replaces the field of its name. -/
inductive Replaced (meanings : List (MeaningOf σ)) : σ → Table String Document → σ → Prop
  | nothing (record : σ) : Replaced meanings record [] record
  | field {record result : σ} {document : Document} {change : σ → σ} {given : Table String Document}
    {meaning : MeaningOf σ} (hmem : meaning ∈ meanings) (holds : meaning.holds document change)
    (h : Replaced meanings (change record) given result) :
    Replaced meanings record ((meaning.name, document) :: given) result

def Spell (members : List (Quoted × Document)) (named : Table String Document) : Prop :=
  List.Forall₂ (fun member pair => member.1.Spells pair.1 ∧ member.2 = pair.2) members named

/-- What is given for fields of the record; the other members are passed over. -/
def known (meanings : List (MeaningOf σ)) (named : Table String Document) : Table String Document :=
  named.filter fun pair => pair.1 ∈ meanings.map MeaningOf.name

section Replaced

variable {meanings : List (MeaningOf σ)} {record result : σ} {name : String} {document : Document}
  {given : Table String Document}

theorem replaced_nil_iff : Replaced meanings record [] result ↔ record = result := by
  constructor
  · rintro ⟨⟩
    rfl
  · rintro rfl
    exact .nothing record

theorem replaced_cons_iff : Replaced meanings record ((name, document) :: given) result ↔
    ∃ change, (∃ meaning ∈ meanings, meaning.name = name ∧ meaning.holds document change) ∧
      Replaced meanings (change record) given result := by
  constructor
  · rintro (_ | ⟨hmem, holds, h⟩)
    exact ⟨_, ⟨_, hmem, rfl, holds⟩, h⟩
  · rintro ⟨change, ⟨meaning, hmem, rfl, holds⟩, h⟩
    exact .field hmem holds h

def MeaningOf.Commutes (first second : MeaningOf σ) : Prop :=
  ∀ {document other change change'}, first.holds document change → second.holds other change' →
    ∀ record, change (change' record) = change' (change record)

instance : Std.Symm (MeaningOf.Commutes (σ := σ)) where
  symm _ _ h _ _ _ _ holds holds' record := (h holds' holds record).symm

theorem commutes_meaning {first second : String} {holds : Document → α → Prop}
    {holds' : Document → β → Prop} {store : σ → α → σ} {store' : σ → β → σ}
    (h : ∀ record value other,
      store (store' record other) value = store' (store record value) other) :
    (meaning first holds store).Commutes (meaning second holds' store') := by
  rintro _ _ _ _ ⟨value, -, rfl⟩ ⟨other, -, rfl⟩ record
  exact h record value other

end Replaced

/-- The fields of a record are read just as they mean. -/
structure Faithful (fields : List (FieldOf σ)) (meanings : List (MeaningOf σ)) : Prop where
  names : fields.map FieldOf.name = meanings.map MeaningOf.name
  distinct : (meanings.map MeaningOf.name).Nodup
  explained : ∀ field ∈ fields, ∀ document change, field.read document = .ok change ↔
    ∃ meaning ∈ meanings, meaning.name = field.name ∧ meaning.holds document change
  commute : meanings.Pairwise MeaningOf.Commutes

def FieldOf.Means (field : FieldOf σ) (meaning : MeaningOf σ) : Prop :=
  field.name = meaning.name ∧
    ∀ document change, field.read document = .ok change ↔ meaning.holds document change

theorem means_field {name : String} {read : Document → Except Flaw α} {holds : Document → α → Prop}
    {store : σ → α → σ} (h : ∀ document value, read document = .ok value ↔ holds document value) :
    (field name read store).Means (meaning name holds store) := by
  refine ⟨rfl, fun document change => ?_⟩
  have hread : (field name read store).read document = .ok change ↔ ∃ value,
      read document = .ok value ∧ (.ok fun record => store record value : Except Flaw _) =
        .ok change := bind_eq_ok_iff
  simp only [hread, meaning, h, Except.ok.injEq, eq_comm]

theorem Faithful.of_means {fields : List (FieldOf σ)} {meanings : List (MeaningOf σ)}
    (h : List.Forall₂ FieldOf.Means fields meanings)
    (distinct : (meanings.map MeaningOf.name).Nodup)
    (commute : meanings.Pairwise MeaningOf.Commutes) : Faithful fields meanings where
  names := by
    clear distinct commute
    induction h with
    | nil => rfl
    | cons hfirst _ ih => rw [List.map_cons, List.map_cons, ih, hfirst.1]
  distinct
  explained field hfield document change := by
    have hunique := List.inj_on_of_nodup_map distinct
    obtain ⟨meaning, hmem, means⟩ : ∃ meaning ∈ meanings, field.Means meaning := by
      clear distinct commute hunique
      induction h with
      | nil => cases hfield
      | cons hfirst _ ih =>
        rcases List.mem_cons.mp hfield with rfl | hfield
        · exact ⟨_, List.mem_cons_self, hfirst⟩
        · obtain ⟨meaning, hmem, means⟩ := ih hfield
          exact ⟨meaning, List.mem_cons_of_mem _ hmem, means⟩
    rw [means.2]
    constructor
    · exact fun holds => ⟨meaning, hmem, means.1.symm, holds⟩
    · rintro ⟨other, hother, hname, holds⟩
      obtain rfl := hunique hother hmem (hname.trans means.1)
      exact holds
  commute

namespace Faithful

variable {fields : List (FieldOf σ)} {meanings : List (MeaningOf σ)}

theorem find?_eq_none (faithful : Faithful fields meanings) {name : String} :
    fields.find? (·.name = name) = none ↔ name ∉ meanings.map MeaningOf.name := by
  rw [← faithful.names]
  simp [List.find?_eq_none]

theorem takeMembers_of_known {field : FieldOf σ} {quoted : Quoted} {name : String}
    (hname : quoted.text = .ok name) (hfind : fields.find? (·.name = name) = some field)
    (document : Document) (members : List (Quoted × Document)) (seen : List String) (record : σ) :
    takeMembers fields none seen record ((quoted, document) :: members) =
      if seen.contains name then .error .unfit
      else field.read document >>= fun change =>
        takeMembers fields none (name :: seen) (change record) members := by
  simp only [takeMembers, hname, hfind, bind, Except.bind]

theorem takeMembers_eq_ok_iff (faithful : Faithful fields meanings)
    {members : List (Quoted × Document)} {named : Table String Document}
    (spell : Spell members named) (sound : skipMembers members = .ok ()) {seen : List String}
    (distinct : (known meanings named).Distinct)
    (fresh : ∀ pair ∈ known meanings named, pair.1 ∉ seen) {record result : σ} :
    takeMembers fields none seen record members = .ok result ↔
      Replaced meanings record (known meanings named) result := by
  induction spell generalizing seen record with
  | nil =>
    rw [known, List.filter_nil, replaced_nil_iff]
    simp [takeMembers, ending, bind, Except.bind, pure, Except.pure]
  | @cons member pair members named hmember _ ih =>
    obtain ⟨quoted, document⟩ := member
    obtain ⟨name, document'⟩ := pair
    obtain ⟨hname, rfl⟩ : quoted.Spells name ∧ document = document' := hmember
    simp only [skipMembers, bind_eq_ok_iff] at sound
    obtain ⟨-, -, ⟨⟩, hskip, sound⟩ := sound
    have htext := Quoted.text_eq_ok_iff.mpr hname
    cases hfind : fields.find? (·.name = name) with
    | none =>
      have hunknown := faithful.find?_eq_none.mp hfind
      have hknown : known meanings ((name, document) :: named) = known meanings named :=
        List.filter_cons_of_neg (by simpa using hunknown)
      rw [hknown] at distinct fresh ⊢
      simp only [takeMembers, htext, bind, Except.bind, hfind, hskip]
      exact ih sound distinct fresh
    | some field =>
      have hmem := List.mem_of_find?_eq_some hfind
      have hfield : field.name = name := by simpa using List.find?_some hfind
      have hknown : known meanings ((name, document) :: named) =
          (name, document) :: known meanings named := by
        refine List.filter_cons_of_pos ?_
        rw [← faithful.names, ← hfield]
        simpa using ⟨field, hmem, rfl⟩
      rw [hknown] at distinct fresh ⊢
      obtain ⟨hfirst, distinct⟩ := List.pairwise_cons.mp distinct
      obtain ⟨hnew, fresh⟩ := List.forall_mem_cons.mp fresh
      have later : ∀ pair ∈ known meanings named, pair.1 ∉ name :: seen := by
        intro pair hpair
        rw [List.mem_cons, not_or]
        exact ⟨Ne.symm (hfirst pair hpair), fresh pair hpair⟩
      rw [replaced_cons_iff, takeMembers_of_known htext hfind, if_neg (by simpa using hnew),
        bind_eq_ok_iff]
      refine exists_congr fun change => and_congr ?_ (ih sound distinct later)
      rw [faithful.explained field hmem, hfield]

theorem takeItems_eq_ok_iff {fields all : List (FieldOf σ)} (faithful : Faithful all meanings)
    (hfields : ∀ field ∈ fields, field ∈ all) {items : List Document}
    (hlength : items.length ≤ fields.length) {record result : σ} :
    takeItems none record fields items = .ok result ↔
      Replaced meanings record ((fields.map FieldOf.name).zip items) result := by
  induction fields generalizing items record with
  | nil =>
    obtain rfl : items = [] := List.length_eq_zero_iff.mp (Nat.le_zero.mp hlength)
    rw [List.zip_nil_right, replaced_nil_iff]
    simp [takeItems, ending, bind, Except.bind, pure, Except.pure]
  | cons field fields ih =>
    obtain ⟨hfield, hfields⟩ := List.forall_mem_cons.mp hfields
    cases items with
    | nil =>
      rw [List.zip_nil_right, replaced_nil_iff]
      simp [takeItems, ending, bind, Except.bind, pure, Except.pure]
    | cons item items =>
      rw [takeItems, bind_eq_ok_iff, List.map_cons, List.zip_cons_cons, replaced_cons_iff]
      refine exists_congr fun change => and_congr (faithful.explained field hfield item change) ?_
      exact ih hfields (Nat.le_of_succ_le_succ hlength)

theorem object (faithful : Faithful fields meanings) {members : List (Quoted × Document)}
    {named : Table String Document} (spell : Spell members named)
    (sound : skipMembers members = .ok ()) (distinct : (known meanings named).Distinct)
    {default result : σ} : record fields default (.object members none none) = .ok result ↔
      Replaced meanings default (known meanings named) result :=
  faithful.takeMembers_eq_ok_iff spell sound distinct fun _ _ => List.not_mem_nil

theorem array (faithful : Faithful fields meanings) {items : List Document}
    (hlength : items.length ≤ meanings.length) {default result : σ} :
    record fields default (.array items none) = .ok result ↔
      Replaced meanings default ((meanings.map MeaningOf.name).zip items) result := by
  have hfields : fields.length = meanings.length := by
    have := congrArg List.length faithful.names
    simpa using this
  rw [← faithful.names]
  exact faithful.takeItems_eq_ok_iff (fun _ h => h) (hfields ▸ hlength)

end Faithful

end ModelBundle.Document
