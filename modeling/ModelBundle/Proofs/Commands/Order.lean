import Mathlib.Data.List.Nodup
import ModelBundle.Command.Arguments
import ModelBundle.Proofs.Steps

/-!
The order of flags.  A group of words that makes sense alone is taken in on top of what was given
before, so a command line of such groups comes to the same in every order: all flags of all groups,
or a refusal because one of them is there twice.
-/

namespace ModelBundle.Command

namespace Given

def names (given : Given) : List String := given.flags.map Prod.fst

theorem has_iff {given : Given} {flag : Flag} :
    given.has flag = true ↔ flag.name ∈ given.names := by
  simp [has, names]

def under (given found : Given) : Given :=
  ⟨found.flags ++ given.flags, found.paths ++ given.paths⟩

def Apart (given found : Given) : Prop := given.names.Disjoint found.names

instance (given found : Given) : Decidable (given.Apart found) :=
  decidable_of_iff (∀ name ∈ given.names, name ∉ found.names) Iff.rfl

def joined (given found : Given) : Except Stop Given :=
  if given.Apart found then .ok (given.under found) else .error .usage

@[simp] theorem under_empty (given : Given) : given.under .empty = given := rfl

@[simp] theorem apart_empty (given : Given) : given.Apart .empty := List.disjoint_nil_right _

theorem Apart.symm {given found : Given} (h : given.Apart found) : found.Apart given :=
  List.disjoint_comm.mp h

theorem Apart.mono {given base found : Given} (h : given.Apart found)
    (grows : base.names ⊆ found.names) : given.Apart base :=
  List.disjoint_of_subset_right grows h

/-- A step from `base` that finds `found` and goes on with `result`.  What was given before stays,
and must not hold a flag that the step finds. -/
structure Finds {γ : Type} (step : Given → Except Stop γ) (base found : Given)
    (result : Given → Except Stop γ) : Prop where
  grows : base.names ⊆ found.names
  distinct : base.names.Nodup → found.names.Nodup
  onTop : ∀ given : Given, given.Apart base →
    step (given.under base) = given.joined found >>= result

theorem Finds.refl {γ : Type} (base : Given) (step : Given → Except Stop γ) :
    Finds step base base step where
  grows := List.Subset.refl _
  distinct := id
  onTop given hapart := by
    rw [joined, if_pos hapart]
    rfl

theorem Finds.bind {γ δ : Type} {step : Given → Except Stop γ} {next : γ → Except Stop δ}
    {base middle found : Given} {result : Given → Except Stop γ} {result' : Given → Except Stop δ}
    (first : Finds step base middle result)
    (second : Finds (fun given => result given >>= next) middle found result') :
    Finds (fun given => step given >>= next) base found result' where
  grows := List.Subset.trans first.grows second.grows
  distinct h := second.distinct (first.distinct h)
  onTop given hapart := by
    rw [first.onTop given hapart]
    by_cases hmiddle : given.Apart middle
    · rw [joined, if_pos hmiddle]
      exact second.onTop given hmiddle
    · have hfound : ¬ given.Apart found := fun h => hmiddle (h.mono second.grows)
      rw [joined, if_neg hmiddle, joined, if_neg hfound]
      rfl

theorem Finds.map {γ δ : Type} {step : Given → Except Stop γ} {base found : Given}
    {result : Given → Except Stop γ} (finds : Finds step base found result) (f : γ → δ) :
    Finds (fun given => f <$> step given) base found fun given => f <$> result given where
  grows := finds.grows
  distinct := finds.distinct
  onTop given hapart := by
    rw [finds.onTop given hapart]
    cases given.joined found <;> rfl

theorem finds_addFlag {base found : Given} {flag : Flag} {value : String}
    (h : base.addFlag flag value = .ok found) :
    Finds (fun given => given.addFlag flag value) base found .ok := by
  unfold addFlag at h
  split at h
  · cases h
  · rename_i hnew
    cases h
    rw [has_iff] at hnew
    refine ⟨List.subset_cons_self _ _, fun hdistinct => List.nodup_cons.mpr ⟨hnew, hdistinct⟩, ?_⟩
    intro given hapart
    have hhas : (given.under base).has flag = true ↔ flag.name ∈ given.names := by
      rw [has_iff, names, under, List.map_append, List.mem_append]
      exact or_iff_right hnew
    by_cases hold : flag.name ∈ given.names
    · have hclash : ¬ given.Apart { base with flags := (flag.name, value) :: base.flags } :=
        fun h => h hold List.mem_cons_self
      rw [addFlag, if_pos (hhas.mpr hold), joined, if_neg hclash]
      rfl
    · have hclear : given.Apart { base with flags := (flag.name, value) :: base.flags } :=
        List.disjoint_cons_right.mpr ⟨hold, hapart⟩
      rw [addFlag, if_neg (mt hhas.mp hold), joined, if_pos hclear]
      rfl

theorem finds_addValue {base found : Given} {flag : Flag} {kind : ValueKind} {text : String}
    (h : base.addValue flag kind text = .ok found) :
    Finds (fun given => given.addValue flag kind text) base found .ok := by
  unfold addValue at h ⊢
  split at h
  · rename_i haccepts
    simp only [haccepts, if_true]
    exact finds_addFlag h
  · cases h

theorem apart_under {given base found : Given} :
    (given.under base).Apart found ↔ given.Apart found ∧ base.Apart found := by
  rw [Apart, names, under, List.map_append, List.disjoint_append_left]
  exact and_comm

theorem foldlM_joined (founds : List Given) (given : Given) :
    founds.foldlM joined given =
      if (given :: founds).Pairwise Apart then .ok (founds.foldl under given)
      else .error .usage := by
  induction founds generalizing given with
  | nil => simp; rfl
  | cons found founds ih =>
    -- What is apart from both of two is apart from them joined, so the condition moves on.
    have hpairwise : (given :: found :: founds).Pairwise Apart ↔
        given.Apart found ∧ (given.under found :: founds).Pairwise Apart := by
      simp only [List.pairwise_cons, List.forall_mem_cons, apart_under]
      grind
    rw [List.foldlM_cons, joined]
    by_cases hapart : given.Apart found
    · simp only [hapart, if_true, hpairwise, true_and, List.foldl_cons]
      exact ih _
    · simp only [hapart, if_false, hpairwise, false_and]
      rfl

theorem flags_foldl_under (founds : List Given) (given : Given) :
    (founds.foldl under given).flags = founds.reverse.flatMap flags ++ given.flags := by
  induction founds generalizing given with
  | nil => rfl
  | cons found founds ih => simp [ih, under]

theorem foldlM_joined_perm {founds founds' : List Given} (hperm : founds.Perm founds')
    (given : Given) :
    (founds.foldlM joined given = .error .usage ∧ founds'.foldlM joined given = .error .usage) ∨
      ∃ result result', founds.foldlM joined given = .ok result ∧
        founds'.foldlM joined given = .ok result' ∧ result.flags.Perm result'.flags := by
  have hapart : (given :: founds).Pairwise Apart ↔ (given :: founds').Pairwise Apart :=
    List.Perm.pairwise_iff (fun h => Apart.symm h) (hperm.cons given)
  rw [foldlM_joined, foldlM_joined]
  by_cases hclear : (given :: founds).Pairwise Apart
  · rw [if_pos hclear, if_pos (hapart.mp hclear)]
    refine .inr ⟨_, _, rfl, rfl, ?_⟩
    rw [flags_foldl_under, flags_foldl_under]
    have hreverse := (List.reverse_perm founds).trans (hperm.trans (List.reverse_perm founds').symm)
    exact (hreverse.flatMap_right flags).append_right _
  · rw [if_neg hclear, if_neg (mt hapart.mpr hclear)]
    exact .inl ⟨rfl, rfl⟩

structure Same (given given' : Given) : Prop where
  flags : given.flags.Perm given'.flags
  distinct : given.names.Nodup

theorem value?_eq_some_iff {given : Given} (hdistinct : given.names.Nodup) {flag : Flag}
    {value : String} : given.value? flag = some value ↔ (flag.name, value) ∈ given.flags := by
  rw [value?, Option.map_eq_some_iff]
  constructor
  · intro ⟨entry, hfind, hvalue⟩
    have hname := List.find?_some hfind
    rw [decide_eq_true_iff] at hname
    rw [← hname, ← hvalue]
    exact List.mem_of_find?_eq_some hfind
  · intro hmem
    cases hfind : given.flags.find? (·.1 = flag.name) with
    | none => simpa using List.find?_eq_none.mp hfind _ hmem
    | some entry =>
      have hname : entry.1 = flag.name := by simpa using List.find?_some hfind
      have hentry := List.inj_on_of_nodup_map hdistinct (List.mem_of_find?_eq_some hfind) hmem hname
      exact ⟨entry, rfl, congrArg Prod.snd hentry⟩

namespace Same

variable {given given' : Given}

theorem names_perm (same : Same given given') : given.names.Perm given'.names :=
  same.flags.map Prod.fst

theorem has_eq (same : Same given given') (flag : Flag) : given.has flag = given'.has flag := by
  rw [Bool.eq_iff_iff, has_iff, has_iff, same.names_perm.mem_iff]

theorem value?_eq (same : Same given given') (flag : Flag) :
    given.value? flag = given'.value? flag := by
  have hdistinct := same.names_perm.nodup_iff.mp same.distinct
  ext value
  rw [value?_eq_some_iff same.distinct, value?_eq_some_iff hdistinct, same.flags.mem_iff]

end Same

end Given

namespace Flags

variable {grammar : Grammar} {base found : Given} {waiting : Waiting}

theorem finds_meet {flag : Flag} (h : meet flag base = .ok found) :
    Given.Finds (meet flag) base found .ok := by
  unfold meet at h ⊢
  split at h
  · cases h
  · split at h
    · cases h
    · rename_i hhelp hversion
      simp only [hhelp, hversion, if_false]
      exact Given.finds_addFlag h

theorem takeLong_eq (grammar : Grammar) (word : List Char) (given : Given) :
    takeLong grammar word given =
      match grammar.long? (splitLong word).1 with
      | none => .error .usage
      | some flag =>
        match flag.takes, (splitLong word).2 with
        | some kind, some value => (·, none) <$> given.addValue flag kind value
        | some kind, none => .ok (given, some (flag, kind))
        | none, some _ => .error .usage
        | none, none => (·, none) <$> meet flag given :=
  rfl

theorem finds_takeLong {word : List Char}
    (h : takeLong grammar word base = .ok (found, waiting)) :
    Given.Finds (takeLong grammar word) base found fun given => .ok (given, waiting) := by
  have heq := funext (takeLong_eq grammar word)
  rw [heq] at h ⊢
  cases hflag : grammar.long? (splitLong word).1 with
  | none =>
    rw [hflag] at h
    cases h
  | some flag =>
    rw [hflag] at h
    dsimp only at h ⊢
    cases htakes : flag.takes with
    | none =>
      cases hvalue : (splitLong word).2 with
      | none =>
        rw [htakes, hvalue] at h
        obtain ⟨middle, hmeet, hresult⟩ := map_eq_ok_iff.mp h
        cases hresult
        exact (finds_meet hmeet).map _
      | some value =>
        rw [htakes, hvalue] at h
        cases h
    | some kind =>
      cases hvalue : (splitLong word).2 with
      | none =>
        rw [htakes, hvalue] at h
        cases h
        exact .refl base _
      | some value =>
        rw [htakes, hvalue] at h
        obtain ⟨middle, hadd, hresult⟩ := map_eq_ok_iff.mp h
        cases hresult
        exact (Given.finds_addValue hadd).map _

def attached : List Char → List Char
  | '=' :: value => value
  | value => value

theorem takeShort_cons (grammar : Grammar) (given : Given) (c : Char) (rest : List Char) :
    takeShort grammar given (c :: rest) =
      match grammar.short? c with
      | none => .error .usage
      | some flag =>
        match flag.takes with
        | none => meet flag given >>= fun given => takeShort grammar given rest
        | some kind =>
          if rest = [] then .ok (given, some (flag, kind))
          else (·, none) <$> given.addValue flag kind (String.ofList (attached rest)) := by
  rw [takeShort]
  cases grammar.short? c with
  | none => rfl
  | some flag =>
    dsimp only
    cases flag.takes with
    | none =>
      cases meet flag given <;> rfl
    | some kind =>
      rcases rest with _ | ⟨d, rest⟩
      · rfl
      · by_cases hd : d = '='
        · subst hd
          rfl
        · simp [attached, hd]

theorem finds_takeShort {word : List Char}
    (h : takeShort grammar base word = .ok (found, waiting)) :
    Given.Finds (fun given => takeShort grammar given word) base found
      fun given => .ok (given, waiting) := by
  induction word generalizing base with
  | nil =>
    cases h
    exact .refl _ _
  | cons c rest ih =>
    simp only [takeShort_cons] at h ⊢
    cases hflag : grammar.short? c with
    | none =>
      rw [hflag] at h
      cases h
    | some flag =>
      rw [hflag] at h
      dsimp only at h ⊢
      cases htakes : flag.takes with
      | none =>
        rw [htakes] at h
        obtain ⟨middle, hmeet, hrest⟩ := bind_eq_ok_iff.mp h
        exact (finds_meet hmeet).bind (ih hrest)
      | some kind =>
        rw [htakes] at h
        dsimp only at h ⊢
        split at h
        · rename_i hempty
          cases h
          simp only [hempty, if_true]
          exact .refl _ _
        · rename_i hmore
          obtain ⟨middle, hadd, hresult⟩ := map_eq_ok_iff.mp h
          cases hresult
          simp only [hmore, if_false]
          exact (Given.finds_addValue hadd).map _

def takeWord (grammar : Grammar) (word : String) (given : Given) : Except Stop (Given × Waiting) :=
  match word.toList with
  | '-' :: '-' :: long => takeLong grammar long given
  | '-' :: c :: short => takeShort grammar given (c :: short)
  | _ => (·, none) <$> given.addPath grammar word

theorem take_cons {word : String} (hword : word ≠ "--") (grammar : Grammar) (given : Given)
    (words : List String) :
    take grammar given none (word :: words) =
      takeWord grammar word given >>= fun next => take grammar next.1 next.2 words := by
  have hlist : word.toList ≠ ['-', '-'] := fun h => hword (String.toList_inj.mp h)
  rw [take, takeWord]
  split
  · contradiction
  · rename_i long _ hlong
    simp only [hlong]
    cases takeLong grammar long given <;> rfl
  · rename_i c short _ hc hshort
    simp only [hshort]
    cases takeShort grammar given (c :: short) <;> rfl
  · rename_i hlong hshort
    cases given.addPath grammar word <;> simp <;> rfl

theorem take_waiting (grammar : Grammar) (given : Given) (flag : Flag) (kind : ValueKind)
    (word : String) (words : List String) :
    take grammar given (some (flag, kind)) (word :: words) =
      if flag.takesHyphens || word = "-" || word.toList.head? ≠ some '-' then
        given.addValue flag kind word >>= fun given => take grammar given none words
      else .error .usage := by
  rw [take]
  split
  · cases given.addValue flag kind word <;> rfl
  · rfl

theorem finds_takeWord (hpaths : grammar.paths = 0) {word : String}
    (h : takeWord grammar word base = .ok (found, waiting)) :
    Given.Finds (takeWord grammar word) base found fun given => .ok (given, waiting) := by
  unfold takeWord at h ⊢
  split at h
  · exact finds_takeLong h
  · exact finds_takeShort h
  · obtain ⟨middle, hadd, -⟩ := map_eq_ok_iff.mp h
    simp [Given.addPath, hpaths] at hadd

theorem finds_take (hpaths : grammar.paths = 0) {words : List String} (hwords : "--" ∉ words)
    (h : take grammar base waiting words = .ok found) (rest : List String) :
    Given.Finds (fun given => take grammar given waiting (words ++ rest)) base found
      fun given => take grammar given none rest := by
  -- On the words; `base` grows with each of them, so it is what was found up to here.
  induction words generalizing base waiting with
  | nil =>
    cases waiting with
    | none =>
      cases h
      exact .refl _ _
    | some => cases h
  | cons word words ih =>
    simp only [List.mem_cons, not_or] at hwords
    cases waiting with
    | none =>
      simp only [List.cons_append, take_cons (Ne.symm hwords.1)] at h ⊢
      obtain ⟨⟨middle, next⟩, hword, hrest⟩ := bind_eq_ok_iff.mp h
      exact (finds_takeWord hpaths hword).bind (ih hwords.2 hrest)
    | some waiting =>
      obtain ⟨flag, kind⟩ := waiting
      simp only [List.cons_append, take_waiting] at h ⊢
      split at h
      · rename_i haccepted
        obtain ⟨middle, hadd, hrest⟩ := bind_eq_ok_iff.mp h
        simp only [haccepted, if_true]
        exact (Given.finds_addValue hadd).bind (ih hwords.2 hrest)
      · cases h

def foundIn (grammar : Grammar) (words : List String) : Given :=
  ((read grammar words).toOption).getD .empty

/-- Words that make sense alone: flags with their values, none of them twice. -/
def Group (grammar : Grammar) (words : List String) : Prop :=
  "--" ∉ words ∧ ∃ found, read grammar words = .ok found

theorem Group.read_eq {words : List String} (group : Group grammar words) :
    read grammar words = .ok (foundIn grammar words) := by
  obtain ⟨-, found, hfound⟩ := group
  rw [foundIn, hfound]
  rfl

theorem nodup_names_of_read (hpaths : grammar.paths = 0) {words : List String}
    (hwords : "--" ∉ words) (h : read grammar words = .ok found) : found.names.Nodup :=
  (finds_take hpaths hwords h []).distinct List.nodup_nil

theorem take_flatten (hpaths : grammar.paths = 0) {groups : List (List String)}
    (h : ∀ group ∈ groups, Group grammar group) (given : Given) :
    take grammar given none groups.flatten =
      (groups.map (foundIn grammar)).foldlM Given.joined given := by
  induction groups generalizing given with
  | nil => rfl
  | cons group groups ih =>
    rw [List.forall_mem_cons] at h
    have hgroup := (finds_take hpaths h.1.1 h.1.read_eq groups.flatten).onTop given
      given.apart_empty
    rw [Given.under_empty] at hgroup
    rw [List.flatten_cons, hgroup, List.map_cons, List.foldlM_cons]
    exact congrArg (given.joined (foundIn grammar group) >>= ·) (funext (ih h.2))

theorem read_perm (hpaths : grammar.paths = 0) {groups groups' : List (List String)}
    (hperm : groups.Perm groups') (h : ∀ group ∈ groups, Group grammar group) :
    (read grammar groups.flatten = .error .usage ∧ read grammar groups'.flatten = .error .usage) ∨
      ∃ given given', read grammar groups.flatten = .ok given ∧
        read grammar groups'.flatten = .ok given' ∧ given.Same given' := by
  have hread := take_flatten hpaths h .empty
  have hread' := take_flatten hpaths (fun group hmem => h group (hperm.mem_iff.mpr hmem)) .empty
  rcases Given.foldlM_joined_perm (hperm.map (foundIn grammar)) .empty with
    ⟨hfold, hfold'⟩ | ⟨given, given', hfold, hfold', hflags⟩
  · exact .inl ⟨hread.trans hfold, hread'.trans hfold'⟩
  · have hwords : "--" ∉ groups.flatten := fun hmem => by
      obtain ⟨group, hgroup, hword⟩ := List.mem_flatten.mp hmem
      exact (h group hgroup).1 hword
    have hdistinct := nodup_names_of_read hpaths hwords (hread.trans hfold)
    exact .inr ⟨given, given', hread.trans hfold, hread'.trans hfold', hflags, hdistinct⟩

end Flags

namespace Invocation

open Flags

theorem loadTask_eq_of_same {given given' : Given} (h : given.Same given') :
    loadTask given = loadTask given' := by
  simp [loadTask, h.has_eq, h.value?_eq]

theorem takeWord_longName : ∀ flag ∈ loadGrammar.flags, flag ≠ helpFlag →
    "--" ++ flag.name ≠ "--" ∧ takeWord loadGrammar ("--" ++ flag.name) .empty =
      match flag.takes with
      | none => .ok (⟨[(flag.name, "")], []⟩, none)
      | some kind => .ok (.empty, some (flag, kind)) := by
  decide +kernel

theorem group_mark {flag : Flag} (hflag : flag ∈ loadGrammar.flags) (hhelp : flag ≠ helpFlag)
    (htakes : flag.takes = none) : Group loadGrammar ["--" ++ flag.name] := by
  obtain ⟨hword, htake⟩ := takeWord_longName flag hflag hhelp
  rw [htakes] at htake
  refine ⟨by simpa using hword.symm, ⟨[(flag.name, "")], []⟩, ?_⟩
  rw [Flags.read, take_cons hword, htake]
  rfl

theorem group_value {flag : Flag} {kind : ValueKind} {value : String}
    (hflag : flag ∈ loadGrammar.flags) (htakes : flag.takes = some kind)
    (haccepts : kind.accepts value) (hvalue : value.toList.head? ≠ some '-') :
    Group loadGrammar ["--" ++ flag.name, value] := by
  have hhelp : flag ≠ helpFlag := by
    rintro rfl
    cases htakes
  obtain ⟨hword, htake⟩ := takeWord_longName flag hflag hhelp
  rw [htakes] at htake
  have hother : value ≠ "--" := by
    rintro rfl
    exact hvalue rfl
  refine ⟨by simpa using ⟨hword.symm, hother.symm⟩, ⟨[(flag.name, value)], []⟩, ?_⟩
  have hplain : flag.takesHyphens || value = "-" || value.toList.head? ≠ some '-' := by
    simp [hvalue]
  rw [Flags.read, take_cons hword, htake]
  change take loadGrammar .empty (some (flag, kind)) [value] = _
  rw [take_waiting, if_pos hplain, Given.addValue, if_pos haccepts]
  rfl

/-- The order of the flags does not matter. -/
theorem read_load_perm {groups groups' : List (List String)} (hperm : groups.Perm groups')
    (h : ∀ group ∈ groups, Group loadGrammar group) :
    read ("load" :: groups.flatten) = read ("load" :: groups'.flatten) := by
  have hcommand (words : List String) : read ("load" :: words) =
      Flags.read loadGrammar words >>= fun given =>
        loadTask given >>= fun task => .ok ⟨given.has verboseFlag, task⟩ :=
    rfl
  rw [hcommand, hcommand]
  rcases read_perm rfl hperm h with ⟨hread, hread'⟩ | ⟨given, given', hread, hread', same⟩
  · rw [hread, hread']
  · rw [hread, hread']
    simp only [bind, Except.bind]
    rw [loadTask_eq_of_same same, same.has_eq]

end Invocation

end ModelBundle.Command
