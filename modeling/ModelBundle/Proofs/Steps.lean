import ModelBundle.Basic
import ModelBundle.Error

/-!
Steps on a state, and tables in it.  A step keeps a part of the state if that part is the same
after it as before, whether it succeeds or fails; what two steps keep, their sequence keeps.
-/

namespace ModelBundle

theorem bind_eq_ok_iff {ε α β : Type} {step : Except ε α} {next : α → Except ε β} {result : β} :
    (step >>= next) = .ok result ↔ ∃ value, step = .ok value ∧ next value = .ok result := by
  cases step <;> simp [bind, Except.bind]

theorem map_eq_ok_iff {ε α β : Type} {step : Except ε α} {f : α → β} {result : β} :
    f <$> step = .ok result ↔ ∃ value, step = .ok value ∧ f value = result := by
  cases step <;> simp [Functor.map, Except.map]

namespace Action

variable {σ α β γ : Type}

/-- No run of the step changes what `view` shows of the state. -/
def Keeps (view : σ → γ) (step : Action σ α) : Prop :=
  ∀ s, view (step s).2 = view s

theorem Keeps.map {view : σ → γ} {step : Action σ α} (h : Keeps view step) (f : γ → β) :
    Keeps (fun s => f (view s)) step :=
  fun s => congrArg f (h s)

theorem keeps_pure (view : σ → γ) (value : α) : Keeps view (pure value : Action σ α) :=
  fun _ => rfl

theorem keeps_fail (view : σ → γ) (error : LoadError) : Keeps view (fail error : Action σ α) :=
  fun _ => rfl

theorem keeps_get (view : σ → γ) : Keeps view (get : Action σ σ) :=
  fun _ => rfl

theorem keeps_ofExcept (view : σ → γ) (result : Except LoadError α) :
    Keeps view (ofExcept result : Action σ α) := by
  intro s
  rw [ofExcept_apply]

theorem keeps_attempt {view : σ → γ} {step : Action σ α} (h : Keeps view step) :
    Keeps view (attempt step) :=
  h

theorem keeps_bind {view : σ → γ} {step : Action σ α} {next : α → Action σ β}
    (hstep : Keeps view step) (hnext : ∀ value, Keeps view (next value)) :
    Keeps view (step >>= next) := by
  intro s
  rw [bind_apply]
  rcases h : step s with ⟨result, s'⟩
  have hs : view s' = view s := by
    have := hstep s
    rwa [h] at this
  cases result with
  | error error => exact hs
  | ok value => exact (hnext value s').trans hs

theorem bind_eq_ok {step : Action σ α} {next : α → Action σ β} {s s' : σ} {value : β}
    (h : (step >>= next) s = (.ok value, s')) :
    ∃ first middle, step s = (.ok first, middle) ∧ next first middle = (.ok value, s') := by
  rw [bind_apply] at h
  rcases hstep : step s with ⟨result, middle⟩
  rw [hstep] at h
  cases result with
  | error error => simp at h
  | ok first => exact ⟨first, middle, rfl, h⟩

end Action

end ModelBundle

/-!
Tables in which no key stands twice, and sums over their values.  What a sum loses by an erasure is
the share of the value that was there.
-/

namespace ModelBundle.Table

variable {α β : Type}

def Distinct (table : Table α β) : Prop :=
  table.Pairwise fun pair other => pair.1 ≠ other.1

def total (share : β → Nat) : Table α β → Nat
  | [] => 0
  | pair :: rest => share pair.2 + total share rest

@[simp] theorem distinct_nil : Distinct ([] : Table α β) :=
  List.Pairwise.nil

@[simp] theorem total_nil (share : β → Nat) : total share ([] : Table α β) = 0 :=
  rfl

theorem total_cons (share : β → Nat) (pair : α × β) (rest : Table α β) :
    total share (pair :: rest) = share pair.2 + total share rest := by
  rw [total]

theorem exists_mem_of_total_pos {share : β → Nat} {table : Table α β}
    (h : 0 < total share table) : ∃ pair ∈ table, 0 < share pair.2 := by
  induction table with
  | nil =>
    rw [total_nil] at h
    omega
  | cons pair rest ih =>
    rw [total_cons] at h
    rcases Nat.eq_zero_or_pos (share pair.2) with hzero | hpos
    · obtain ⟨other, hmem, hother⟩ := ih (by omega)
      exact ⟨other, List.mem_cons_of_mem _ hmem, hother⟩
    · exact ⟨pair, List.mem_cons_self, hpos⟩

variable [DecidableEq α]

theorem erase_cons_self (key : α) (value : β) (rest : Table α β) :
    erase ((key, value) :: rest) key = erase rest key := by
  simp [erase]

theorem erase_cons_of_ne {key other : α} (h : other ≠ key) (value : β) (rest : Table α β) :
    erase ((other, value) :: rest) key = (other, value) :: erase rest key := by
  simp [erase, h]

theorem distinct_erase {table : Table α β} (h : Distinct table) (key : α) :
    Distinct (erase table key) :=
  List.Pairwise.filter _ h

theorem distinct_set {table : Table α β} (h : Distinct table) (key : α) (value : β) :
    Distinct (set table key value) := by
  refine List.pairwise_cons.mpr ⟨?_, distinct_erase h key⟩
  intro pair hmem
  simp only [erase, List.mem_filter, decide_eq_true_eq] at hmem
  exact fun heq => hmem.2 heq.symm

theorem get?_of_mem {table : Table α β} {key : α} {value : β} (h : Distinct table)
    (hmem : (key, value) ∈ table) : get? table key = some value := by
  induction table with
  | nil => simp at hmem
  | cons pair rest ih =>
    obtain ⟨hfirst, hrest⟩ := List.pairwise_cons.mp h
    rcases List.mem_cons.mp hmem with rfl | hlater
    · simp only [get?, if_true]
    · have hne : pair.1 ≠ key := hfirst _ hlater
      simp only [get?, hne, if_false]
      exact ih hrest hlater

theorem mem_of_get? {table : Table α β} {key : α} {value : β} (h : get? table key = some value) :
    (key, value) ∈ table := by
  induction table with
  | nil => cases h
  | cons pair rest ih =>
    unfold get? at h
    split at h
    case isTrue heq =>
      cases h
      rw [← heq]
      exact List.mem_cons_self
    case isFalse => exact List.mem_cons_of_mem _ (ih h)

theorem get?_update (table : Table α β) (key other : α) (f : β → β) :
    get? (update table key f) other =
      if key = other then (get? table key).map f else get? table other := by
  unfold update
  cases h : get? table key with
  | none =>
    by_cases heq : key = other
    · rw [if_pos heq, ← heq, h]
      rfl
    · rw [if_neg heq]
  | some value => rw [get?_set, Option.map_some]

theorem erase_of_absent {table : Table α β} {key : α} (h : ∀ pair ∈ table, key ≠ pair.1) :
    erase table key = table := by
  apply List.filter_eq_self.mpr
  intro pair hmem
  simpa using Ne.symm (h pair hmem)

def shareAt (share : β → Nat) (table : Table α β) (key : α) : Nat :=
  match get? table key with
  | some value => share value
  | none => 0

theorem shareAt_of_some (share : β → Nat) {table : Table α β} {key : α} {value : β}
    (h : get? table key = some value) : shareAt share table key = share value := by
  rw [shareAt, h]

theorem shareAt_of_none (share : β → Nat) {table : Table α β} {key : α}
    (h : get? table key = none) : shareAt share table key = 0 := by
  rw [shareAt, h]

theorem total_eq_erase (share : β → Nat) {table : Table α β} (h : Distinct table) (key : α) :
    total share table = total share (erase table key) + shareAt share table key := by
  induction table with
  | nil => rfl
  | cons pair rest ih =>
    obtain ⟨hfirst, hrest⟩ := List.pairwise_cons.mp h
    obtain ⟨other, value⟩ := pair
    by_cases hkey : other = key
    · subst hkey
      rw [erase_cons_self, erase_of_absent hfirst, total_cons]
      simp only [shareAt, get?, if_true]
      omega
    · have hshare : shareAt share ((other, value) :: rest) key = shareAt share rest key := by
        simp only [shareAt, get?, hkey, if_false]
      rw [erase_cons_of_ne hkey, total_cons, total_cons, hshare, ih hrest]
      omega

theorem total_set (share : β → Nat) {table : Table α β} (h : Distinct table) (key : α)
    (value : β) :
    total share (set table key value) + shareAt share table key =
      share value + total share table := by
  rw [set, total_cons, total_eq_erase share h key]
  dsimp only
  omega

theorem share_le_total (share : β → Nat) {table : Table α β} {key : α} {value : β}
    (h : Distinct table) (hget : get? table key = some value) :
    share value ≤ total share table := by
  have hsum := total_eq_erase share h key
  rw [shareAt_of_some share hget] at hsum
  omega

def assign (table : Table α β) (key : α) : Option β → Table α β
  | some value => set table key value
  | none => erase table key

theorem get?_assign (table : Table α β) (key other : α) (value? : Option β) :
    get? (assign table key value?) other = if key = other then value? else get? table other := by
  cases value? with
  | none => exact get?_erase _ _ _
  | some value => exact get?_set _ _ _ _

theorem distinct_assign {table : Table α β} (h : Distinct table) (key : α) (value? : Option β) :
    Distinct (assign table key value?) := by
  cases value? with
  | none => exact distinct_erase h key
  | some value => exact distinct_set h key value

theorem total_assign (share : β → Nat) {table : Table α β} (h : Distinct table) (key : α)
    (value? : Option β) :
    total share (assign table key value?) + shareAt share table key =
      (value?.map share).getD 0 + total share table := by
  cases value? with
  | none =>
    rw [assign, total_eq_erase share h key]
    exact (Nat.zero_add _).symm
  | some value => exact total_set share h key value

end ModelBundle.Table
