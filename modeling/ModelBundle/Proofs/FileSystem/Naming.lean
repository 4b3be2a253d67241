import ModelBundle.Proofs.FileSystem.Walking

/-!
The last name of a path.  Following a path and taking its last name apart go to the same directory;
what stands there under that name decides the rest.
-/

namespace ModelBundle.FileSystem

theorem resolve_eq_ok_iff {fs : FileSystem} {follow : Bool} {path : Path} {result : Walk} :
    fs.resolve follow path = .ok result ↔ refuse? path = none ∧
      fs.walk follow maxLinks (Path.endsInSlash path) (fs.start path) (Path.components path) =
        .ok result := by
  unfold resolve
  cases refuse? path with
  | some fault => simp
  | none =>
    dsimp only
    constructor
    · intro h
      split at h
      · rename_i hwalk
        cases h
        exact ⟨rfl, hwalk⟩
      · cases h
    · rintro ⟨-, hwalk⟩
      rw [hwalk]

theorem resolve_congr {first second : FileSystem}
    (h : ∀ location, first.entry? location = second.entry? location)
    (hworking : first.working = second.working) (follow : Bool) (path : Path) :
    first.resolve follow path = second.resolve follow path := by
  unfold resolve start
  rw [hworking]
  simp only [walk_congr h]

theorem resolve_found_new {before after : FileSystem} {new : Entry → Prop}
    (hnew : ∀ entry, new entry → ∃ id, entry = .file id)
    (h : ∀ location entry, after.entry? location = some entry →
      new entry ∨ before.entry? location = some entry)
    (hworking : after.working = before.working) {follow : Bool} {path : Path}
    {location : Location} {entry : Entry}
    (hresolve : after.resolve follow path = .ok (.found location entry)) :
    new entry ∨ before.resolve follow path = .ok (.found location entry) := by
  rw [resolve_eq_ok_iff] at hresolve ⊢
  unfold start at hresolve ⊢
  rw [hworking] at hresolve
  rcases walk_found_new hnew h _ _ _ _ _ hresolve.2 with hentry | hwalk
  · exact .inl hentry
  · exact .inr ⟨hresolve.1, hwalk⟩

theorem resolve_found_mono {before after : FileSystem}
    (h : ∀ location entry, before.entry? location = some entry →
      after.entry? location = some entry)
    (hworking : after.working = before.working) {follow : Bool} {path : Path}
    {location : Location} {entry : Entry}
    (hresolve : before.resolve follow path = .ok (.found location entry)) :
    after.resolve follow path = .ok (.found location entry) := by
  rw [resolve_eq_ok_iff] at hresolve ⊢
  unfold start at hresolve ⊢
  rw [hworking]
  exact ⟨hresolve.1, walk_found_mono h _ _ _ _ _ hresolve.2⟩

theorem entry?_of_resolve {fs : FileSystem} {follow : Bool} {path : Path} {location : Location}
    {entry : Entry} (hentry : entry ≠ .directory)
    (h : fs.resolve follow path = .ok (.found location entry)) :
    fs.entry? location = some entry :=
  entry?_of_walk _ _ _ _ _ _ hentry (resolve_eq_ok_iff.mp h).2

theorem target_eq_named_iff {fs : FileSystem} {path : Path} {parent : Location} {name : String}
    {slash : Bool} :
    fs.target path = .ok (.named parent name slash) ↔
      refuse? path = none ∧ (Path.components path).getLast? = some name ∧
        (∃ entry, fs.walk true maxLinks true (fs.start path) (Path.components path).dropLast =
          .ok (.found parent entry)) ∧
        (name ≠ "." ∧ name ≠ ".." ∧ name.utf8ByteSize ≤ maxName) ∧
        slash = Path.endsInSlash path := by
  unfold target
  cases refuse? path with
  | some fault => simp
  | none =>
    dsimp only
    cases (Path.components path).getLast? with
    | none => simp
    | some last =>
      dsimp only
      cases fs.walk true maxLinks true (fs.start path) (Path.components path).dropLast with
      | error code => simp
      | ok result =>
        cases result with
        | missing => simp
        | found place entry =>
          dsimp only
          split
          case isTrue hdots =>
            simp only [Bool.or_eq_true, decide_eq_true_eq] at hdots
            constructor
            · intro h
              cases h
            · rintro ⟨-, hlast, -, ⟨hdot, hdotdot, -⟩, -⟩
              cases hlast
              exact absurd hdots (not_or.mpr ⟨hdot, hdotdot⟩)
          case isFalse hdots =>
            simp only [Bool.or_eq_true, decide_eq_true_eq, not_or] at hdots
            split
            case isTrue hlong =>
              constructor
              · intro h
                cases h
              · rintro ⟨-, hlast, -, ⟨-, -, hshort⟩, -⟩
                cases hlast
                omega
            case isFalse hshort =>
              constructor
              · intro h
                cases h
                exact ⟨rfl, rfl, ⟨entry, rfl⟩, ⟨hdots.1, hdots.2, by omega⟩, rfl⟩
              · rintro ⟨-, hlast, ⟨other, hwalk⟩, -, rfl⟩
                cases hlast
                cases hwalk
                rfl

theorem components_eq_concat {path : Path} {name : String}
    (h : (Path.components path).getLast? = some name) :
    Path.components path = (Path.components path).dropLast ++ [name] := by
  obtain ⟨init, hinit⟩ := List.getLast?_eq_some_iff.mp h
  rw [hinit, List.dropLast_concat]

theorem walk_of_target {fs : FileSystem} {path : Path} {parent : Location} {name : String}
    {slash : Bool} (h : fs.target path = .ok (.named parent name slash)) :
    ∃ left, ∀ follow, fs.walk follow maxLinks slash (fs.start path) (Path.components path) =
      fs.walk follow left slash parent [name] := by
  obtain ⟨-, hlast, ⟨entry, hwalk⟩, -, -⟩ := target_eq_named_iff.mp h
  have hconcat := walk_concat fs maxLinks (fs.start path) (Path.components path).dropLast name
  rw [hwalk] at hconcat
  obtain ⟨left, hleft⟩ := hconcat
  rw [components_eq_concat hlast]
  exact ⟨left, fun follow => hleft follow slash⟩

theorem walk_singleton (fs : FileSystem) (follow : Bool) (links : Nat) (slash : Bool)
    (parent : Location) {name : String}
    (h : name ≠ "." ∧ name ≠ ".." ∧ name.utf8ByteSize ≤ maxName) :
    fs.walk follow links slash parent [name] = match fs.entry? (parent ++ [name]) with
      | none => .ok (.missing parent name slash)
      | some .directory => .ok (.found (parent ++ [name]) .directory)
      | some (.file id) =>
        if slash then .error .notADirectory else .ok (.found (parent ++ [name]) (.file id))
      | some (.link target) =>
        if !slash && !follow then .ok (.found (parent ++ [name]) (.link target))
        else match links with
          | 0 => .error .tooManyLinks
          | links + 1 => fs.walk follow links (slash || Path.endsInSlash target)
              (if Path.isAbsolute target then [] else parent) (Path.components target) := by
  obtain ⟨hdot, hdots, hshort⟩ := h
  rw [walk_cons, if_neg hdot, if_neg hdots, if_neg (Nat.not_lt.mpr hshort)]
  cases fs.entry? (parent ++ [name]) with
  | none => rfl
  | some entry =>
    cases entry with
    | directory => exact walk_nil _ _ _ _ _
    | file id => cases slash <;> rfl
    | link target =>
      dsimp only
      rewrite [List.append_nil]
      cases links <;> rfl

section Target

variable {fs : FileSystem} {path : Path} {parent : Location} {name : String}

theorem resolve_vacant {slash : Bool} (h : fs.target path = .ok (.named parent name slash))
    (hvacant : fs.entry? (parent ++ [name]) = none) (follow : Bool) :
    fs.resolve follow path = .ok (.missing parent name slash) := by
  obtain ⟨hrefuse, -, -, hproper, hslash⟩ := target_eq_named_iff.mp h
  obtain ⟨left, hleft⟩ := walk_of_target h
  rw [resolve_eq_ok_iff, ← hslash, hleft, walk_singleton _ _ _ _ _ hproper, hvacant]
  exact ⟨hrefuse, rfl⟩

theorem resolve_name (h : fs.target path = .ok (.named parent name false)) {entry : Entry}
    (hentry : fs.entry? (parent ++ [name]) = some entry) :
    fs.resolve false path = .ok (.found (parent ++ [name]) entry) := by
  obtain ⟨hrefuse, -, -, hproper, hslash⟩ := target_eq_named_iff.mp h
  obtain ⟨left, hleft⟩ := walk_of_target h
  rw [resolve_eq_ok_iff, ← hslash, hleft, walk_singleton _ _ _ _ _ hproper, hentry]
  cases entry <;> exact ⟨hrefuse, rfl⟩

theorem resolve_name_of_ne_link (h : fs.target path = .ok (.named parent name false))
    {entry : Entry} (hentry : fs.entry? (parent ++ [name]) = some entry)
    (hlink : ∀ target, entry ≠ .link target) (follow : Bool) :
    fs.resolve follow path = .ok (.found (parent ++ [name]) entry) := by
  obtain ⟨hrefuse, -, -, hproper, hslash⟩ := target_eq_named_iff.mp h
  obtain ⟨left, hleft⟩ := walk_of_target h
  rw [resolve_eq_ok_iff, ← hslash, hleft, walk_singleton _ _ _ _ _ hproper, hentry]
  cases entry with
  | link target => exact absurd rfl (hlink target)
  | directory => exact ⟨hrefuse, rfl⟩
  | file id => exact ⟨hrefuse, rfl⟩

theorem target_of_resolve {follow : Bool} {result : Walk}
    (h : fs.resolve follow path = .ok result)
    (hlast : (Path.components path).getLast? = some name) (hdot : name ≠ ".")
    (hdots : name ≠ "..") :
    ∃ parent, fs.target path = .ok (.named parent name (Path.endsInSlash path)) := by
  obtain ⟨hrefuse, hwalk⟩ := resolve_eq_ok_iff.mp h
  have hconcat := walk_concat fs maxLinks (fs.start path) (Path.components path).dropLast name
  rw [components_eq_concat hlast] at hwalk
  cases hparent : fs.walk true maxLinks true (fs.start path) (Path.components path).dropLast with
  | error code =>
    rw [hparent] at hconcat
    rw [hconcat] at hwalk
    cases hwalk
  | ok place =>
    cases place with
    | missing =>
      rw [hparent] at hconcat
      rw [hconcat] at hwalk
      cases hwalk
    | found parent entry =>
      rw [hparent] at hconcat
      obtain ⟨left, hleft⟩ := hconcat
      rw [hleft, walk_cons, if_neg hdot, if_neg hdots] at hwalk
      have hshort : name.utf8ByteSize ≤ maxName := by
        split at hwalk
        · cases hwalk
        · omega
      exact ⟨parent, target_eq_named_iff.mpr
        ⟨hrefuse, hlast, ⟨entry, hparent⟩, ⟨hdot, hdots, hshort⟩, rfl⟩⟩

end Target

theorem directory_of_walk (fs : FileSystem) (links : Nat) (here : Location) (names : List String)
    {location : Location} {entry : Entry}
    (h : fs.walk true links true here names = .ok (.found location entry)) :
    entry = .directory := by
  generalize hslash : true = strict at h
  induction links, strict, here, names using walk_induction with
  | nil links strict here =>
    rw [walk_nil] at h
    cases h
    rfl
  | cons links strict here name rest ih ihLinks =>
    subst hslash
    rw [walk_cons] at h
    split at h
    · exact ih _ rfl h
    split at h
    · exact ih _ rfl h
    split at h
    · cases h
    cases hnext : fs.entry? (here ++ [name]) with
    | none =>
      rw [hnext] at h
      dsimp only at h
      split at h <;> cases h
    | some next =>
      rw [hnext] at h
      cases next with
      | directory => exact ih _ rfl h
      | file id =>
        simp only [Bool.not_true, Bool.and_false, Bool.false_eq_true, if_false] at h
        cases h
      | link target =>
        simp only [Bool.not_true, Bool.and_false, Bool.false_eq_true, if_false] at h
        cases links with
        | zero => cases h
        | succ links => exact ihLinks links (Nat.lt_succ_self links) _ _ _ rfl h

theorem target_mono {before after : FileSystem}
    (h : ∀ location entry, before.entry? location = some entry →
      after.entry? location = some entry)
    (hworking : after.working = before.working) {path : Path} {parent : Location} {name : String}
    {slash : Bool} (htarget : before.target path = .ok (.named parent name slash)) :
    after.target path = .ok (.named parent name slash) := by
  rw [target_eq_named_iff] at htarget ⊢
  obtain ⟨hrefuse, hlast, ⟨entry, hwalk⟩, hrest⟩ := htarget
  refine ⟨hrefuse, hlast, ⟨entry, ?_⟩, hrest⟩
  unfold start at hwalk ⊢
  rw [hworking]
  exact walk_found_mono h _ _ _ _ _ hwalk

theorem target_of_new {before after : FileSystem} {new : Entry → Prop}
    (hnew : ∀ entry, new entry → ∃ id, entry = .file id)
    (h : ∀ location entry, after.entry? location = some entry →
      new entry ∨ before.entry? location = some entry)
    (hworking : after.working = before.working) {path : Path} {parent : Location} {name : String}
    {slash : Bool} (htarget : after.target path = .ok (.named parent name slash)) :
    before.target path = .ok (.named parent name slash) := by
  rw [target_eq_named_iff] at htarget ⊢
  obtain ⟨hrefuse, hlast, ⟨entry, hwalk⟩, hrest⟩ := htarget
  have hdirectory := directory_of_walk _ _ _ _ hwalk
  refine ⟨hrefuse, hlast, ⟨entry, ?_⟩, hrest⟩
  unfold start at hwalk ⊢
  rw [hworking] at hwalk
  rcases walk_found_new hnew h _ _ _ _ _ hwalk with hentry | hfound
  · obtain ⟨id, hid⟩ := hnew entry hentry
    rw [hdirectory] at hid
    cases hid
  · exact hfound

end ModelBundle.FileSystem
