import ModelBundle.FileSystem

/-!
What a path leads to, and what that depends on.  Opening, reading and asking for the size are all
answered by one look-up, that of the file at the end of the walk.
-/

namespace ModelBundle.FileSystem

/-- Content and mode of the file that a path leads to, through links. -/
def data? (files : FileSystem) (path : Path) : Option FileData :=
  match files.resolve true path with
  | .ok (.found _ (.file id)) => files.file? id
  | _ => none

theorem openRead_eq_file_iff {files : FileSystem} {path : Path} {id : Nat} :
    files.openRead path = .ok (.file id) ↔
      ∃ location data, files.resolve true path = .ok (.found location (.file id)) ∧
        files.file? id = some data ∧ permits data ownerRead = true := by
  unfold openRead
  constructor
  · intro h
    split at h
    · simp at h
    · simp at h
    · rename_i location found hwalk
      split at h
      · rename_i data hdata
        split at h
        · rename_i hpermits
          simp only [Except.ok.injEq, Handle.file.injEq] at h
          subst h
          exact ⟨location, data, hwalk, hdata, hpermits⟩
        · simp at h
      · simp at h
    · simp at h
    · simp at h
  · rintro ⟨location, data, hwalk, hdata, hpermits⟩
    simp only [hwalk, hdata, hpermits, if_true]

theorem content?_of_openRead {files : FileSystem} {path : Path} {handle : Handle}
    (h : files.openRead path = .ok handle) (regular : handle ≠ .directory) :
    ∃ content, files.content? handle = some content := by
  cases handle with
  | directory => exact absurd rfl regular
  | file id =>
    obtain ⟨location, data, -, hdata, -⟩ := openRead_eq_file_iff.mp h
    exact ⟨data.content, by simp only [content?, hdata, Option.map_some]⟩

theorem read_of_openRead {files : FileSystem} {path : Path} {handle : Handle} {content : Bytes}
    (h : files.openRead path = .ok handle) (hcontent : files.content? handle = some content) :
    files.read path = .ok content := by
  simp only [read, h, hcontent]

theorem read_eq_ok_iff {files : FileSystem} {path : Path} {content : Bytes} :
    files.read path = .ok content ↔
      ∃ id, files.openRead path = .ok (.file id) ∧ files.content? (.file id) = some content := by
  constructor
  · intro h
    unfold read at h
    split at h
    · simp at h
    · rename_i handle hopen
      split at h
      · rename_i found hfound
        simp only [Except.ok.injEq] at h
        subst h
        cases handle with
        | directory => simp [content?] at hfound
        | file id => exact ⟨id, hopen, hfound⟩
      · simp at h
  · rintro ⟨id, hopen, hcontent⟩
    exact read_of_openRead hopen hcontent

theorem readWhole_eq_ok_iff {files : FileSystem} {path : Path} {content : Bytes} :
    files.readWhole path = .ok content ↔
      files.read path = .ok content ∧ Memory.Holds content.length := by
  unfold readWhole
  cases files.read path with
  | error fault => simp
  | ok found =>
    by_cases holds : Memory.Holds found.length
    · simp only [if_pos holds, Except.ok.injEq]
      exact ⟨fun h => ⟨h, h ▸ holds⟩, And.left⟩
    · simp only [if_neg holds, Except.ok.injEq]
      exact iff_of_false (fun h => by cases h) fun h => holds (h.1 ▸ h.2)

theorem size_eq {files : FileSystem} {handle : Handle} {content : Bytes}
    (h : files.content? handle = some content) : files.size handle = content.length := by
  simp only [size, h]

/-!
What a walk depends on.  It asks for entries only, so more entries never hide what was found, and a
new file can only be found as itself.
-/

theorem walk_nil (fs : FileSystem) (follow : Bool) (links : Nat) (slash : Bool) (here : Location) :
    fs.walk follow links slash here [] = .ok (.found here .directory) := by
  cases links <;> rfl

theorem walk_cons (fs : FileSystem) (follow : Bool) (links : Nat) (slash : Bool) (here : Location)
    (name : String) (rest : List String) :
    fs.walk follow links slash here (name :: rest) =
      if name = "." then fs.walk follow links slash here rest
      else if name = ".." then fs.walk follow links slash here.dropLast rest
      else if maxName < name.utf8ByteSize then .error .nameTooLong
      else match fs.entry? (here ++ [name]) with
        | none => if rest.isEmpty then .ok (.missing here name slash) else .error .noSuchFile
        | some .directory => fs.walk follow links slash (here ++ [name]) rest
        | some (.file id) =>
          if rest.isEmpty && !slash then .ok (.found (here ++ [name]) (.file id))
          else .error .notADirectory
        | some (.link target) =>
          if rest.isEmpty && !slash && !follow then .ok (.found (here ++ [name]) (.link target))
          else match links with
            | 0 => .error .tooManyLinks
            | links + 1 => fs.walk follow links (slash || (rest.isEmpty && Path.endsInSlash target))
                (if Path.isAbsolute target then [] else here) (Path.components target ++ rest) := by
  cases links <;> rfl

/-- Induction along a walk: over the names, and over the links that may still be passed. -/
theorem walk_induction {motive : Nat → Bool → Location → List String → Prop}
    (nil : ∀ links slash here, motive links slash here [])
    (cons : ∀ links slash here name rest, (∀ here, motive links slash here rest) →
      (∀ fewer, fewer < links → ∀ slash here names, motive fewer slash here names) →
      motive links slash here (name :: rest))
    (links : Nat) (slash : Bool) (here : Location) (names : List String) :
    motive links slash here names := by
  induction links using Nat.strongRecOn generalizing slash here names with
  | ind links ih =>
    induction names generalizing here with
    | nil => exact nil links slash here
    | cons name rest ih' => exact cons links slash here name rest ih' ih

theorem walk_congr {first second : FileSystem} (h : ∀ location,
    first.entry? location = second.entry? location) (follow : Bool) (links : Nat) (slash : Bool)
    (here : Location) (names : List String) :
    first.walk follow links slash here names = second.walk follow links slash here names := by
  induction links, slash, here, names using walk_induction with
  | nil => rw [walk_nil, walk_nil]
  | cons links slash here name rest ih ihLinks =>
    rw [walk_cons, walk_cons, ih, ih, ih, h]
    cases links with
    | zero => rfl
    | succ links => simp only [ihLinks links (Nat.lt_succ_self links)]

theorem walk_found_new {before after : FileSystem} {new : Entry → Prop}
    (hnew : ∀ entry, new entry → ∃ id, entry = .file id)
    (h : ∀ location entry, after.entry? location = some entry →
      new entry ∨ before.entry? location = some entry)
    (follow : Bool) (links : Nat) (slash : Bool) (here : Location) (names : List String)
    {location : Location} {entry : Entry}
    (hwalk : after.walk follow links slash here names = .ok (.found location entry)) :
    new entry ∨ before.walk follow links slash here names = .ok (.found location entry) := by
  induction links, slash, here, names using walk_induction with
  | nil links slash here =>
    right
    rw [walk_nil] at hwalk ⊢
    exact hwalk
  | cons links slash here name rest ih ihLinks =>
    rw [walk_cons] at hwalk ⊢
    split at hwalk
    case isTrue hdot =>
      rw [if_pos hdot]
      exact ih here hwalk
    rename_i hdot
    rw [if_neg hdot]
    split at hwalk
    case isTrue hdots =>
      rw [if_pos hdots]
      exact ih here.dropLast hwalk
    rename_i hdots
    rw [if_neg hdots]
    split at hwalk
    case isTrue => cases hwalk
    rename_i hshort
    rw [if_neg hshort]
    cases hentry : after.entry? (here ++ [name]) with
    | none =>
      rw [hentry] at hwalk
      dsimp only at hwalk
      split at hwalk <;> cases hwalk
    | some next =>
      rw [hentry] at hwalk
      rcases h _ _ hentry with hnext | hold
      · -- A new file ends the walk.
        obtain ⟨id, rfl⟩ := hnew next hnext
        dsimp only at hwalk
        split at hwalk
        · cases hwalk
          exact .inl hnext
        · cases hwalk
      · rw [hold]
        cases next with
        | directory => exact ih _ hwalk
        | file id => exact .inr hwalk
        | link target =>
          dsimp only at hwalk ⊢
          split at hwalk
          case isTrue hlast =>
            rw [if_pos hlast]
            exact .inr hwalk
          case isFalse hlast =>
            rw [if_neg hlast]
            cases links with
            | zero => cases hwalk
            | succ links => exact ihLinks links (Nat.lt_succ_self links) _ _ _ hwalk

theorem walk_found_mono {before after : FileSystem}
    (h : ∀ location entry, before.entry? location = some entry →
      after.entry? location = some entry)
    (follow : Bool) (links : Nat) (slash : Bool) (here : Location) (names : List String)
    {location : Location} {entry : Entry}
    (hwalk : before.walk follow links slash here names = .ok (.found location entry)) :
    after.walk follow links slash here names = .ok (.found location entry) := by
  have hnew : ∀ entry : Entry, False → ∃ id, entry = .file id := fun _ h => h.elim
  have := walk_found_new hnew (fun location entry he => .inr (h location entry he)) follow links
    slash here names hwalk
  exact this.resolve_left id

theorem entry?_of_walk (fs : FileSystem) (follow : Bool) (links : Nat) (slash : Bool)
    (here : Location) (names : List String) {location : Location} {entry : Entry}
    (hentry : entry ≠ .directory)
    (hwalk : fs.walk follow links slash here names = .ok (.found location entry)) :
    fs.entry? location = some entry := by
  induction links, slash, here, names using walk_induction with
  | nil links slash here =>
    rw [walk_nil] at hwalk
    cases hwalk
    exact absurd rfl hentry
  | cons links slash here name rest ih ihLinks =>
    rw [walk_cons] at hwalk
    split at hwalk
    · exact ih _ hwalk
    split at hwalk
    · exact ih _ hwalk
    split at hwalk
    · cases hwalk
    cases hnext : fs.entry? (here ++ [name]) with
    | none =>
      rw [hnext] at hwalk
      dsimp only at hwalk
      split at hwalk <;> cases hwalk
    | some next =>
      rw [hnext] at hwalk
      cases next with
      | directory => exact ih _ hwalk
      | file id =>
        dsimp only at hwalk
        split at hwalk <;> cases hwalk
        exact hnext
      | link target =>
        dsimp only at hwalk
        split at hwalk
        · cases hwalk
          exact hnext
        · cases links with
          | zero => cases hwalk
          | succ links => exact ihLinks links (Nat.lt_succ_self links) _ _ _ hwalk

theorem vacant_of_walk (fs : FileSystem) (follow : Bool) (links : Nat) (slash : Bool)
    (here : Location) (names : List String) {parent : Location} {name : String} {strict : Bool}
    (hwalk : fs.walk follow links slash here names = .ok (.missing parent name strict)) :
    fs.entry? (parent ++ [name]) = none := by
  induction links, slash, here, names using walk_induction with
  | nil links slash here =>
    rw [walk_nil] at hwalk
    cases hwalk
  | cons links slash here first rest ih ihLinks =>
    rw [walk_cons] at hwalk
    split at hwalk
    · exact ih _ hwalk
    split at hwalk
    · exact ih _ hwalk
    split at hwalk
    · cases hwalk
    cases hnext : fs.entry? (here ++ [first]) with
    | none =>
      rw [hnext] at hwalk
      dsimp only at hwalk
      split at hwalk <;> cases hwalk
      exact hnext
    | some next =>
      rw [hnext] at hwalk
      cases next with
      | directory => exact ih _ hwalk
      | file id =>
        dsimp only at hwalk
        split at hwalk <;> cases hwalk
      | link target =>
        dsimp only at hwalk
        split at hwalk
        · cases hwalk
        · cases links with
          | zero => cases hwalk
          | succ links => exact ihLinks links (Nat.lt_succ_self links) _ _ _ hwalk

theorem walk_missing_filled {before after : FileSystem}
    (h : ∀ location entry, before.entry? location = some entry →
      after.entry? location = some entry)
    (follow : Bool) (links : Nat) (slash : Bool) (here : Location) (names : List String)
    {parent : Location} {name : String} {id : Nat}
    (hfile : after.entry? (parent ++ [name]) = some (.file id))
    (hwalk : before.walk follow links slash here names = .ok (.missing parent name false)) :
    after.walk follow links slash here names = .ok (.found (parent ++ [name]) (.file id)) := by
  induction links, slash, here, names using walk_induction with
  | nil links slash here =>
    rw [walk_nil] at hwalk
    cases hwalk
  | cons links slash here first rest ih ihLinks =>
    rw [walk_cons] at hwalk ⊢
    split at hwalk
    case isTrue hdot =>
      rw [if_pos hdot]
      exact ih here hwalk
    rename_i hdot
    rw [if_neg hdot]
    split at hwalk
    case isTrue hdots =>
      rw [if_pos hdots]
      exact ih here.dropLast hwalk
    rename_i hdots
    rw [if_neg hdots]
    split at hwalk
    case isTrue => cases hwalk
    rename_i hshort
    rw [if_neg hshort]
    cases hentry : before.entry? (here ++ [first]) with
    | none =>
      rw [hentry] at hwalk
      dsimp only at hwalk
      split at hwalk
      case isTrue hlast =>
        cases hwalk
        rw [hfile]
        exact if_pos (by rw [hlast]; rfl)
      case isFalse => cases hwalk
    | some next =>
      rw [hentry] at hwalk
      rw [h _ _ hentry]
      cases next with
      | directory => exact ih _ hwalk
      | file other =>
        dsimp only at hwalk
        split at hwalk <;> cases hwalk
      | link target =>
        dsimp only at hwalk ⊢
        split at hwalk
        case isTrue => cases hwalk
        case isFalse hlast =>
          rw [if_neg hlast]
          cases links with
          | zero => cases hwalk
          | succ links => exact ihLinks links (Nat.lt_succ_self links) _ _ _ hwalk

theorem walk_concat (fs : FileSystem) (links : Nat) (here : Location) (names : List String)
    (last : String) :
    match fs.walk true links true here names with
    | .ok (.found parent _) => ∃ left, ∀ follow slash,
        fs.walk follow links slash here (names ++ [last]) = fs.walk follow left slash parent [last]
    | .ok (.missing ..) => ∀ follow slash,
        fs.walk follow links slash here (names ++ [last]) = .error .noSuchFile
    | .error code => ∀ follow slash,
        fs.walk follow links slash here (names ++ [last]) = .error code := by
  generalize hslash : true = strict
  induction links, strict, here, names using walk_induction with
  | nil links strict here =>
    rw [walk_nil]
    exact ⟨links, fun _ _ => rfl⟩
  | cons links strict here name rest ih ihLinks =>
    subst hslash
    have hrest : (rest ++ [last]).isEmpty = false := by simp
    -- Both walks make the same step; the longer one is not at its end yet.
    have hshort := walk_cons fs true links true here name rest
    have hlong : ∀ follow slash, _ := fun follow slash =>
      walk_cons fs follow links slash here name (rest ++ [last])
    simp only [hrest, Bool.false_and, Bool.or_false, Bool.false_eq_true, if_false] at hlong
    simp only [Bool.true_or, Bool.not_true, Bool.and_false, Bool.false_eq_true, if_false] at hshort
    simp only [List.cons_append, hlong, hshort]
    by_cases hdot : name = "."
    · simp only [if_pos hdot]
      exact ih here rfl
    by_cases hdots : name = ".."
    · simp only [if_neg hdot, if_pos hdots]
      exact ih here.dropLast rfl
    by_cases htoo : maxName < name.utf8ByteSize
    · simp only [if_neg hdot, if_neg hdots, if_pos htoo]
      exact fun _ _ => trivial
    simp only [if_neg hdot, if_neg hdots, if_neg htoo]
    cases hentry : fs.entry? (here ++ [name]) with
    | none =>
      cases rest with
      | nil => exact fun _ _ => rfl
      | cons next rest => exact fun _ _ => rfl
    | some next =>
      cases next with
      | directory => exact ih _ rfl
      | file id => exact fun _ _ => rfl
      | link target =>
        cases links with
        | zero => exact fun _ _ => rfl
        | succ links =>
          dsimp only
          rw [← List.append_assoc]
          exact ihLinks links (Nat.lt_succ_self links) _ _ _ rfl

end ModelBundle.FileSystem
