import ModelBundle.Basic

/-!
The temporary name of an output.  It is a plain name, and never the name of the output itself.
-/

namespace ModelBundle.Path

theorem split_ne_nil (chars : List Char) : split chars ≠ [] := by
  cases chars with
  | nil => exact List.cons_ne_nil _ _
  | cons c rest =>
    unfold split
    split
    · exact List.cons_ne_nil _ _
    · split <;> exact List.cons_ne_nil _ _

theorem split_append_slash (before after : List Char) :
    split (before ++ '/' :: after) = split before ++ split after := by
  induction before with
  | nil => rfl
  | cons c rest ih =>
    rw [List.cons_append, split, split]
    split
    · rw [ih, List.cons_append]
    · rw [ih]
      cases h : split rest with
      | nil => exact absurd h (split_ne_nil rest)
      | cons piece pieces => rfl

theorem split_of_slash_not_mem {chars : List Char} (h : '/' ∉ chars) : split chars = [chars] := by
  induction chars with
  | nil => rfl
  | cons c rest ih =>
    rw [List.mem_cons, not_or] at h
    rw [split, if_neg (Ne.symm h.1), ih h.2]

theorem slash_not_mem_of_mem_split {chars piece : List Char} (h : piece ∈ split chars) :
    '/' ∉ piece := by
  induction chars generalizing piece with
  | nil =>
    rw [split, List.mem_singleton] at h
    rw [h]
    exact List.not_mem_nil
  | cons c rest ih =>
    rw [split] at h
    split at h
    case isTrue =>
      rcases List.mem_cons.mp h with rfl | h
      · exact List.not_mem_nil
      · exact ih h
    case isFalse hc =>
      cases hsplit : split rest with
      | nil => exact absurd hsplit (split_ne_nil rest)
      | cons first pieces =>
        rw [hsplit] at h
        rcases List.mem_cons.mp h with rfl | h
        · rw [List.mem_cons, not_or]
          exact ⟨Ne.symm hc, ih (hsplit ▸ List.mem_cons_self)⟩
        · exact ih (hsplit ▸ List.mem_cons_of_mem _ h)

theorem slash_not_mem_of_mem_pieces {path : Path} {piece : String} (h : piece ∈ pieces path) :
    '/' ∉ piece.toList := by
  obtain ⟨chars, hmem, rfl⟩ := List.mem_map.mp h
  rw [String.toList_ofList]
  exact slash_not_mem_of_mem_split hmem

theorem mem_of_mem_trim {parts : List String} {piece : String} (h : piece ∈ trim parts) :
    piece ∈ parts := by
  cases parts with
  | nil => exact h
  | cons first rest =>
    rcases List.mem_cons.mp h with rfl | h
    · exact List.mem_cons_self
    · have hdropped := (List.dropWhile_sublist _).mem (List.mem_reverse.mp h)
      exact List.mem_cons_of_mem _ (List.mem_reverse.mp hdropped)

theorem slash_not_mem_of_fileName? {path : Path} {name : String} (h : fileName? path = some name) :
    '/' ∉ name.toList := by
  unfold fileName? at h
  dsimp only at h
  split at h
  · cases h
  · rename_i last hlast
    split at h
    · cases h
    · cases h
      exact slash_not_mem_of_mem_pieces (mem_of_mem_trim (List.mem_of_getLast? hlast))

theorem trim_getLast? (first : String) (rest : List String) :
    (trim (first :: rest)).getLast? = some
      ((rest.reverse.dropWhile fun piece => piece = "" || piece = ".").head?.getD first) := by
  unfold trim
  dsimp only
  generalize List.dropWhile _ rest.reverse = kept
  cases kept with
  | nil => rfl
  | cons last others => rw [List.reverse_cons, ← List.cons_append, List.getLast?_concat]; rfl

theorem fileName?_of_getLast? {path : Path} {name : String}
    (h : (components path).getLast? = some name) (hdot : name ≠ ".") (hdots : name ≠ "..") :
    fileName? path = some name := by
  have hempty : name ≠ "" := by
    have hmem := List.mem_of_getLast? h
    rw [components, List.mem_filter] at hmem
    simpa using hmem.2
  obtain ⟨first, rest, hpieces⟩ : ∃ first rest, pieces path = first :: rest := by
    cases hpieces : pieces path with
    | nil => exact absurd (List.map_eq_nil_iff.mp hpieces) (split_ne_nil _)
    | cons first rest => exact ⟨first, rest, rfl⟩
  have hlast : ∀ backwards : List String,
      ((backwards ++ [first]).filter (· ≠ "")).head? = some name →
      (backwards.dropWhile fun piece => piece = "" || piece = ".").head?.getD first = name := by
    intro backwards
    induction backwards with
    | nil =>
      intro hhead
      by_cases hfirst : first = ""
      · simp [hfirst] at hhead
      · simpa [hfirst] using hhead
    | cons piece others ih =>
      intro hhead
      by_cases hpiece : piece = ""
      · simp only [hpiece, List.cons_append] at hhead ⊢
        exact ih (by simpa using hhead)
      · have hname : piece = name := by simpa [hpiece] using hhead
        rw [hname]
        simp [hempty, hdot]
  have hhead : ((rest.reverse ++ [first]).filter (· ≠ "")).head? = some name := by
    rw [← List.reverse_cons, List.filter_reverse, List.head?_reverse, ← hpieces]
    exact h
  unfold fileName?
  simp only [hpieces, trim_getLast?, hlast _ hhead]
  simp [hempty, hdot, hdots]

theorem pieces_join (path : Path) {name : String} (h : '/' ∉ name.toList) :
    ∃ above, pieces (join path name) = above ++ [name] := by
  have hname : split name.toList = [name.toList] := split_of_slash_not_mem h
  have hpath : ∀ before : List Char,
      (split (before ++ '/' :: name.toList)).map String.ofList =
        (split before).map String.ofList ++ [name] := by
    intro before
    rw [split_append_slash, hname, List.map_append, List.map_singleton, String.ofList_toList]
  unfold join pieces
  split
  case isTrue hshort =>
    simp only [Bool.or_eq_true, decide_eq_true_eq] at hshort
    rcases hshort with rfl | hslash
    · refine ⟨[], ?_⟩
      rw [String.empty_append, hname, List.map_singleton, String.ofList_toList]
      rfl
    · simp only [endsInSlash, decide_eq_true_eq] at hslash
      obtain ⟨before, hbefore⟩ := List.getLast?_eq_some_iff.mp hslash
      refine ⟨(split before).map String.ofList, ?_⟩
      rw [String.toList_append, hbefore, List.append_assoc, List.singleton_append, hpath]
  case isFalse =>
    refine ⟨(split path.toList).map String.ofList, ?_⟩
    rw [String.toList_append, String.toList_append, List.append_assoc]
    exact hpath path.toList

theorem components_join (path : Path) {name : String} (h : '/' ∉ name.toList) (hname : name ≠ "") :
    (components (join path name)).getLast? = some name := by
  obtain ⟨above, habove⟩ := pieces_join path h
  rw [components, habove, List.filter_append, List.getLast?_append]
  simp [hname]

theorem endsInSlash_join (path : Path) {name : String} (h : '/' ∉ name.toList) (hname : name ≠ "") :
    endsInSlash (join path name) = false := by
  have hlast : ∀ before : List Char, (before ++ name.toList).getLast? ≠ some '/' := by
    intro before hslash
    rw [List.getLast?_append] at hslash
    cases hchars : name.toList.getLast? with
    | none => exact hname (String.toList_eq_nil_iff.mp (List.getLast?_eq_none_iff.mp hchars))
    | some c =>
      rw [hchars, Option.some_or, Option.some.injEq] at hslash
      exact h (hslash ▸ List.mem_of_getLast? hchars)
  unfold endsInSlash join
  rw [decide_eq_false_iff_not]
  split
  · rw [String.toList_append]
    exact hlast _
  · rw [String.toList_append]
    exact hlast _

def stem (out : Path) : String := (fileName? out).getD ""

theorem slash_not_mem_stem (out : Path) : '/' ∉ (stem out ++ ".partial").toList := by
  have hstem : '/' ∉ (stem out).toList := by
    unfold stem
    cases h : fileName? out with
    | none => exact List.not_mem_nil
    | some name => exact slash_not_mem_of_fileName? h
  rw [String.toList_append, List.mem_append, not_or]
  exact ⟨hstem, by decide⟩

theorem length_stem (out : Path) : 8 ≤ (stem out ++ ".partial").length := by
  rw [String.length_append]
  exact Nat.le_add_left _ _

theorem temporary_eq_join (out : Path) :
    ∃ above, temporary out = join above (stem out ++ ".partial") := by
  unfold temporary withFileName
  split
  · exact ⟨_, rfl⟩
  · exact ⟨_, rfl⟩

theorem getLast?_temporary (out : Path) :
    (components (temporary out)).getLast? = some (stem out ++ ".partial") ∧
      endsInSlash (temporary out) = false := by
  have hne : stem out ++ ".partial" ≠ "" := by
    intro h
    have := length_stem out
    rw [h] at this
    exact absurd this (by decide)
  obtain ⟨above, habove⟩ := temporary_eq_join out
  rw [habove]
  exact ⟨components_join above (slash_not_mem_stem out) hne,
    endsInSlash_join above (slash_not_mem_stem out) hne⟩

example : temporary "sub/../out" = "sub/../out.partial" := by decide
example : temporary "a//b/./c/." = "a//b/c.partial" := by decide

theorem stem_ne_dot (out : Path) :
    stem out ++ ".partial" ≠ "." ∧ stem out ++ ".partial" ≠ ".." := by
  have := length_stem out
  constructor <;> intro h <;> rw [h] at this <;> exact absurd this (by decide)

theorem stem_ne {out : Path} {name : String} (h : (components out).getLast? = some name)
    (hdot : name ≠ ".") (hdots : name ≠ "..") : stem out ++ ".partial" ≠ name := by
  intro heq
  have hstem : stem out = name := by
    unfold stem
    rw [fileName?_of_getLast? h hdot hdots, Option.getD_some]
  rw [hstem] at heq
  have hlength := congrArg String.length heq
  rw [String.length_append] at hlength
  have : ".partial".length = 8 := by decide
  omega

end ModelBundle.Path
