import ModelBundle.Proofs.Embedding.Progress

/-!
What an embedding does to its inputs and to other files.  The temporary file is opened under a name
that is made up from the name of the output; whatever that name already led to is written over, be
it an input.
-/

namespace ModelBundle

open ModelBundle.Bundle FileSystem

namespace FileSystem

def place? (fs : FileSystem) (path : Path) : Option Location :=
  match fs.target path with
  | .ok (.named parent name _) => some (parent ++ [name])
  | _ => none

def Twins (fs : FileSystem) (path other : Path) : Prop :=
  ∃ place place' id, fs.place? path = some place ∧ fs.place? other = some place' ∧
    fs.entry? place = some (.file id) ∧ fs.entry? place' = some (.file id)

def at? (fs : FileSystem) (location : Location) : Option (Entry × Option FileData) :=
  (fs.entry? location).map fun entry => (entry, entry.number?.bind fs.file?)

theorem data?_eq_iff {before small after : FileSystem} {id input : Nat} {path : Path}
    {data : FileData} (hsmall : ∀ location entry, small.entry? location = some entry →
      before.entry? location = some entry)
    (hkept : ∀ location entry, small.entry? location = some entry →
      after.entry? location = some entry)
    (hnew : ∀ location entry, after.entry? location = some entry →
      entry = .file id ∨ small.entry? location = some entry)
    (hsmallWorking : before.working = small.working) (hworking : after.working = small.working)
    (hothers : ∀ other, other ≠ id → after.file? other = before.file? other)
    (hwritten : ∀ written, after.file? id = some written → written.content ≠ data.content)
    (hleads : before.leads? path = some input) (hdata : before.file? input = some data) :
    after.data? path = before.data? path ↔
      small.leads? path = before.leads? path ∧ input ≠ id := by
  rw [data?_eq_bind, data?_eq_bind, hleads, Option.bind_some, hdata]
  constructor
  · intro h
    cases hafter : after.leads? path with
    | none =>
      rw [hafter] at h
      cases h
    | some other =>
      rw [hafter, Option.bind_some] at h
      have hne : other ≠ id := by
        rintro rfl
        exact hwritten data h rfl
      have hfound := (leads?_of_new hnew hworking hafter).resolve_left hne
      have hsame := leads?_mono hsmall hsmallWorking hfound
      rw [hleads] at hsame
      cases hsame
      exact ⟨hfound, hne⟩
  · rintro ⟨hfound, hne⟩
    rw [leads?_mono hkept hworking hfound, Option.bind_some, hothers input hne, hdata]

/-- A new file has taken a place, and that is all that happened to the names. -/
structure Placed (before after : FileSystem) (place : Location) (id : Nat) : Prop where
  names : ∀ location, after.entry? location =
    if place = location then some (.file id) else before.entry? location
  unnamed : ∀ location, before.entry? location ≠ some (.file id)
  working : after.working = before.working
  others : ∀ other, other ≠ id → after.file? other = before.file? other

namespace Placed

variable {before after : FileSystem} {place : Location} {id : Nat}

theorem spares (placed : Placed before after place id) {location : Location}
    (h : place ≠ location) : after.at? location = before.at? location := by
  rw [at?, at?, placed.names, if_neg h]
  rcases hfound : before.entry? location with _ | (other | _ | target)
  · rfl
  · have hother : other ≠ id := by
      rintro rfl
      exact placed.unnamed location hfound
    simp only [Option.map_some, Entry.number?, Option.bind_some, placed.others other hother]
  · rfl
  · rfl

theorem data?_iff {out path : Path} {parent : Location} {name : String}
    (placed : Placed before after (parent ++ [name]) id)
    (hout : before.target out = .ok (.named parent name false))
    (hfree : before.entry? (parent ++ [name]) ≠ some .directory) {input : Nat} {data : FileData}
    (hleads : before.leads? path = some input) (hdata : before.file? input = some data)
    (hwritten : ∀ written, after.file? id = some written → written.content ≠ data.content) :
    after.data? path = before.data? path ↔
      (before.without out).leads? path = before.leads? path := by
  have hapart : input ≠ id := by
    rintro rfl
    obtain ⟨location, hnamed⟩ := named_of_leads? hleads
    exact placed.unnamed location hnamed
  have hsmall := entry?_without hout hfree
  rw [← and_iff_left (a := (before.without out).leads? path = before.leads? path) hapart]
  apply data?_eq_iff
  · exact fun _ _ => entry?_of_without
  · intro location entry hentry
    rw [hsmall] at hentry
    rw [placed.names]
    split at hentry
    · cases hentry
    · rename_i hother
      rw [if_neg hother]
      exact hentry
  · intro location entry hentry
    rw [placed.names] at hentry
    split at hentry
    · exact .inl (Option.some.inj hentry).symm
    · rename_i hother
      rw [hsmall, if_neg hother]
      exact .inr hentry
  · exact (file?_without before _ 0).2.symm
  · rw [(file?_without before _ 0).2, placed.working]
  · exact placed.others
  · exact hwritten
  · exact hleads
  · exact hdata

end Placed

theorem data?_without_iff {files : FileSystem} {taken path : Path} {id : Nat}
    {data : FileData} (hleads : files.leads? path = some id) (hfile : files.file? id = some data) :
    (files.without taken).data? path = files.data? path ↔
      (files.without taken).leads? path = files.leads? path := by
  rw [data?_eq_bind, data?_eq_bind]
  constructor
  · intro h
    cases hfound : (files.without taken).leads? path with
    | none =>
      rw [hfound, hleads, Option.bind_none, Option.bind_some, hfile] at h
      cases h
    | some other =>
      exact (leads?_mono (fun _ _ => entry?_of_without) (file?_without files taken 0).2.symm
        hfound).symm
  · intro h
    rw [h, hleads, Option.bind_some, Option.bind_some]
    exact (file?_without files taken id).1

end FileSystem

namespace Bundle.Draft

variable {files built : FileSystem} {out : Path}

theorem place_ne_temporary {place parent : Location} (hplace : files.place? out = some place) :
    parent ++ [Path.stem out ++ ".partial"] ≠ place := by
  unfold place? at hplace
  split at hplace
  · rename_i above name slash hout
    cases hplace
    obtain ⟨-, hlast, -, ⟨hdot, hdots, -⟩, -⟩ := target_eq_named_iff.mp hout
    exact fun heq => Path.stem_ne hlast hdot hdots (List.append_singleton_inj.mp heq).2
  · cases hplace

theorem twins (draft : Draft files out built) {parent place : Location} {name : String}
    (htarget : files.target (Path.temporary out) =
      .ok (.named parent (Path.stem out ++ ".partial") false))
    (hout : files.target out = .ok (.named place name false))
    (hne : parent ++ [Path.stem out ++ ".partial"] ≠ place ++ [name]) {id : Nat}
    (hentry : built.entry? (parent ++ [Path.stem out ++ ".partial"]) = some (.file id))
    (hstood : built.entry? (place ++ [name]) = some (.file id)) :
    files.Twins (Path.temporary out) out := by
  refine ⟨_, _, id, by rw [place?, htarget], by rw [place?, hout], ?_⟩
  rcases draft.occupied_or_vacant htarget with ⟨entry, -, hbefore, hafter⟩ | ⟨-, hentries, hunnamed⟩
  · rw [hentry] at hafter
    cases hafter
    -- The temporary path leads to a file, so opening it for writing has made no name.
    have hfound := resolve_name_of_ne_link htarget hbefore (fun _ h => by cases h) true
    rcases draft.created.either with ⟨-, hsame⟩ | ⟨_, _, hmissing, -⟩
    · refine ⟨hbefore, ?_⟩
      rw [← hstood]
      exact entry?_congr (draft.rewritten.entries.trans hsame).symm _
    · rw [hfound] at hmissing
      cases hmissing
  · rw [entry?_set (by simp) hentries, if_pos rfl] at hentry
    cases hentry
    rw [entry?_set (by simp) hentries, if_neg hne] at hstood
    exact absurd hstood (hunnamed _)

theorem renamed_of_rename (draft : Draft files out built) {parent : Location}
    (htarget : files.target (Path.temporary out) =
      .ok (.named parent (Path.stem out ++ ".partial") false))
    {after : FileSystem} (hrename : built.rename (Path.temporary out) out = .ok after) :
    ∃ place name entry, files.target out = .ok (.named place name false) ∧
      files.entry? (place ++ [name]) ≠ some .directory ∧
      parent ++ [Path.stem out ++ ".partial"] ≠ place ++ [name] ∧
      built.entry? (parent ++ [Path.stem out ++ ".partial"]) = some entry ∧
      after = if entry.isTwin (built.entry? (place ++ [name])) then built else { built with
        entries := Table.set (Table.erase built.entries
          (parent ++ [Path.stem out ++ ".partial"])) (place ++ [name]) entry } := by
  have hbuilt : built.target (Path.temporary out) =
      .ok (.named parent (Path.stem out ++ ".partial") false) :=
    target_mono (fun _ _ h => draft.kept h) draft.working htarget
  obtain ⟨entry, hentry, hdirectory⟩ : ∃ entry,
      built.entry? (parent ++ [Path.stem out ++ ".partial"]) = some entry ∧
        entry ≠ .directory := by
    rcases draft.occupied_or_vacant htarget with ⟨entry, hne, -, hentry⟩ | ⟨-, hentries, -⟩
    · exact ⟨entry, hentry, hne⟩
    · refine ⟨.file draft.id, ?_, fun h => by cases h⟩
      rw [entry?_set (by simp) hentries, if_pos rfl]
  obtain ⟨place, name, hout, hplace⟩ := rename_eq_ok hrename hbuilt hentry hdirectory
  obtain ⟨-, hlast, -, ⟨hdot, hdots, -⟩, -⟩ := target_eq_named_iff.mp hout
  have hne : parent ++ [Path.stem out ++ ".partial"] ≠ place ++ [name] := by
    intro heq
    exact Path.stem_ne hlast hdot hdots (List.append_singleton_inj.mp heq).2
  obtain ⟨hfree, hafter⟩ := hplace.resolve_left hne
  have hbefore : files.target out = .ok (.named place name false) :=
    target_of_new (fun entry h => ⟨draft.id, h⟩) (fun _ _ h => draft.new h) draft.working
      hout
  exact ⟨place, name, entry, hbefore, fun h => hfree (draft.kept h), hne, hentry, hafter⟩

theorem renamed (draft : Draft files out built) {parent : Location}
    (htarget : files.target (Path.temporary out) =
      .ok (.named parent (Path.stem out ++ ".partial") false))
    (apart : ¬ files.Twins (Path.temporary out) out)
    {after : FileSystem} (hrename : built.rename (Path.temporary out) out = .ok after) :
    ∃ place name entry, files.target out = .ok (.named place name false) ∧
      files.entry? (place ++ [name]) ≠ some .directory ∧
      parent ++ [Path.stem out ++ ".partial"] ≠ place ++ [name] ∧
      built.entry? (parent ++ [Path.stem out ++ ".partial"]) = some entry ∧
      (∀ location, after.entry? location = if place ++ [name] = location then some entry
        else if parent ++ [Path.stem out ++ ".partial"] = location then none
        else built.entry? location) ∧
      after.working = built.working ∧ after.files = built.files := by
  obtain ⟨place, name, entry, hout, hfree, hne, hentry, hafter⟩ :=
    draft.renamed_of_rename htarget hrename
  have htwin : ¬ entry.isTwin (built.entry? (place ++ [name])) = true := by
    rw [Entry.isTwin_iff]
    rintro ⟨id, rfl, hstood⟩
    exact apart (draft.twins htarget hout hne hentry hstood)
  rw [if_neg htwin] at hafter
  subst hafter
  refine ⟨place, name, entry, hout, hfree, hne, hentry, fun location => ?_, rfl, rfl⟩
  have herased : ∀ other, FileSystem.entry? { built with
      entries := Table.erase built.entries (parent ++ [Path.stem out ++ ".partial"]) } other =
        if parent ++ [Path.stem out ++ ".partial"] = other then none else built.entry? other :=
    entry?_erase (by simp) rfl
  rw [← herased]
  exact entry?_set (by simp) rfl location

theorem renamed_twins (draft : Draft files out built)
    (twins : files.Twins (Path.temporary out) out)
    {after : FileSystem} (hrename : built.rename (Path.temporary out) out = .ok after) :
    after = built := by
  obtain ⟨parent, htarget⟩ := draft.target
  obtain ⟨place, name, entry, hout, -, -, hentry, hafter⟩ :=
    draft.renamed_of_rename htarget hrename
  obtain ⟨here, there, id, hhere, hthere, hown, hother⟩ := twins
  simp only [place?, htarget, hout, Option.some.injEq] at hhere hthere
  subst hhere hthere
  have htwin : entry.isTwin (built.entry? (place ++ [name])) = true := by
    rw [draft.kept hown] at hentry
    exact Entry.isTwin_iff.mpr ⟨id, (Option.some.inj hentry).symm, draft.kept hother⟩
  rw [if_pos htwin] at hafter
  exact hafter

theorem not_twins_of_vacant {parent : Location} {name : String} {path other : Path}
    (htarget : files.target path = .ok (.named parent name false))
    (hvacant : files.entry? (parent ++ [name]) = none) : ¬ files.Twins path other := by
  rintro ⟨place, _, id, hplace, -, hentry, -⟩
  simp only [place?, htarget, Option.some.injEq] at hplace
  rw [← hplace, hvacant] at hentry
  cases hentry

theorem placed (draft : Draft files out built) {parent : Location}
    (htarget : files.target (Path.temporary out) =
      .ok (.named parent (Path.stem out ++ ".partial") false))
    (hvacant : files.entry? (parent ++ [Path.stem out ++ ".partial"]) = none)
    {after : FileSystem} {place : Location} {entry : Entry}
    (hentry : built.entry? (parent ++ [Path.stem out ++ ".partial"]) = some entry)
    (hnames : ∀ location, after.entry? location = if place = location then some entry
      else if parent ++ [Path.stem out ++ ".partial"] = location then none
      else built.entry? location)
    (hworking : after.working = built.working) (hfiles : after.files = built.files) :
    Placed files after place draft.id := by
  rcases draft.occupied_or_vacant htarget with
    ⟨stood, -, hstood, -⟩ | ⟨-, hentries, hunnamed⟩
  · rw [hvacant] at hstood
    cases hstood
  have hmade : entry = .file draft.id := by
    rw [entry?_set (by simp) hentries, if_pos rfl] at hentry
    exact (Option.some.inj hentry).symm
  refine ⟨?_, hunnamed, hworking.trans draft.working, ?_⟩
  · intro location
    rw [hnames, hmade]
    by_cases hown : parent ++ [Path.stem out ++ ".partial"] = location
    · rw [if_pos hown, ← hown, hvacant]
    · rw [if_neg hown, entry?_set (by simp) hentries, if_neg hown]
  · intro other hother
    rw [← draft.others hother, file?, file?, hfiles]

end Bundle.Draft

namespace Bundle.Attempt

variable {files built : FileSystem} {host payload out : Path} {align : Option UInt64}

theorem input (attempt : Attempt files host payload out align built) {path : Path}
    (h : path ∈ [host, payload]) :
    ∃ id data, files.leads? path = some id ∧ files.file? id = some data ∧
      attempt.data.content ≠ data.content := by
  have prepared := attempt.prepared
  have hnonempty := prepared.nonempty
  have hmagic := prepared.magic
  have hne : ∀ bytes : Bytes, 0 < bytes.length → (attempt.data.content = [] ∨
      bytes.length < attempt.data.content.length) → attempt.data.content ≠ bytes := by
    rintro bytes hpos hgrown rfl
    rcases hgrown with hempty | hlonger
    · rw [hempty] at hpos
      cases hpos
    · omega
  simp only [List.mem_cons, List.not_mem_nil, or_false] at h
  rcases h with rfl | rfl
  · refine ⟨_, _, prepared.host, prepared.hostFile, hne _ hnonempty ?_⟩
    exact attempt.outgrows.imp_right And.left
  · refine ⟨_, _, prepared.payload, prepared.payloadFile, hne _ (by omega) ?_⟩
    exact attempt.outgrows.imp_right And.right

theorem apart_iff (attempt : Attempt files host payload out align built) {path : Path} {id : Nat}
    (h : files.leads? path = some id) :
    id ≠ attempt.id ↔ files.leads? (Path.temporary out) ≠ files.leads? path := by
  rw [h]
  rcases attempt.created.either with ⟨htemporary, -⟩ | ⟨parent, name, hmissing, -, hunnamed⟩
  · rw [htemporary]
    constructor
    · intro hne heq
      cases heq
      exact hne rfl
    · rintro hne rfl
      exact hne rfl
  · refine iff_of_true ?_ ?_
    · rintro rfl
      obtain ⟨location, hentry⟩ := named_of_leads? h
      exact hunnamed location hentry
    · unfold leads?
      rw [hmissing]
      exact fun heq => by cases heq

theorem discarded_iff (attempt : Attempt files host payload out align built) {path : Path}
    (h : path ∈ [host, payload]) :
    (built.without (Path.temporary out)).data? path = files.data? path ↔
      (files.without (Path.temporary out)).leads? path = files.leads? path ∧
        files.leads? (Path.temporary out) ≠ files.leads? path := by
  obtain ⟨id, data, hleads, hfile, hcontent⟩ := attempt.input h
  obtain ⟨parent, htarget⟩ := attempt.target
  have hfiles := entry?_without htarget (by
    rcases attempt.occupied_or_vacant htarget with ⟨entry, hne, hentry, -⟩ | ⟨hvacant, -⟩
    · rw [hentry]
      exact fun heq => hne (Option.some.inj heq)
    · rw [hvacant]
      exact fun heq => by cases heq)
  have hbuilt := attempt.entry?_discarded htarget
  rw [← attempt.apart_iff hleads]
  apply data?_eq_iff
  · exact fun _ _ => entry?_of_without
  · intro location entry hentry
    rw [hfiles] at hentry
    rw [hbuilt]
    split at hentry
    · cases hentry
    · rename_i hne
      rw [if_neg hne]
      exact attempt.kept hentry
  · intro location entry hentry
    rw [hbuilt] at hentry
    split at hentry
    · cases hentry
    · rename_i hne
      rw [hfiles, if_neg hne]
      exact attempt.new hentry
  · exact (file?_without files _ 0).2.symm
  · rw [(file?_without built _ 0).2, (file?_without files _ 0).2]
    exact attempt.working
  · intro other hne
    rw [(file?_without built _ other).1]
    exact attempt.others hne
  · intro written hwritten
    rw [(file?_without built _ attempt.id).1, attempt.rewritten.written] at hwritten
    cases hwritten
    exact hcontent
  · exact hleads
  · exact hfile

theorem left_iff (attempt : Attempt files host payload out align built) {path : Path}
    (h : path ∈ [host, payload]) :
    built.data? path = files.data? path ↔
      files.leads? (Path.temporary out) ≠ files.leads? path := by
  obtain ⟨id, data, hleads, hfile, hcontent⟩ := attempt.input h
  have hiff : built.data? path = files.data? path ↔
      files.leads? path = files.leads? path ∧ id ≠ attempt.id := by
    apply data?_eq_iff
    · exact fun _ _ hentry => hentry
    · exact fun _ _ hentry => attempt.kept hentry
    · exact fun _ _ hentry => attempt.new hentry
    · rfl
    · exact attempt.working
    · exact fun other hne => attempt.others hne
    · intro written hwritten
      rw [attempt.rewritten.written] at hwritten
      cases hwritten
      exact hcontent
    · exact hleads
    · exact hfile
  rw [hiff, attempt.apart_iff hleads]
  exact and_iff_right rfl

theorem twins_iff (attempt : Attempt files host payload out align built)
    (twins : files.Twins (Path.temporary out) out) :
    ((∀ path ∈ [host, payload], built.data? path = files.data? path) ∧
      ∀ location, files.place? out ≠ some location → built.at? location = files.at? location) ↔
    files.data? (Path.temporary out) = some attempt.data := by
  obtain ⟨parent, htarget⟩ := attempt.target
  obtain ⟨here, there, id, hhere, hthere, hown, -⟩ := twins
  simp only [place?, htarget, Option.some.injEq] at hhere
  subst hhere
  have hfound := resolve_name_of_ne_link htarget hown (fun _ h => by cases h) true
  have hleads : files.leads? (Path.temporary out) = some id :=
    leads?_eq_some_iff.mpr ⟨_, hfound⟩
  have hentries : built.entries = files.entries ∧ id = attempt.id := by
    rcases attempt.created.either with ⟨hsame, hentries⟩ | ⟨_, _, hmissing, -⟩
    · exact ⟨attempt.rewritten.entries.trans hentries, Option.some.inj (hleads.symm.trans hsame)⟩
    · rw [hfound] at hmissing
      cases hmissing
  obtain ⟨hentries, rfl⟩ := hentries
  have hnames := entry?_congr hentries
  rw [data?_eq_bind, hleads, Option.bind_some]
  constructor
  · rintro ⟨-, hframe⟩
    have hsame := hframe (parent ++ [Path.stem out ++ ".partial"]) (by
      rw [hthere]
      exact fun heq => Draft.place_ne_temporary hthere (Option.some.inj heq).symm)
    simp only [at?, hnames, hown, Option.map_some, Entry.number?, Option.bind_some,
      Option.some.injEq, Prod.mk.injEq, true_and] at hsame
    rw [← hsame]
    exact attempt.rewritten.written
  · intro hbefore
    have hfile : built.file? = files.file? := by
      funext other
      by_cases hother : other = attempt.id
      · rw [hother, attempt.rewritten.written, hbefore]
      · exact attempt.others hother
    refine ⟨fun path _ => ?_, fun location _ => ?_⟩
    · rw [data?_eq_bind, data?_eq_bind, hfile, leads?, leads?, resolve_congr hnames attempt.working]
    · rw [at?, at?, hnames, hfile]

theorem published_iff (attempt : Attempt files host payload out align built) {after : FileSystem}
    (hrename : built.rename (Path.temporary out) out = .ok after) :
    ((∀ path ∈ [host, payload], after.data? path = files.data? path) ∧
      ∀ location, files.place? out ≠ some location → after.at? location = files.at? location) ↔
    ((∃ fault, files.remove (Path.temporary out) = .error fault) ∧
      ∀ path ∈ [host, payload], (files.without out).leads? path = files.leads? path) ∨
    files.Twins (Path.temporary out) out ∧
      files.data? (Path.temporary out) = some attempt.data := by
  obtain ⟨parent, htarget⟩ := attempt.target
  by_cases twins : files.Twins (Path.temporary out) out
  · obtain rfl := attempt.renamed_twins twins hrename
    rw [attempt.twins_iff twins]
    refine ⟨fun h => .inr ⟨twins, h⟩, ?_⟩
    rintro (⟨hvacant, -⟩ | ⟨-, hdata⟩)
    · obtain ⟨place, _, id, hplace, -, hentry, -⟩ := twins
      simp only [place?, htarget, Option.some.injEq] at hplace
      subst hplace
      exact absurd hvacant (remove_of_named htarget hentry fun h => by cases h)
    · exact hdata
  · rw [or_iff_left fun h => twins h.1]
    obtain ⟨place, name, entry, hout, hfree, hne, hentry, hnames, hworking, hfiles⟩ :=
      attempt.renamed htarget twins hrename
    have hplace : files.place? out = some (place ++ [name]) := by
      rw [place?, hout]
    rcases attempt.occupied_or_vacant htarget with ⟨stood, hregular, hstood, -⟩ | ⟨hvacant, -⟩
    · -- What stood under the temporary name has moved.
      refine iff_of_false ?_ fun h => remove_of_named htarget hstood hregular h.1
      rintro ⟨-, hframe⟩
      have hsame := hframe (parent ++ [Path.stem out ++ ".partial"]) (by
        rw [hplace]
        exact fun heq => hne (Option.some.inj heq).symm)
      rw [at?, at?, hnames, if_neg hne.symm, if_pos rfl, hstood] at hsame
      cases hsame
    · have hplaced := attempt.placed htarget hvacant hentry hnames hworking hfiles
      have hinput : ∀ path ∈ [host, payload], after.data? path = files.data? path ↔
          (files.without out).leads? path = files.leads? path := by
        intro path hpath
        obtain ⟨id, data, hleads, hfile, hcontent⟩ := attempt.input hpath
        apply hplaced.data?_iff hout hfree hleads hfile
        intro written hwritten
        rw [file?, hfiles, ← file?, attempt.rewritten.written] at hwritten
        cases hwritten
        exact hcontent
      constructor
      · rintro ⟨hinputs, -⟩
        exact ⟨⟨_, remove_of_vacant htarget hvacant⟩,
          fun path hpath => (hinput path hpath).mp (hinputs path hpath)⟩
      · rintro ⟨-, hinputs⟩
        refine ⟨fun path hpath => (hinput path hpath).mpr (hinputs path hpath), ?_⟩
        intro location hlocation
        apply hplaced.spares
        rintro rfl
        exact hlocation hplace

end Bundle.Attempt

/-- For all files and all arguments: exactly when an embedding spares its inputs and, if it
succeeds, every place but that of `out`.  A refused one does.  One that fails later has opened the
file that the temporary path leads to, which must not be an input, and has taken the temporary name
away if it failed before renaming.  One that succeeds must have found the temporary name free, and
no input must have been reached through a link that stood under `out`; or else the temporary name
was a second name of the file `out`, and that file was the very same bundle before. -/
theorem embed_spares_iff (host payload out : Path) (align : Option UInt64) (world : World) :
    ((∀ path ∈ [host, payload],
        (embed host payload out align world).2.files.data? path = world.files.data? path) ∧
      ∀ trailer, (embed host payload out align world).1 = .ok trailer →
        ∀ location, world.files.place? out ≠ some location →
          (embed host payload out align world).2.files.at? location =
            world.files.at? location) ↔
    match progress host payload out align world with
    | .refused => True
    | .unopened => ∀ path ∈ [host, payload],
      (world.files.without (Path.temporary out)).leads? path = world.files.leads? path
    | .unfinished => ∀ path ∈ [host, payload],
      (world.files.without (Path.temporary out)).leads? path = world.files.leads? path ∧
        world.files.leads? (Path.temporary out) ≠ world.files.leads? path
    | .unpublished => ∀ path ∈ [host, payload],
      world.files.leads? (Path.temporary out) ≠ world.files.leads? path
    | .published =>
      ((∃ fault, world.files.remove (Path.temporary out) = .error fault) ∧
        ∀ path ∈ [host, payload],
          (world.files.without out).leads? path = world.files.leads? path) ∨
      world.files.Twins (Path.temporary out) out ∧
        world.files.data? (Path.temporary out) = bundle? world.files host payload align := by
  have hends := embed_ends host payload out align world
  -- After a failure only the inputs matter.
  have hfailed : ∀ inputs : Prop,
      (∃ error, (embed host payload out align world).1 = .error error) →
      ((inputs ∧ ∀ trailer, (embed host payload out align world).1 = .ok trailer →
        ∀ location, world.files.place? out ≠ some location →
          (embed host payload out align world).2.files.at? location =
            world.files.at? location) ↔ inputs) := by
    rintro inputs ⟨error, herror⟩
    apply and_iff_left
    intro trailer hok
    rw [herror] at hok
    cases hok
  cases hprogress : progress host payload out align world with
  | refused =>
    rw [hprogress] at hends
    rw [hfailed _ hends.1, hends.2]
    exact iff_of_true (fun _ _ => rfl) trivial
  | unopened =>
    rw [hprogress] at hends
    obtain ⟨herror, ⟨parts, hostId, payloadId, hostData, payloadData, prepared⟩, hfiles⟩ := hends
    rw [hfailed _ herror, hfiles]
    apply forall₂_congr
    intro path hpath
    simp only [List.mem_cons, List.not_mem_nil, or_false] at hpath
    rcases hpath with rfl | rfl
    · exact data?_without_iff prepared.host prepared.hostFile
    · exact data?_without_iff prepared.payload prepared.payloadFile
  | unfinished =>
    rw [hprogress] at hends
    obtain ⟨herror, built, ⟨attempt⟩, hfiles⟩ := hends
    rw [hfailed _ herror, hfiles]
    exact forall₂_congr fun path hpath => attempt.discarded_iff hpath
  | unpublished =>
    rw [hprogress] at hends
    obtain ⟨herror, built, ⟨attempt, -⟩, hfiles⟩ := hends
    rw [hfailed _ herror, hfiles]
    exact forall₂_congr fun path hpath => attempt.left_iff hpath
  | published =>
    rw [hprogress] at hends
    obtain ⟨⟨trailer, hok⟩, built, ⟨attempt, hbundle⟩, hrename⟩ := hends
    rw [hbundle, ← attempt.published_iff hrename]
    apply and_congr_right
    intro _
    constructor
    · intro hframe
      exact hframe trailer hok
    · intro hframe _ _
      exact hframe

def namedAsTemporary : FileSystem where
  entries := [(["work"], .directory), (["work", "out.partial"], .file 0), (["work", "m"], .file 1)]
  files := [(0, ⟨List.replicate 40 0x11, 0o644⟩), (1, ⟨Magic.gguf, 0o644⟩)]
  working := ["work"]

/-- The embedding succeeds, and its host is gone. -/
theorem embed_takes_host :
    (embed "out.partial" "m" "out" none (.ofFiles namedAsTemporary)).1.isOk = true ∧
      namedAsTemporary.data? "out.partial" = some ⟨List.replicate 40 0x11, 0o644⟩ ∧
      (embed "out.partial" "m" "out" none
        (.ofFiles namedAsTemporary)).2.files.data? "out.partial" = none := by
  decide +kernel

end ModelBundle
