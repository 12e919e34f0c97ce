import ComponentRegistry.Proofs.Disk.Places
import ComponentRegistry.Proofs.Walk.Survey
import Mathlib.Data.List.Perm.Subperm

/-!
# A walk has levels enough

Each level of a walk takes up a file that was not taken up before.  What can be loaded is a place of
the disk under its canonical path (`Loadable`), so no more files can be loaded than the disk has
places, and the levels a walk starts with never run out (`Room.pos`).
-/

namespace ComponentRegistry.Walk

/-! ## What is inlined -/

/-- A file is inlined if it belongs to the project and no remote registry stands for it. -/
theorem outcome_eq_inlined_iff {p : Project} {specifier : String} {importer file : Path}
    {found? : Option Path} :
    outcome p specifier importer found? = .ok (.inlined file) ↔
      found? = some file ∧ file.isInstalled = false ∧ file.startsWith p.root = true ∧
        p.config.registryUrl? (Path.baseName file.fileNameShown) = none := by
  cases found? with
  | none =>
    simp only [outcome]
    split_ifs <;> simp
  | some g =>
    simp only [outcome]
    constructor
    · intro h
      by_cases hi : g.isInstalled = true
      · rw [if_pos hi] at h; cases h
      rw [if_neg hi] at h
      by_cases hr : g.startsWith p.root = true
      · rw [if_pos hr] at h
        cases hu : p.config.registryUrl? (Path.baseName g.fileNameShown) with
        | some url => rw [hu] at h; cases h
        | none => rw [hu] at h; cases h; exact ⟨rfl, by simpa using hi, hr, hu⟩
      · rw [if_neg hr] at h
        split_ifs at h <;> cases h
    · rintro ⟨hg, hi, hr, hu⟩
      cases hg
      rw [if_neg (by simp [hi]), if_pos hr, hu]

/-- An inlined file is named by its canonical path, if it has one. -/
theorem resolveImport_inlined {p : Project} {specifier : String} {importer file : Path} {c : Cache}
    (h : (resolveImport p specifier importer c).1 = .ok (.inlined file)) :
    ∃ path, file = (p.disk.canonical path).toOption.getD path := by
  obtain ⟨hfile, -⟩ := outcome_eq_inlined_iff.mp h
  have hmap : ((Resolver.find p.disk (Cache.lookups p.disk) p.resolver specifier importer c).1.map
      fun path => (p.disk.canonical path).toOption.getD path) = some file := hfile
  obtain ⟨path, -, hpath⟩ := Option.map_eq_some_iff.mp hmap
  exact ⟨path, hpath.symm⟩

/-! ## What can be loaded -/

/-- If the file can be loaded at all, it is named by a canonical path. -/
def Loadable (p : Project) (file : Path) : Prop :=
  ∀ loaded, loadFile p file = .ok loaded → ∃ path, p.disk.canonical path = .ok file

/-- A file that was loaded was parsed and classified. -/
theorem of_loadFile {p : Project} {file : Path} {loaded : Loaded} (h : loadFile p file = .ok loaded) :
    SourceSummary.ofFile p.disk file = .ok loaded.summary ∧
      Classification.classify file p.root (some loaded.summary) = .ok loaded.type := by
  unfold loadFile at h
  cases hs : SourceSummary.ofFile p.disk file with
  | error f => rw [hs] at h; cases h
  | ok summary =>
    cases ht : Classification.classify file p.root (some summary) with
    | error f => simp [hs, ht, bind, Except.bind] at h
    | ok type =>
      simp only [hs, ht, bind, Except.bind, pure, Except.pure] at h
      cases h
      exact ⟨rfl, ht⟩

/-- A summary holds the text that was read. -/
theorem readText_of_ofFile {d : Disk} {file : Path} {s : SourceSummary}
    (h : SourceSummary.ofFile d file = .ok s) : d.readText file = .ok s.text := by
  unfold SourceSummary.ofFile at h
  cases hread : d.readText file with
  | error cause => rw [hread] at h; cases h
  | ok text =>
    rw [hread] at h
    simp only [SourceSummary.ofText] at h
    split at h
    · cases h; rfl
    · split at h
      · cases h
      · cases h; rfl

/-- Loading a file reads its text. -/
theorem readText_of_loadFile {p : Project} {file : Path} {loaded : Loaded}
    (h : loadFile p file = .ok loaded) : p.disk.readText file = .ok loaded.summary.text :=
  readText_of_ofFile (of_loadFile h).1

theorem loadable_of_canonical {p : Project} {path file : Path}
    (h : p.disk.canonical path = .ok file) : Loadable p file :=
  fun _ _ => ⟨path, h⟩

theorem loadable_of_inlined {p : Project} {specifier : String} {importer file : Path} {c : Cache}
    (h : (resolveImport p specifier importer c).1 = .ok (.inlined file)) : Loadable p file := by
  obtain ⟨path, hpath⟩ := resolveImport_inlined h
  intro loaded hload
  cases hc : p.disk.canonical path with
  | ok q =>
    rw [hc] at hpath
    exact ⟨path, by rw [hc, show file = q from hpath]⟩
  | error cause =>
    -- the path itself leads nowhere, so nothing can be read there
    rw [hc] at hpath
    obtain ⟨q, hq⟩ := Disk.canonical_of_readText (readText_of_loadFile hload)
    rw [show file = path from hpath, hc] at hq
    cases hq

theorem Survey.loadable_target {p : Project} {t : Survey} {importer file : Path}
    {r : Script.Reference} (h : (t.meet p importer r).1.target? = some file) : Loadable p file :=
  loadable_of_inlined (Met.target?_eq_some_iff.mp h)

/-! ## Room for another level -/

def Event.loadedFile? : Event → Option Path
  | .entered file (.ok _) => some file
  | _ => none

/-- The files that were taken up and could be loaded. -/
def loadedFiles (es : List Event) : List Path := es.filterMap Event.loadedFile?

@[simp] theorem loadedFiles_append (es fs : List Event) :
    loadedFiles (es ++ fs) = loadedFiles es ++ loadedFiles fs := by
  simp [loadedFiles]

theorem loadedFiles_met (m : Met) : loadedFiles [.met m] = [] := rfl

theorem loadedFiles_sublist (es : List Event) : (loadedFiles es).Sublist (entries es) := by
  induction es with
  | nil => exact .slnil
  | cons e es ih =>
    cases e with
    | met m => exact ih
    | entered file found =>
      cases found with
      | ok loaded => exact ih.cons_cons file
      | error f => exact ih.cons file

/-- The files loaded so far have canonical paths, and there are levels left for the others. -/
structure Room (p : Project) (levelsLeft : Nat) (es : List Event) : Prop where
  canonical : ∀ file ∈ loadedFiles es, ∃ path, p.disk.canonical path = .ok file
  left : levels p.disk ≤ levelsLeft + (loadedFiles es).length

section Room

variable {p : Project} {n : Nat} {es fs : List Event}

theorem room_nil : Room p (levels p.disk) [] := ⟨by simp [loadedFiles], by simp⟩

/-- **Levels never run out**: more files would have been loaded than the disk has places. -/
theorem Room.pos (h : Room p n es) (ho : Orderly es) : 0 < n := by
  have hnodup : (loadedFiles es).Nodup :=
    (List.Nodup.of_map Path.components ho.once).sublist (loadedFiles_sublist es)
  have hplaces : loadedFiles es ⊆ p.disk.places := fun file hfile =>
    (h.canonical file hfile).elim fun _ hc => Disk.mem_places hc
  have hle : (loadedFiles es).length ≤ p.disk.places.length :=
    (List.subperm_of_subset hnodup hplaces).length_le
  have := h.left
  rw [Disk.length_places] at hle
  unfold levels at this
  omega

theorem Room.met (h : Room p n es) (m : Met) : Room p n (es ++ [.met m]) := by
  refine ⟨?_, ?_⟩
  · simpa [loadedFiles_met] using h.canonical
  · simpa [loadedFiles_met] using h.left

theorem Room.enter {file : Path} (h : Room p n es) (hf : Loadable p file) :
    Room p n (es ++ [.entered file (loadFile p file)]) := by
  cases hload : loadFile p file with
  | error f =>
    have hsame : loadedFiles (es ++ [.entered file (.error f)]) = loadedFiles es := by
      simp [loadedFiles, Event.loadedFile?]
    exact ⟨by rw [hsame]; exact h.canonical, by rw [hsame]; exact h.left⟩
  | ok loaded =>
    have hmore : loadedFiles (es ++ [.entered file (.ok loaded)]) = loadedFiles es ++ [file] := by
      simp [loadedFiles, Event.loadedFile?]
    refine ⟨fun g hg => ?_, ?_⟩
    · rw [hmore] at hg
      rcases List.mem_append.mp hg with hg | hg
      · exact h.canonical g hg
      · cases List.mem_singleton.mp hg; exact hf loaded hload
    · have := h.left
      rw [hmore, List.length_append]
      omega

/-- Behind a file that is loaded one level less is enough. -/
theorem Room.descend {file : Path} {loaded : Loaded} (h : Room p (n + 1) es) (hf : Loadable p file)
    (hload : loadFile p file = .ok loaded) : Room p n (es ++ [.entered file (loadFile p file)]) := by
  have hmore : loadedFiles (es ++ [.entered file (.ok loaded)]) = loadedFiles es ++ [file] := by
    simp [loadedFiles, Event.loadedFile?]
  refine ⟨(h.enter hf).canonical, ?_⟩
  have := h.left
  rw [hload, hmore, List.length_append, List.length_singleton]
  omega

theorem surveyImports_room {explore : Path → Survey → Survey}
    (hexp : ∀ file t, Loadable p file → Room p n t.events → Room p n (explore file t).events)
    {importer : Path} (refs : List Script.Reference) {t : Survey} (h : Room p n t.events) :
    Room p n (surveyImports p explore importer refs t).events := by
  refine surveyImports_invariant (I := fun t => Room p n t.events) (fun r t h => h.met _) ?_ refs h
  intro r t file h htarget
  exact hexp file _ (Survey.loadable_target htarget) (h.met _)

/-- A survey leaves the room that there was. -/
theorem survey_room (levels : Nat) (file : Path) (t : Survey) (hf : Loadable p file)
    (h : Room p n t.events) : Room p n (survey p levels file t).events := by
  induction levels generalizing file t with
  | zero => exact h
  | succ levels ih =>
    unfold survey
    split_ifs
    · exact h
    · exact surveyImports_room ih _ (h.enter hf)

theorem Start.survey_room (w : Start) (h : Loadable w.project w.entry) :
    Room w.project (levels w.project.disk) w.survey.events :=
  Walk.survey_room _ w.entry .start h room_nil

end Room

end ComponentRegistry.Walk
