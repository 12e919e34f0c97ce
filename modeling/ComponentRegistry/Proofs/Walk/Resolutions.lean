import ComponentRegistry.Proofs.Resolver.Memory
import ComponentRegistry.Proofs.Walk.Contents

/-!
# What import statements are resolved to

The notes of a survey say what became of each import statement.  Here the file that its specifier
was resolved to stands beside it (`Start.resolutions`).  That file decides what becomes of the
statement (`Start.answer_eq`), by its components alone: it is inlined or redirected if it belongs to
the project, and left to others if it does not (`SameFate`).

Where the resolver asks for files only by spellings that a file can have, its memory changes nothing
(`Start.file?_eq`), so statements in one directory that share a specifier are resolved to one file
(`Start.file?_eq_of_directory`).
-/

namespace ComponentRegistry.Walk

/-- The question that an import statement puts to the resolver. -/
def Met.call (m : Met) : Resolver.Call := (m.reference.specifier, m.importer)

def Event.met? : Event → Option Met
  | .entered _ _ => none
  | .met m => some m

/-- The import statements that were met, in order. -/
def mets (es : List Event) : List Met := es.filterMap Event.met?

/-- An import statement that was met, with the file that its specifier was resolved to. -/
structure Resolution where
  met : Met
  file? : Option Path

/-- The import statements of notes, resolved one after the other with one memory. -/
def resolutions (p : Project) (c : Cache) (es : List Event) : List Resolution :=
  List.zipWith Resolution.mk (mets es)
    (Resolver.resolveAll p.disk (Cache.lookups p.disk) p.resolver ((mets es).map Met.call) c).1

/-- The import statements of a walk with the files that they were resolved to. -/
def Start.resolutions (w : Start) : List Resolution :=
  Walk.resolutions w.project .empty w.survey.events

/-- The file belongs to the project: it is below its root and not installed. -/
structure Project.Owns (p : Project) (file : Path) : Prop where
  notInstalled : file.isInstalled = false
  inside : file.startsWith p.root = true

/-- The remote registry that stands for a file. -/
def Project.urlOf? (p : Project) (file : Path) : Option String :=
  p.config.registryUrl? (Path.baseName file.fileNameShown)

/-! ## What becomes of a resolved statement -/

section Outcome

variable {p : Project} {specifier : String} {importer file file' : Path} {file? : Option Path}

theorem Project.Owns.of_components (h : p.Owns file) (hkey : file.components = file'.components) :
    p.Owns file' := by
  obtain ⟨hinstalled, hinside⟩ := h
  unfold Path.isInstalled at hinstalled
  unfold Path.startsWith at hinside
  rw [hkey] at hinstalled hinside
  exact ⟨hinstalled, hinside⟩

theorem Project.owns_congr (hkey : file.components = file'.components) : p.Owns file ↔ p.Owns file' :=
  ⟨fun h => h.of_components hkey, fun h => h.of_components hkey.symm⟩

theorem Project.urlOf?_congr (hkey : file.components = file'.components) :
    p.urlOf? file = p.urlOf? file' := by
  unfold Project.urlOf?
  rw [Path.fileNameShown_of_components hkey]

/-- A file of the project is inlined, unless a remote registry stands for it. -/
theorem outcome_of_owns (h : p.Owns file) :
    outcome p specifier importer (some file) =
      .ok ((p.urlOf? file).elim (.inlined file) .registry) := by
  have hnot : ¬ file.isInstalled = true := by simp [h.notInstalled]
  unfold Project.urlOf?
  simp only [outcome]
  rw [if_neg hnot, if_pos h.inside]
  cases p.config.registryUrl? (Path.baseName file.fileNameShown) <;> rfl

/-- Any other file is left to others. -/
theorem outcome_of_not_owns (specifier : String) (importer : Path) (h : ¬ p.Owns file) :
    outcome p specifier importer (some file) = .ok .external ∨
      outcome p specifier importer (some file) = .ok .workspace := by
  simp only [outcome]
  by_cases hinstalled : file.isInstalled = true
  · rw [if_pos hinstalled]
    exact Or.inl rfl
  · have hinside : ¬ file.startsWith p.root = true := fun hinside =>
      h ⟨by simpa using hinstalled, hinside⟩
    rw [if_neg hinstalled, if_neg hinside]
    split_ifs
    · exact Or.inr rfl
    · exact Or.inl rfl

/-- Only what was resolved to a file of the project is inlined. -/
theorem of_outcome_inlined (h : outcome p specifier importer file? = .ok (.inlined file)) :
    file? = some file ∧ p.Owns file ∧ p.urlOf? file = none := by
  obtain ⟨hfile, hinstalled, hinside, hurl⟩ := outcome_eq_inlined_iff.mp h
  exact ⟨hfile, ⟨hinstalled, hinside⟩, hurl⟩

/-- And only what was resolved to such a file is redirected. -/
theorem of_outcome_registry {url : String}
    (h : outcome p specifier importer file? = .ok (.registry url)) :
    ∃ file, file? = some file ∧ p.Owns file ∧ p.urlOf? file = some url := by
  cases file? with
  | none =>
    simp only [outcome] at h
    split_ifs at h
    cases h
  | some file =>
    by_cases howns : p.Owns file
    · rw [outcome_of_owns howns] at h
      cases hurl : p.urlOf? file with
      | none => rw [hurl] at h; cases h
      | some url' => rw [hurl] at h; cases h; exact ⟨file, rfl, howns, hurl⟩
    · rcases outcome_of_not_owns specifier importer howns with hout | hout
      · rw [hout] at h; cases h
      · rw [hout] at h; cases h

/-- The same becomes of two import statements, as far as it shows in a manifest. -/
inductive SameFate : Except Failure Outcome → Except Failure Outcome → Prop where
  | inlined {file file' : Path} : file.components = file'.components →
    SameFate (.ok (.inlined file)) (.ok (.inlined file'))
  | registry (url : String) : SameFate (.ok (.registry url)) (.ok (.registry url))
  | left {found found' : Outcome} : found ∈ [.external, .workspace] →
    found' ∈ [.external, .workspace] → SameFate (.ok found) (.ok found')

/-- The file decides, by its components. -/
theorem sameFate_outcome {specifier' : String} {importer' : Path}
    (hkey : file.components = file'.components) :
    SameFate (outcome p specifier importer (some file))
      (outcome p specifier' importer' (some file')) := by
  by_cases howns : p.Owns file
  · rw [outcome_of_owns howns, outcome_of_owns (howns.of_components hkey), Project.urlOf?_congr hkey]
    cases p.urlOf? file' with
    | none => exact .inlined hkey
    | some url => exact .registry url
  · have howns' : ¬ p.Owns file' := fun h => howns ((Project.owns_congr hkey).mpr h)
    rcases outcome_of_not_owns specifier importer howns with h | h <;>
      rcases outcome_of_not_owns specifier' importer' howns' with h' | h' <;>
      rw [h, h'] <;> exact .left (by simp) (by simp)

end Outcome

/-! ## Notes and resolutions -/

section Resolutions

variable {p : Project} {c : Cache} {es : List Event} {m : Met} {r : Resolution}

theorem mem_mets : m ∈ mets es ↔ Event.met m ∈ es := by
  unfold mets
  rw [List.mem_filterMap]
  constructor
  · rintro ⟨e, he, hm⟩
    cases e with
    | entered file found => cases hm
    | met m' => cases hm; exact he
  · intro he
    exact ⟨.met m, he, rfl⟩

theorem resolutions_met (m : Met) :
    resolutions p c (.met m :: es) =
      ⟨m, (Resolver.resolve p.disk (Cache.lookups p.disk) p.resolver m.reference.specifier m.importer
        c).1⟩ :: resolutions p (resolveImport p m.reference.specifier m.importer c).2 es := by
  have hrun : ∀ calls, (Resolver.resolveAll p.disk (Cache.lookups p.disk) p.resolver
      (m.call :: calls) c).1 =
        (Resolver.resolve p.disk (Cache.lookups p.disk) p.resolver m.reference.specifier m.importer
          c).1 :: (Resolver.resolveAll p.disk (Cache.lookups p.disk) p.resolver calls
            (resolveImport p m.reference.specifier m.importer c).2).1 := by
    intro calls
    unfold Resolver.resolveAll
    rw [List.mapM_cons]
    rfl
  have hmets : mets (.met m :: es) = m :: mets es := rfl
  unfold resolutions
  rw [hmets, List.map_cons, hrun, List.zipWith_cons_cons]

/-- There is a resolution for each import statement, in the order in which they were met. -/
theorem map_met_resolutions (p : Project) (c : Cache) (es : List Event) :
    (resolutions p c es).map Resolution.met = mets es := by
  induction es generalizing c with
  | nil => rfl
  | cons e es ih =>
    cases e with
    | entered file found => exact ih c
    | met m =>
      rw [resolutions_met, List.map_cons, ih]
      rfl

theorem met_of_mem_resolutions (h : r ∈ resolutions p c es) : Event.met r.met ∈ es := by
  rw [← mem_mets, ← map_met_resolutions p c es]
  exact List.mem_map_of_mem h

theorem exists_resolution (p : Project) (c : Cache) (h : Event.met m ∈ es) :
    ∃ r ∈ resolutions p c es, r.met = m := by
  rw [← mem_mets, ← map_met_resolutions p c es] at h
  exact List.mem_map.mp h

/-- What becomes of an import statement is decided by the file that it is resolved to. -/
theorem Traversal.answer_eq {seen : List FileKey} {todo : List Pending} (h : Traversal p seen c todo es)
    (hr : r ∈ resolutions p c es) :
    r.met.answer = outcome p r.met.reference.specifier r.met.importer r.file? := by
  induction h with
  | done => cases hr
  | again _ _ ih => exact ih hr
  | enter _ _ ih => exact ih hr
  | @meet seen c c' m todo es hresolve _ ih =>
    have hanswer : m.answer = (resolveImport p m.reference.specifier m.importer c).1 := by rw [hresolve]
    rw [resolutions_met, hresolve] at hr
    rcases List.mem_cons.mp hr with rfl | hr
    · exact hanswer
    · exact ih hr

end Resolutions

/-! ## With and without a memory -/

/-- What the import statements of notes ask the resolver. -/
def calls (es : List Event) : List Resolver.Call := (mets es).map Met.call

/-- The files that the resolver is asked for in the course of a walk, as they are spelled. -/
def Start.asked (w : Start) : List Path :=
  Resolver.asked w.project.disk w.project.resolver (calls w.survey.events)

/-- The file that a specifier names in the directory of its importer, found without a memory. -/
def Project.target? (p : Project) (m : Met) : Option Path :=
  Resolver.resolve p.disk (Lookups.direct p.disk) p.resolver m.reference.specifier m.importer

section Memory

variable {p : Project} {paths : List Path} {questions : List Resolver.Call}

/-- A question that was foreseen is answered as the disk answers it, whatever is remembered. -/
theorem resolveImport_eq {c : Cache} (hs : Resolver.SpelledAsFiles p.disk paths)
    (hsub : Resolver.asked p.disk p.resolver questions ⊆ paths)
    (hknows : Resolver.Knows p.disk paths c) {m : Met} (hm : m.call ∈ questions) :
    (resolveImport p m.reference.specifier m.importer c).1 =
        outcome p m.reference.specifier m.importer (p.target? m) ∧
      Resolver.Knows p.disk paths (resolveImport p m.reference.specifier m.importer c).2 := by
  obtain ⟨hanswer, hafter⟩ := hknows.resolve hs hsub hm
  exact ⟨congrArg (outcome p m.reference.specifier m.importer) hanswer, hafter⟩

theorem file?_of_mem_resolutions {c : Cache} {es : List Event}
    (hs : Resolver.SpelledAsFiles p.disk paths)
    (hsub : Resolver.asked p.disk p.resolver questions ⊆ paths)
    (hknows : Resolver.Knows p.disk paths c) (hes : calls es ⊆ questions) {r : Resolution}
    (hr : r ∈ resolutions p c es) : r.file? = p.target? r.met := by
  induction es generalizing c with
  | nil => cases hr
  | cons e es ih =>
    cases e with
    | entered file found => exact ih hknows hes hr
    | met m =>
      have hcalls : calls (.met m :: es) = m.call :: calls es := rfl
      rw [hcalls, List.cons_subset] at hes
      obtain ⟨hanswer, hafter⟩ := hknows.resolve hs hsub hes.1
      rw [resolutions_met] at hr
      rcases List.mem_cons.mp hr with rfl | hr
      · exact hanswer
      · exact ih hafter hes.2 hr

end Memory

section Whole

variable {w : Start} {r r' : Resolution}

/-- In a prepared walk what becomes of an import statement is decided by its file. -/
theorem Start.answer_eq (h : Loadable w.project w.entry) (hr : r ∈ w.resolutions) :
    r.met.answer = outcome w.project r.met.reference.specifier r.met.importer r.file? :=
  (w.survey_traversal h).answer_eq hr

/-- With proper spellings each import statement is resolved as it would be without a memory. -/
theorem Start.file?_eq (hs : Resolver.SpelledAsFiles w.project.disk w.asked)
    (hr : r ∈ w.resolutions) : r.file? = w.project.target? r.met :=
  file?_of_mem_resolutions hs (List.Subset.refl _) (Resolver.knows_empty _ _)
    (List.Subset.refl _) hr

/-- Then a specifier names one file in all of a directory. -/
theorem Start.file?_eq_of_directory (hs : Resolver.SpelledAsFiles w.project.disk w.asked)
    (hr : r ∈ w.resolutions) (hr' : r' ∈ w.resolutions) {dir : Path}
    (hdir : r.met.importer.parent? = some dir) (hdir' : r'.met.importer.parent? = some dir)
    (hname : r.met.reference.specifier = r'.met.reference.specifier) : r.file? = r'.file? := by
  rw [w.file?_eq hs hr, w.file?_eq hs hr']
  unfold Project.target? Resolver.resolve
  simp only [Resolver.find, hname, hdir, hdir', Option.getD_some]

end Whole

end ComponentRegistry.Walk
