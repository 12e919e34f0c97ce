import ComponentRegistry.Proofs.UniqueList
import ComponentRegistry.Proofs.Walk.Success

/-!
# What a manifest holds

The manifest of a walk that succeeds says what its survey notes, no more and no less
(`generate_closure`): a record for each file that the entry reaches, in depth-first order of first
visits, and the packages and remote registries of the import statements in the order they are met.
-/

namespace ComponentRegistry.Walk

/-- The record of a file that was taken up. -/
def Event.recorded? (p : Project) : Event → Option RegistryFile
  | .entered file (.ok loaded) => some ⟨recordPath p file, loaded.summary.text, loaded.type⟩
  | _ => none

/-- The specifier of an import statement that leaves the project. -/
def Event.package? : Event → Option String
  | .met ⟨_, reference, .ok .external⟩ => some reference.specifier
  | _ => none

/-- The address of an import statement that a remote registry answers. -/
def Event.url? : Event → Option String
  | .met ⟨_, _, .ok (.registry url)⟩ => some url
  | _ => none

/-! ## Drafts -/

section Note

variable (p : Project) (d : Draft) (e : Event)

/-- Each event adds at most one record, one package and one address. -/
theorem note_eq : Event.note p d e = { d with
    type := d.type.or ((e.recorded? p).map RegistryFile.type)
    files := d.files ++ (e.recorded? p).toList
    dependencies := d.dependencies.insert? e.package?
    registryDependencies := d.registryDependencies.insert? e.url? } := by
  rcases e with ⟨file, f | loaded⟩ | ⟨importer, reference, f | found⟩
  · simp [Event.note, Event.recorded?, Event.package?, Event.url?, UniqueList.insert?]
  · simp [Event.note, Event.recorded?, Event.package?, Event.url?, UniqueList.insert?, record,
      Draft.setTypeOnce, Draft.addFile]
  · simp [Event.note, Event.recorded?, Event.package?, Event.url?, UniqueList.insert?]
  · cases found <;> simp [Event.note, Event.recorded?, Event.package?, Event.url?,
      UniqueList.insert?, Draft.addDependency, Draft.addRegistryDependency]

end Note

/-- A draft says what the notes say. -/
structure Gathers (p : Project) (name : String) (es : List Event) (d : Draft) : Prop where
  name : d.name = name
  type : d.type = d.files.head?.map RegistryFile.type
  files : d.files = es.filterMap (Event.recorded? p)
  dependencies : d.dependencies.Holds (es.filterMap Event.package?)
  devDependencies : d.devDependencies = .empty
  registryDependencies : d.registryDependencies.Holds (es.filterMap Event.url?)

section Gathers

variable {p : Project} {name : String} {es : List Event} {d : Draft}

theorem gathers_nil (p : Project) (name : String) : Gathers p name [] (.start name) where
  name := rfl
  type := rfl
  files := rfl
  dependencies := UniqueList.holds_empty
  devDependencies := rfl
  registryDependencies := UniqueList.holds_empty

theorem filterMap_concat {α β : Type} (f : α → Option β) (as : List α) (a : α) :
    (as ++ [a]).filterMap f = as.filterMap f ++ (f a).toList := by
  rw [List.filterMap_append]
  cases h : f a with
  | none => simp [h]
  | some b => simp [h]

theorem Gathers.note (h : Gathers p name es d) (e : Event) :
    Gathers p name (es ++ [e]) (Event.note p d e) := by
  rw [note_eq]
  refine ⟨h.name, ?_, ?_, ?_, h.devDependencies, ?_⟩
  · show d.type.or _ = (d.files ++ _).head?.map RegistryFile.type
    rw [h.type]
    cases d.files with
    | nil => cases e.recorded? p <;> rfl
    | cons f rest => rfl
  · rw [filterMap_concat, ← h.files]
  · rw [filterMap_concat]
    exact h.dependencies.insert? _
  · rw [filterMap_concat]
    exact h.registryDependencies.insert? _

theorem gathers_foldl (p : Project) (name : String) (es : List Event) :
    Gathers p name es (es.foldl (Event.note p) (.start name)) := by
  induction es using List.reverseRecOn with
  | nil => exact gathers_nil p name
  | append_singleton es e ih =>
    rw [List.foldl_append]
    exact ih.note e

end Gathers

/-! ## Records -/

/-- The record tells where the source is, what stands in it, and what it is for. -/
structure Records (p : Project) (source : Path) (f : RegistryFile) : Prop where
  path : f.path = recordPath p source
  content : p.disk.readText source = .ok f.content
  type : ∃ summary, SourceSummary.ofFile p.disk source = .ok summary ∧
    Classification.classify source p.root (some summary) = .ok f.type

/-- All that was taken up could be loaded. -/
def AllLoaded (p : Project) (es : List Event) : Prop :=
  ∀ file found, Event.entered file found ∈ es → ∃ loaded, found = .ok loaded ∧
    loadFile p file = .ok loaded

section Records

variable {p : Project} {es : List Event}

theorem records_of_allLoaded (h : AllLoaded p es) :
    List.Forall₂ (Records p) (entries es) (es.filterMap (Event.recorded? p)) := by
  induction es with
  | nil => exact .nil
  | cons e es ih =>
    have hrest := ih fun file found he => h file found (List.mem_cons_of_mem e he)
    cases e with
    | met m => exact hrest
    | entered file found =>
      obtain ⟨loaded, rfl, hload⟩ := h file found (List.mem_cons_self ..)
      obtain ⟨hsum, htype⟩ := of_loadFile hload
      exact .cons ⟨rfl, readText_of_loadFile hload, loaded.summary, hsum, htype⟩ hrest

theorem loadedFiles_of_allLoaded (h : AllLoaded p es) : loadedFiles es = entries es := by
  induction es with
  | nil => rfl
  | cons e es ih =>
    have hrest := ih fun file found he => h file found (List.mem_cons_of_mem e he)
    cases e with
    | met m => exact hrest
    | entered file found =>
      obtain ⟨loaded, rfl, -⟩ := h file found (List.mem_cons_self ..)
      exact congrArg (file :: ·) hrest

/-- A traversal from a file begins with it. -/
theorem Traversal.head?_entries {file : Path} {c : Cache}
    (h : Traversal p [] c [.file file] es) : (entries es).head? = some file := by
  cases h with
  | again hseen _ => cases hseen
  | enter _ _ => rfl

end Records

/-! ## Manifests -/

/-- The manifest is what the depth-first traversal from the entry comes across. -/
structure Closure (w : Start) (es : List Event) (m : Manifest) : Prop where
  traversal : Traversal w.project [] .empty [.file w.entry] es
  /-- One record for each source, in the order of first visits. -/
  files : List.Forall₂ (Records w.project) (entries es) m.files
  first : (entries es).head? = some w.entry
  canonical : ∀ source ∈ entries es, ∃ path, w.project.disk.canonical path = .ok source
  once : (enteredKeys es).Nodup
  reached : ∀ k, k ∈ enteredKeys es ↔ Reaches es w.entry.components k
  name : m.name = w.name
  type : m.type = m.files.head?.map RegistryFile.type
  dependencies : m.dependencies = (es.filterMap Event.package?).eraseDups
  devDependencies : m.devDependencies = []
  registryDependencies : m.registryDependencies = (es.filterMap Event.url?).eraseDups

/-- All that a walk took up could be loaded, if it succeeds. -/
theorem allLoaded_of_run {w : Start} {m : Manifest} (h : w.run = .ok m) :
    AllLoaded w.project w.survey.events := by
  intro file found he
  obtain ⟨hfound, -⟩ := w.survey_answered he
  cases found with
  | ok loaded => exact ⟨loaded, rfl, hfound.symm⟩
  | error f => exact absurd (fine_of_run h he) (by simp [Event.failure?])

/-- The manifest that notes amount to. -/
def Start.manifestOf (w : Start) (es : List Event) : Manifest :=
  (es.foldl (Event.note w.project) (.start w.name)).finish

/-- The manifest of a walk is what its notes amount to. -/
theorem Start.manifestOf_survey {w : Start} {m : Manifest} (h : w.run = .ok m) :
    w.manifestOf w.survey.events = m := by
  obtain ⟨s, halong, -, -, rfl⟩ := Start.along_of_run h
  unfold Start.manifestOf
  rw [← halong.draft]

/-- A walk that succeeds has the closure of its entry for a manifest. -/
theorem closure_of_run {w : Start} {m : Manifest} (hl : Loadable w.project w.entry)
    (h : w.run = .ok m) : Closure w w.survey.events m := by
  have hgathers := gathers_foldl w.project w.name w.survey.events
  have hloaded := allLoaded_of_run h
  have htraversal := w.survey_traversal hl
  rw [← Start.manifestOf_survey h]
  exact {
    traversal := htraversal
    files := by
      have hfiles : (w.manifestOf w.survey.events).files =
          w.survey.events.filterMap (Event.recorded? w.project) := hgathers.files
      rw [hfiles]
      exact records_of_allLoaded hloaded
    first := htraversal.head?_entries
    canonical := by
      rw [← loadedFiles_of_allLoaded hloaded]
      exact (w.survey_room hl).canonical
    once := w.survey_adds.orderly.once
    reached := fun k => w.mem_enteredKeys_iff hl
    name := hgathers.name
    type := hgathers.type
    dependencies := hgathers.dependencies.items
    devDependencies := congrArg UniqueList.items hgathers.devDependencies
    registryDependencies := hgathers.registryDependencies.items }

/-- A file that was taken up is the entry, or an import statement has inlined it. -/
theorem Closure.inlined_of_mem {w : Start} {es : List Event} {m : Manifest} (h : Closure w es m)
    {source : Path} (hsource : source ∈ entries es) (hne : source ≠ w.entry) : ∃ met file, Event.met met ∈ es ∧ met.answer = .ok (.inlined file) ∧
      file.components = source.components := by
  have hreached : Reaches es w.entry.components source.components :=
    (h.reached _).mp (List.mem_map_of_mem hsource)
  rcases Relation.ReflTransGen.cases_tail hreached with heq | ⟨k, -, hlast⟩
  · have hentry : w.entry ∈ entries es := List.mem_of_mem_head? h.first
    exact absurd (List.inj_on_of_nodup_map h.once hsource hentry heq) hne
  · obtain ⟨met, hmet, file, htarget, hkey⟩ := hlast
    exact ⟨met, file, (mem_statements.mp hmet).1, Met.target?_eq_some_iff.mp htarget, hkey⟩

/-- The walk behind a manifest. -/
theorem walk_of_generate {d : Disk} {config : Config} {entry : Path} {m : Manifest}
    (h : generate d config entry = .ok m) : ∃ w, prepare d config entry = .ok w ∧
      Loadable w.project w.entry ∧ w.run = .ok m ∧ Closure w w.survey.events m := by
  obtain ⟨-, w, hw, hrun⟩ := generate_eq_ok_iff.mp h
  have hl := loadable_of_prepare hw
  exact ⟨w, hw, hl, hrun, closure_of_run hl hrun⟩

/-- **A manifest is the depth-first closure of its entry.** -/
theorem generate_closure {d : Disk} {config : Config} {entry : Path} {m : Manifest}
    (h : generate d config entry = .ok m) :
    ∃ w, prepare d config entry = .ok w ∧ w.project.disk = d ∧ d.canonical entry = .ok w.entry ∧
      Closure w w.survey.events m := by
  obtain ⟨-, w, hw, hrun⟩ := generate_eq_ok_iff.mp h
  obtain ⟨hdisk, -, hentry⟩ := of_prepare hw
  exact ⟨w, hw, hdisk, hentry, closure_of_run (loadable_of_prepare hw) hrun⟩

/-- The manifest records the files that were entered, with what stood in them. -/
theorem records_of_generate {d : Disk} {config : Config} {entry : Path} {m : Manifest}
    (h : generate d config entry = .ok m) :
    ∃ w, prepare d config entry = .ok w ∧ w.project.disk = d ∧
      List.Forall₂ (Records w.project) (entries w.survey.events) m.files := by
  obtain ⟨w, hw, -, -, hclosure⟩ := walk_of_generate h
  exact ⟨w, hw, (of_prepare hw).1, hclosure.files⟩

/-- A component with a package, a module that a remote registry stands for, and a stylesheet. -/
def card : Disk := .ofTexts [
  ("p/package.json", "\x7b\x7d"),
  ("p/card.js", "import 'react';\nimport './button';\nimport './text';"),
  ("p/button.js", ""),
  ("p/text.js", "import './button';\nimport 'react';\nimport './card.css';"),
  ("p/card.css", "")]

def cardSettings : Config :=
  { Config.unset with registryDependencies := some (.ofList [("button", "r/button.json")]) }

theorem card_closure : ∃ m w, generate card cardSettings (Path.ofString "/p/card.js") = .ok m ∧
    prepare card cardSettings (Path.ofString "/p/card.js") = .ok w ∧
    Closure w w.survey.events m := by
  have hgen : (generate card cardSettings (Path.ofString "/p/card.js")).isOk = true := by
    decide +kernel
  obtain ⟨m, hm⟩ := exists_ok hgen
  obtain ⟨w, hw, -, -, hclosure⟩ := generate_closure hm
  exact ⟨m, w, hm, hw, hclosure⟩

end ComponentRegistry.Walk
