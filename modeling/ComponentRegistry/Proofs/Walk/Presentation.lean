import ComponentRegistry.Proofs.Walk.Mappings

/-!
# Settings that a walk does not see

Of the settings a walk asks only for the remote registries.  Where files are recorded is written into
the records and never read back, not even for a cycle that is reported.  So walks whose settings
agree on the registries go side by side (`process_alike`), and they fail alike or come to manifests
that differ in the paths of their records at most (`generate_alike`).
-/

namespace ComponentRegistry

/-- Two results that are the same failure, or are both there and related. -/
inductive Alike {α : Type} (R : α → α → Prop) : Except Failure α → Except Failure α → Prop where
  | error (f : Failure) : Alike R (.error f) (.error f)
  | ok {a b : α} : R a b → Alike R (.ok a) (.ok b)

/-! ## Records without paths -/

def RegistryFile.unplaced (f : RegistryFile) : RegistryFile := { f with path := "" }

def Draft.unplaced (d : Draft) : Draft := { d with files := d.files.map RegistryFile.unplaced }

/-- The manifests differ in the paths of their records at most. -/
structure Manifest.SameButPaths (m m' : Manifest) : Prop where
  name : m'.name = m.name
  type : m'.type = m.type
  dependencies : m'.dependencies = m.dependencies
  devDependencies : m'.devDependencies = m.devDependencies
  registryDependencies : m'.registryDependencies = m.registryDependencies
  files : List.Forall₂ (fun f f' : RegistryFile => f'.content = f.content ∧ f'.type = f.type)
    m.files m'.files

theorem Draft.sameButPaths_finish {d d' : Draft} (h : d'.unplaced = d.unplaced) :
    d.finish.SameButPaths d'.finish where
  name := congrArg (fun e => e.finish.name) h
  type := congrArg (fun e => e.finish.type) h
  dependencies := congrArg (fun e => e.finish.dependencies) h
  devDependencies := congrArg (fun e => e.finish.devDependencies) h
  registryDependencies := congrArg (fun e => e.finish.registryDependencies) h
  files := by
    have hfiles : d'.files.map RegistryFile.unplaced = d.files.map RegistryFile.unplaced :=
      congrArg Draft.files h
    have hrecords : List.Forall₂ Eq (d.files.map RegistryFile.unplaced)
        (d'.files.map RegistryFile.unplaced) := by
      rw [List.forall₂_eq_eq_eq, hfiles]
    rw [List.forall₂_map_left_iff, List.forall₂_map_right_iff] at hrecords
    refine hrecords.imp fun f f' hsame => ?_
    exact ⟨(congrArg RegistryFile.content hsame).symm, (congrArg RegistryFile.type hsame).symm⟩

namespace Walk

/-! ## Walks side by side -/

/-- The states differ in the paths of the records at most. -/
structure State.SameButPaths (s s' : State) : Prop where
  visited : s'.visited = s.visited
  active : s'.active = s.active
  processed : s'.processed = s.processed
  cache : s'.cache = s.cache
  draft : s'.draft.unplaced = s.draft.unplaced

section Alike

variable {p : Project} {c c' : Config} {s s' : State}

/-- To follow an import takes no other setting than the remote registries. -/
theorem resolveImport_congr (h : c'.registryDependencies = c.registryDependencies) :
    resolveImport (p.under c') = resolveImport (p.under c) := by
  have hurl : c'.registryUrl? = c.registryUrl? := by
    unfold Config.registryUrl?
    rw [h]
  have houtcome : outcome (p.under c') = outcome (p.under c) := by
    funext specifier importer file?
    cases file? with
    | none => rfl
    | some file =>
      simp only [outcome, Project.under, hurl]
      rfl
  funext specifier importer cache
  unfold resolveImport
  rw [houtcome]
  rfl

/-- A file is recorded with the same content and type. -/
theorem unplaced_record (c c' : Config) (file : Path) (l : Loaded) {d d' : Draft}
    (h : d'.unplaced = d.unplaced) :
    (record (p.under c') file l d').unplaced = (record (p.under c) file l d).unplaced := by
  have hrecord : ∀ (q : Project) (e : Draft), (record q file l e).unplaced =
      (e.unplaced.setTypeOnce l.type).addFile ⟨"", l.summary.text, l.type⟩ := by
    intro q e
    simp [record, Draft.unplaced, Draft.setTypeOnce, Draft.addFile, RegistryFile.unplaced]
  rw [hrecord, hrecord, h]

theorem takeImports_alike (h : c'.registryDependencies = c.registryDependencies)
    {follow follow' : Path → State → Except Failure State}
    (hfollow : ∀ file s s', s.SameButPaths s' →
      Alike State.SameButPaths (follow file s) (follow' file s'))
    (importer : Path) (refs : List Script.Reference) (hs : s.SameButPaths s') :
    Alike State.SameButPaths (takeImports (p.under c) follow importer refs s)
      (takeImports (p.under c') follow' importer refs s') := by
  induction refs generalizing s s' with
  | nil => exact .ok hs
  | cons r more ih =>
    simp only [takeImports, resolveImport_congr h, hs.cache]
    cases resolveImport (p.under c) r.specifier importer s.cache with
    | mk answer cache =>
      have hs₁ : State.SameButPaths { s with cache := cache } { s' with cache := cache } :=
        { hs with cache := rfl }
      cases answer with
      | error f => exact .error f
      | ok found =>
        cases found with
        | inlined file =>
          simp only
          have hnext := hfollow file _ _ hs₁
          generalize follow file _ = r, follow' file _ = r' at hnext ⊢
          cases hnext with
          | error f => exact .error f
          | ok hs₂ => exact ih hs₂
        | registry url =>
          exact ih { hs₁ with draft := congrArg (fun d => d.addRegistryDependency url) hs.draft }
        | external =>
          exact ih { hs₁ with draft := congrArg (fun d => d.addDependency r.specifier) hs.draft }
        | workspace => exact ih hs₁

/-- **Walks whose settings agree on the remote registries go side by side**: they enter the same files
in the same order and end alike. -/
theorem process_alike (h : c'.registryDependencies = c.registryDependencies) (levels : Nat)
    (file : Path) (hs : s.SameButPaths s') :
    Alike State.SameButPaths (process (p.under c) levels file s)
      (process (p.under c') levels file s') := by
  induction levels generalizing file s s' with
  | zero =>
    unfold process
    rw [hs.active]
    exact .error _
  | succ levels ih =>
    simp only [process, hs.active, hs.visited, hs.processed]
    split_ifs
    · exact .ok hs
    · exact .error _
    · exact .ok hs
    · -- reading a file does not depend on the settings
      have hload : loadFile (p.under c') file = loadFile (p.under c) file := rfl
      rw [hload]
      cases loadFile (p.under c) file with
      | error f => exact .error f
      | ok loaded =>
        have hs₁ : State.SameButPaths
            { s.enter file with draft := record (p.under c) file loaded (s.enter file).draft }
            { s'.enter file with draft := record (p.under c') file loaded (s'.enter file).draft } :=
          { visited := congrArg (file :: ·) hs.visited
            active := congrArg (· ++ [file]) hs.active
            processed := hs.processed
            cache := hs.cache
            draft := unplaced_record c c' file loaded hs.draft }
        have himports := takeImports_alike (p := p) h (fun file _ _ hs => ih file hs) file
          loaded.summary.imports hs₁
        simp only
        generalize takeImports (p.under c) _ _ _ _ = r, takeImports (p.under c') _ _ _ _ = r'
          at himports ⊢
        cases himports with
        | error f => exact .error f
        | ok hs₂ =>
          exact .ok { hs₂ with
            active := congrArg List.dropLast hs₂.active
            processed := congrArg (file :: ·) hs₂.processed }

end Alike

/-! ## Manifests -/

/-- The settings do not count for how a walk begins. -/
theorem prepare_eq_map (d : Disk) (c c' : Config) (entry : Path) :
    prepare d c' entry = (prepare d c entry).map fun w => w.under c' := by
  unfold prepare
  cases d.canonical entry with
  | error cause => rfl
  | ok file =>
    simp only
    cases projectRoot d (file.parent?.getD file) <;> rfl

/-- So a walk comes to the same but for the paths of the records. -/
theorem run_alike (w : Start) {c c' : Config} (h : c'.registryDependencies = c.registryDependencies) :
    Alike Manifest.SameButPaths (w.under c).run (w.under c').run := by
  have hstart : (State.start w.name).SameButPaths (.start w.name) := ⟨rfl, rfl, rfl, rfl, rfl⟩
  have hwalks := process_alike (p := w.project) h (levels w.project.disk) w.entry hstart
  unfold Start.run Start.under
  change Alike _ ((process (w.project.under c) (levels w.project.disk) w.entry (.start w.name)).map _)
    ((process (w.project.under c') (levels w.project.disk) w.entry (.start w.name)).map _)
  generalize process (w.project.under c) _ _ _ = r, process (w.project.under c') _ _ _ = r'
    at hwalks ⊢
  cases hwalks with
  | error f => exact .error f
  | ok hs => exact .ok (Draft.sameButPaths_finish hs.draft)

/-- **Settings of presentation do not count for a walk.**  Under settings that agree on the remote
registries it fails alike, or it comes to the same but for the paths of the records. -/
theorem generate_alike (d : Disk) (entry : Path) {c c' : Config}
    (h : c'.registryDependencies = c.registryDependencies) :
    Alike Manifest.SameButPaths (generate d c entry) (generate d c' entry) := by
  unfold generate
  by_cases hentry : d.has entry = true
  · rw [if_neg (by simp [hentry]), if_neg (by simp [hentry]), prepare_eq_map d c c' entry]
    cases hw : prepare d c entry with
    | error f => exact .error _
    | ok w =>
      have hunder : w.under c = w := by
        obtain ⟨-, rfl, -⟩ := of_prepare hw
        rfl
      have hruns := run_alike w h
      rw [hunder] at hruns
      simp only [Except.map, bind, Except.bind]
      generalize w.run = r, (w.under c').run = r' at hruns ⊢
      cases hruns with
      | error f => exact .error _
      | ok hm => exact .ok hm
  · rw [if_pos (by simpa using hentry), if_pos (by simpa using hentry)]
    exact .error _

/-- A component with a module and a package. -/
def label : Disk := .ofTexts [
  ("p/package.json", "\x7b\x7d"),
  ("p/label.js", "import './text';\nimport 'react';"),
  ("p/text.js", "")]

/-- Everything of presentation is set. -/
def presented : Config where
  name := some "acme"
  version := some "2.0.0"
  registryDependencies := none
  outputDir := some (Path.ofString "public/r")
  basePathField := some "components/ui"

/-- The records of the component stand under other paths then, and nothing else changes. -/
theorem label_alike :
    presented.registryDependencies = Config.unset.registryDependencies ∧
    Alike Manifest.SameButPaths (generate label .unset (Path.ofString "/p/label.js"))
      (generate label presented (Path.ofString "/p/label.js")) ∧
    generate label .unset (Path.ofString "/p/label.js") =
      .ok ⟨"label", some .lib, ["react"], [], [],
        [⟨"label.js", "import './text';\nimport 'react';", .lib⟩, ⟨"text.js", "", .lib⟩]⟩ ∧
    generate label presented (Path.ofString "/p/label.js") =
      .ok ⟨"label", some .lib, ["react"], [], [],
        [⟨"components/ui/label.js", "import './text';\nimport 'react';", .lib⟩,
          ⟨"components/ui/text.js", "", .lib⟩]⟩ :=
  ⟨rfl, generate_alike label (Path.ofString "/p/label.js") rfl, by decide +kernel, by decide +kernel⟩

end Walk

end ComponentRegistry
