import ComponentRegistry.Proofs.Walk.Success

/-!
# Cycles that are reported

Nothing but a walk that comes back to one of its files is reported as a cycle: what loading,
resolving and preparing refuse has other causes (`of_loadFile_error`, `of_resolveImport_error`,
`of_prepare_error`).  So the files that a report lists are a chain of import statements from the
entry to a file that is on it already (`generate_cycle`).
-/

namespace ComponentRegistry.Walk

/-! ## Other causes -/

section Causes

variable {p : Project} {file : Path} {f : Failure}

theorem of_classify_error {root : Path} {summary : Option SourceSummary}
    (h : Classification.classify file root summary = .error f) :
    ∃ reason, f = .classification file reason := by
  unfold Classification.classify at h
  cases hname : Classification.nameOf file with
  | error g =>
    rw [hname] at h
    cases h
    unfold Classification.nameOf at hname
    split at hname
    · cases hname; exact ⟨_, rfl⟩
    · split at hname
      · cases hname; exact ⟨_, rfl⟩
      · split at hname
        · cases hname
        · split at hname
          · cases hname; exact ⟨_, rfl⟩
          · cases hname
  | ok names =>
    rw [hname] at h
    simp only [bind, Except.bind, pure, Except.pure] at h
    split at h
    · cases h
    · split at h
      · cases h
      · split at h
        · cases h
        · split at h
          · split at h <;> cases h
          · cases h

/-- A file that cannot be loaded cannot be read, cannot be parsed, or has no type. -/
theorem of_loadFile_error (h : loadFile p file = .error f) :
    (∃ cause, f = .ofRead file cause) ∨ (∃ reason, f = .parse file reason) ∨
      ∃ reason, f = .classification file reason := by
  unfold loadFile at h
  cases hs : SourceSummary.ofFile p.disk file with
  | ok summary =>
    cases ht : Classification.classify file p.root (some summary) with
    | error g =>
      simp only [hs, ht, bind, Except.bind] at h
      cases h
      exact Or.inr (Or.inr (of_classify_error ht))
    | ok type =>
      simp only [hs, ht, bind, Except.bind, pure, Except.pure] at h
      cases h
  | error g =>
    rw [hs] at h
    cases h
    unfold SourceSummary.ofFile at hs
    split at hs
    · cases hs; exact Or.inl ⟨_, rfl⟩
    · unfold SourceSummary.ofText at hs
      split at hs
      · cases hs
      · split at hs
        · cases hs; exact Or.inr (Or.inl ⟨_, rfl⟩)
        · cases hs

/-- Only an import that looks local is refused, and only if nothing answers to it. -/
theorem of_resolveImport_error {specifier : String} {importer : Path} {c : Cache}
    (h : (resolveImport p specifier importer c).1 = .error f) :
    f = .unresolvedImport specifier (importer.relative p.root) := by
  change outcome p specifier importer _ = _ at h
  unfold outcome at h
  split at h
  · split at h
    · cases h; rfl
    · cases h
  · split at h
    · cases h
    · split at h
      · split at h <;> cases h
      · split at h <;> cases h

theorem of_prepare_error {d : Disk} {config : Config} {entry : Path}
    (h : prepare d config entry = .error f) : ∃ path cause, f = .ofRead path cause := by
  unfold prepare at h
  cases hc : d.canonical entry with
  | error cause => rw [hc] at h; cases h; exact ⟨_, _, rfl⟩
  | ok file =>
    cases hroot : projectRoot d (file.parent?.getD file) with
    | ok root => simp [hc, hroot, bind, Except.bind, pure, Except.pure] at h
    | error g =>
      simp only [hc, hroot, bind, Except.bind] at h
      cases h
      unfold projectRoot at hroot
      simp only at hroot
      split at hroot
      · cases hroot; exact ⟨_, _, rfl⟩
      · cases hroot

theorem rootCause_ofRead (path : Path) (cause : IoFault) :
    (Failure.ofRead path cause).rootCause = .permissionDenied path ∨
      (Failure.ofRead path cause).rootCause = .read path cause := by
  unfold Failure.ofRead
  by_cases h : cause.isDenied = true
  · rw [if_pos h]; exact Or.inl rfl
  · rw [if_neg h]; exact Or.inr rfl

end Causes

/-! ## Reports -/

/-- A report of a cycle, with the files it lists: they lead from the entry, one import statement
after the other, to a file that is listed before; up to there no file is listed twice. -/
structure Reported (w : Start) (chain : String) (files : List Path) : Prop where
  shown : chain = " -> ".intercalate (files.map fun f => (f.relative w.project.root).forwardSlashes)
  length : 2 ≤ files.length
  origin : files.head? = some w.entry
  chain : (files.map Path.components).IsChain (Inlines w.survey.events)
  once : (files.dropLast.map Path.components).Nodup
  back : ∃ last, files.getLast? = some last ∧ last.components ∈ files.dropLast.map Path.components

section Reports

variable {w : Start} {f : Failure} {chain : String}

theorem Cycle.reported {trail : List Path} {file : Path} (h : Cycle w w.survey.events trail file) :
    Reported w (cycleChain w.project trail file) (trail ++ [file]) where
  shown := rfl
  length := by
    have hpos : 0 < (trail.map Path.components).length := List.length_pos_of_mem h.back
    rw [List.length_map] at hpos
    rw [List.length_append, List.length_singleton]
    omega
  origin := by rw [List.head?_append, h.origin]; rfl
  chain := h.chain
  once := by rw [List.dropLast_concat]; exact h.once
  back := ⟨file, List.getLast?_concat .., by rw [List.dropLast_concat]; exact h.back⟩

/-- Of all faults only cycles are reported as cycles. -/
theorem Fault.reported (hload : Loadable w.project w.entry) (h : Fault w w.survey.events f)
    (hf : f.rootCause = .circularDependency chain) : ∃ files, Reported w chain files := by
  cases h with
  | @unloaded file f he =>
    rcases of_loadFile_error (w.survey_answered he).1.symm with ⟨cause, rfl⟩ | ⟨_, rfl⟩ | ⟨_, rfl⟩
    · rcases rootCause_ofRead file cause with hr | hr <;> rw [hr] at hf <;> cases hf
    · cases hf
    · cases hf
  | @refused m f hm hans =>
    obtain ⟨c, hres⟩ := (w.survey_traversal hload).resolved hm
    rw [hans] at hres
    cases of_resolveImport_error hres.symm
    cases hf
  | cycle hc =>
    cases hf
    exact ⟨_, hc.reported⟩

/-- **A cycle that is reported is a real one, and it is listed in full.** -/
theorem generate_cycle {d : Disk} {config : Config} {entry : Path}
    (h : generate d config entry = .error f) (hf : f.rootCause = .circularDependency chain) :
    ∃ w, prepare d config entry = .ok w ∧ d.canonical entry = .ok w.entry ∧
      ∃ files, Reported w chain files := by
  rcases of_generate_error h with rfl | ⟨g, rfl, hprep | ⟨w, hw, hrun⟩⟩
  · cases hf
  · obtain ⟨path, cause, rfl⟩ := of_prepare_error hprep
    change (Failure.ofRead path cause).rootCause = _ at hf
    rcases rootCause_ofRead path cause with hr | hr <;> rw [hr] at hf <;> cases hf
  · have hload := loadable_of_prepare hw
    exact ⟨w, hw, (of_prepare hw).2.2, (Start.fault_of_run hload hrun).reported hload hf⟩

/-- The entry leads to two files that import each other. -/
def lasso : Disk := .ofTexts [
  ("p/package.json", "\x7b\x7d"),
  ("p/a.js", "import './d';\nimport './b';"),
  ("p/b.js", "import './c';"),
  ("p/c.js", "import './b';"),
  ("p/d.js", "")]

theorem lasso_cycle : ∃ f w files, generate lasso .unset (Path.ofString "/p/a.js") = .error f ∧
    prepare lasso .unset (Path.ofString "/p/a.js") = .ok w ∧
    Reported w "a.js -> b.js -> c.js -> b.js" files := by
  have hgen : generate lasso .unset (Path.ofString "/p/a.js") =
      .error (.generation (Path.ofString "/p/a.js")
        (.circularDependency "a.js -> b.js -> c.js -> b.js")) := by
    decide +kernel
  obtain ⟨w, hw, -, files, hfiles⟩ := generate_cycle hgen rfl
  exact ⟨_, w, files, hgen, hw, hfiles⟩

end Reports

end ComponentRegistry.Walk
