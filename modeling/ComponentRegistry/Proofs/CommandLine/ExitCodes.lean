import ComponentRegistry.CommandLine.Run
import ComponentRegistry.Proofs.Generate.Keeping
import ComponentRegistry.Proofs.Walk.Cycles

/-!
# Exit codes

The program exits with zero if its command succeeds, and only then (`exit_code_honest`).  Warnings
have the exit code zero too, but none of them ends a command: permission is denied and packages are
invalid only within walks, and a walk tags its failures (`of_generate_error_tagged`).  What can go
wrong is said for one layer after the other, from the walk up to the command.
-/

namespace ComponentRegistry

/-! ## Tags -/

namespace Failure

/-- The failure stands behind a tag. -/
def isTagged : Failure → Bool
  | .generation _ _ => true
  | _ => false

variable {f : Failure}

/-- How grave a tagged failure is depends on its root cause alone, however many tags there are. -/
theorem severity_generation (entry : Path) (source : Failure) :
    (generation entry source).severity =
      if source.rootCause.severity = .critical then .critical else .error := by
  induction source generalizing entry with
  | generation inner source ih =>
    have hinner := ih inner
    by_cases hcritical : source.rootCause.severity = .critical
    · rw [if_pos hcritical] at hinner
      rw [severity, hinner, if_pos rfl]
      exact (if_pos hcritical).symm
    · rw [if_neg hcritical] at hinner
      rw [severity, hinner, if_neg (by decide)]
      exact (if_neg hcritical).symm
  | _ => rfl

theorem severity_generation_ne_warning (entry : Path) (source : Failure) :
    (generation entry source).severity ≠ .warning := by
  rw [severity_generation]
  split_ifs <;> decide

/-- Seen from a task every failure is critical. -/
theorem severity_inContext (task : String) (f : Failure) : (f.inContext task).severity = .critical := by
  unfold inContext
  by_cases h : f.isCritical = true
  · rw [if_pos h]
    exact eq_of_beq h
  · rw [if_neg h]
    rfl

theorem isTagged_ofRead (path : Path) (cause : IoFault) : (ofRead path cause).isTagged = false := by
  unfold ofRead
  split_ifs <;> rfl

end Failure

/-! ## Walks -/

namespace Walk

section Walks

variable {d : Disk} {config : Config} {entry : Path} {p : Project} {w : Start} {f : Failure}

theorem isTagged_of_loadFile {file : Path} (h : loadFile p file = .error f) : f.isTagged = false := by
  rcases of_loadFile_error h with ⟨cause, rfl⟩ | ⟨reason, rfl⟩ | ⟨reason, rfl⟩
  · exact Failure.isTagged_ofRead file cause
  · rfl
  · rfl

theorem Fault.isTagged (hload : Loadable w.project w.entry) (h : Fault w w.survey.events f) :
    f.isTagged = false := by
  cases h with
  | unloaded he => exact isTagged_of_loadFile (w.survey_answered he).1.symm
  | refused hm hanswer =>
    obtain ⟨c, hres⟩ := (w.survey_traversal hload).resolved hm
    rw [hanswer] at hres
    cases of_resolveImport_error hres.symm
    rfl
  | cycle _ => rfl

/-- **Failures of walks carry one tag**, unless there is no entry. -/
theorem of_generate_error_tagged (h : generate d config entry = .error f) :
    (f = .entryNotFound entry ∧ d.has entry = false) ∨
      ∃ source, f = .generation entry source ∧ source.isTagged = false := by
  rcases of_generate_error h with rfl | ⟨source, rfl, hprepare | ⟨w, hw, hrun⟩⟩
  · unfold generate at h
    split at h
    · next hhas => exact .inl ⟨rfl, by simpa using hhas⟩
    · split at h <;> cases h
  · obtain ⟨path, cause, rfl⟩ := of_prepare_error hprepare
    exact .inr ⟨_, rfl, Failure.isTagged_ofRead path cause⟩
  · have hload := loadable_of_prepare hw
    exact .inr ⟨_, rfl, (Start.fault_of_run hload hrun).isTagged hload⟩

theorem ne_warning_of_generate_error (h : generate d config entry = .error f) :
    f.severity ≠ .warning := by
  rcases of_generate_error_tagged h with ⟨rfl, -⟩ | ⟨source, rfl, -⟩
  · nofun
  · exact Failure.severity_generation_ne_warning entry source

end Walks

end Walk

/-! ## Runs -/

namespace Generate

section Runs

variable {d : Disk} {config : Config} {dir input : Path} {o : Options} {s : Setting} {t : Task}
  {m : Manifest} {schedule : Nat → List Nat} {f : Failure}

theorem of_validate_error (h : o.validate d dir = .error f) : ∃ reason, f = .invalidOption reason := by
  unfold Options.validate at h
  simp only at h
  split_ifs at h <;> cases h <;> exact ⟨_, rfl⟩

theorem of_listComponents_error (h : listComponents d input = .error f) :
    ∃ cause, f = .read input cause := by
  unfold listComponents at h
  split at h
  · cases h
    exact ⟨_, rfl⟩
  · cases h

theorem of_writeOutput_error {file : Path} {text : String}
    (h : (writeOutput d file text).1 = .error f) : ∃ cause, f = .outputWrite file cause := by
  unfold writeOutput at h
  simp only at h
  split at h
  · cases h
    exact ⟨_, rfl⟩
  · split at h
    · cases h
      exact ⟨_, rfl⟩
    · cases h

theorem of_keep_error (h : (keep s t m d).1 = .error f) :
    ∃ cause, f = .outputWrite (s.output t) cause := by
  unfold keep saveManifest at h
  split_ifs at h
  cases hwrite : writeOutput d (s.outputDir / t.outputName) m.pretty with
  | mk done after =>
    simp only [hwrite] at h
    cases done with
    | ok _ => cases h
    | error g =>
      cases h
      exact of_writeOutput_error (congrArg Prod.fst hwrite)

theorem ne_warning_of_generateOne (h : (generateOne s t d).1 = .error f) : f.severity ≠ .warning := by
  unfold generateOne at h
  split at h
  · next hwalk =>
    cases h
    exact Walk.ne_warning_of_generate_error hwalk
  · obtain ⟨cause, rfl⟩ := of_keep_error h
    nofun

theorem ne_warning_of_runFile (h : (runFile d config dir input o).result = .error f) :
    f.severity ≠ .warning := by
  unfold runFile at h
  simp only at h
  split at h
  · next hone =>
    cases h
    exact ne_warning_of_generateOne (congrArg Prod.fst hone)
  · cases h

theorem ne_warning_of_runDirectory (h : (runDirectory schedule d config dir input o).result = .error f) :
    f.severity ≠ .warning := by
  unfold runDirectory at h
  split at h
  · next hlist =>
    cases h
    obtain ⟨cause, rfl⟩ := of_listComponents_error hlist
    nofun
  · cases h

/-- **No run ends with a warning.** -/
theorem ne_warning_of_runScheduled (h : (runScheduled schedule d config dir o).result = .error f) :
    f.severity ≠ .warning := by
  unfold runScheduled at h
  split at h
  · next hvalid =>
    cases h
    obtain ⟨reason, rfl⟩ := of_validate_error hvalid
    nofun
  · simp only at h
    split_ifs at h
    · exact ne_warning_of_runDirectory h
    · exact ne_warning_of_runFile h

theorem ne_warning_of_check {r : Report} (h : r.check = .error f) : f.severity ≠ .warning := by
  unfold Report.check at h
  split_ifs at h
  cases h
  nofun

end Runs

end Generate

theorem Config.ne_warning_of_create {d : Disk} {path : Path} {f : Failure}
    (h : (Config.create d path).1 = .error f) : f.severity ≠ .warning := by
  unfold Config.create at h
  split_ifs at h
  simp only at h
  split at h
  · cases h
    nofun
  · split at h <;> cases h
    nofun

/-! ## Commands -/

namespace CommandLine

section Commands

variable {schedule : Nat → List Nat} {d : Disk} {env : Environment} {dir : Path} {a : Arguments}
  {g : GenerateArguments} {flags : Config.Flags} {c : Console} {f : Failure}

theorem ne_warning_of_runInit (h : (runInit d dir c).result = .error f) : f.severity ≠ .warning := by
  unfold runInit at h
  simp only at h
  split at h
  · next hcreate =>
    cases h
    exact Config.ne_warning_of_create (congrArg Prod.fst hcreate)
  · cases h
  · cases h

theorem result_of_load_error (h : Config.load d env dir flags = .error f) :
    (runGenerate schedule d env dir g flags c).result =
      .error (f.inContext "Failed to load configuration") := by
  rw [runGenerate, h]

theorem ne_warning_of_runGenerate (h : (runGenerate schedule d env dir g flags c).result = .error f) :
    f.severity ≠ .warning := by
  cases hload : Config.load d env dir flags with
  | error cause =>
    rw [result_of_load_error hload] at h
    cases h
    rw [Failure.severity_inContext]
    decide
  | ok config =>
    rw [runGenerate, hload] at h
    simp only at h
    split at h
    · next hrun =>
      cases h
      exact Generate.ne_warning_of_runScheduled hrun
    · exact Generate.ne_warning_of_check h

/-- **No command ends with a warning.** -/
theorem ne_warning_of_execute (h : (execute schedule d env dir a).result = .error f) :
    f.severity ≠ .warning := by
  unfold execute at h
  split at h
  · exact ne_warning_of_runInit h
  · exact ne_warning_of_runGenerate h

/-! ## Endings -/

theorem code_of_ok {e : Execution} (h : e.result = .ok ()) : e.ending.code = 0 := by
  rw [Execution.ending, h]

theorem code_of_error {e : Execution} (h : e.result = .error f) :
    e.ending.code = exitCodeOf f.severity := by
  rw [Execution.ending, h]

theorem exitCodeOf_eq_zero_iff {s : Severity} : exitCodeOf s = 0 ↔ s = .warning := by
  cases s <;> decide

theorem code_execute_eq_zero_iff :
    (execute schedule d env dir a).ending.code = 0 ↔ (execute schedule d env dir a).result = .ok () := by
  refine ⟨fun hcode => ?_, code_of_ok⟩
  cases hresult : (execute schedule d env dir a).result with
  | ok u => rfl
  | error f =>
    rw [code_of_error hresult, exitCodeOf_eq_zero_iff] at hcode
    exact absurd hcode (ne_warning_of_execute hresult)

theorem code_of_load_error (ha : a.command = .generate g)
    (h : Config.load d env dir a.flags = .error f) : (execute schedule d env dir a).ending.code = 2 := by
  have hresult : (execute schedule d env dir a).result =
      .error (f.inContext "Failed to load configuration") := by
    rw [execute, ha]
    exact result_of_load_error h
  rw [code_of_error hresult, Failure.severity_inContext]
  rfl

end Commands

/-- The entry imports a file that may not be read; elsewhere the configuration is empty. -/
def locked : Disk := (Disk.ofTexts [
  ("p/package.json", "\x7b\x7d"),
  ("p/a.ts", "import './b';"),
  ("p/b.ts", ""),
  ("q/regify.json", "")]).put (Disk.locationOf "p/b.ts") (.file (.unreadable (.system 13)))

/-- Generate the manifest of a component. -/
def generating (input : String) : Arguments :=
  ⟨0, false, false, none, .generate ⟨Path.ofString input, none, none, false, none, none⟩⟩

end CommandLine

end ComponentRegistry
