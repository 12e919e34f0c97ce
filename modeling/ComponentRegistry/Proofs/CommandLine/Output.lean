import ComponentRegistry.CommandLine.Run
import ComponentRegistry.Proofs.Generate.Runs
import ComponentRegistry.Proofs.Manifest.WireFormat

/-!
# The standard output

If manifests are shown and not saved, the standard output has nothing but them
(`rawJson_output`).  The console is quiet then, and a quiet console shows its lines on the error
output alone; so do the lines that tell a failure.
-/

namespace ComponentRegistry.CommandLine

open Generate

/-! ## Lines on the error output -/

/-- None of the lines is for the standard output. -/
def Silent (lines : List Line) : Prop := ∀ l ∈ lines, l.stream = .error

section Silent

variable {c : Console} {ls ks : List Line}

theorem silent_nil : Silent [] := by simp [Silent]

theorem Silent.append (h : Silent ls) (h' : Silent ks) : Silent (ls ++ ks) :=
  List.forall_mem_append.mpr ⟨h, h'⟩

theorem silent_error (c : Console) (message : String) : Silent (c.error message) := by
  simp [Silent, Console.error]

theorem silent_print (hc : c.quiet = true) (message : String) : Silent (c.print message) := by
  rw [Console.print, if_pos hc]
  exact silent_nil

theorem silent_success (hc : c.quiet = true) (message : String) : Silent (c.success message) := by
  rw [Console.success, if_pos hc]
  exact silent_nil

theorem silent_progress (hc : c.quiet = true) (p : Progress) : Silent (c.progress p) := by
  have htold : Silent (if p.succeeded then c.success p.message else c.error p.message) := by
    split_ifs
    · exact silent_success hc p.message
    · exact silent_error c p.message
  unfold Console.progress
  by_cases hverbose : 0 < c.verbose
  · rw [if_pos hverbose]
    exact htold.append (silent_print hc _)
  · rw [if_neg hverbose]
    exact htold

theorem silent_failureLines (f : Failure) : Silent (failureLines f) := by
  intro l hl
  obtain ⟨text, -, rfl⟩ := List.mem_map.mp hl
  rfl

theorem textOn_append (stream : Stream) (ls ks : List Line) :
    textOn stream (ls ++ ks) = textOn stream ls ++ textOn stream ks := by
  simp [textOn, String.join_append]

theorem Silent.textOn_standard (h : Silent ls) : textOn .standard ls = "" := by
  have hnone : ls.filter (fun l => l.stream = .standard) = [] := by
    rw [List.filter_eq_nil_iff]
    intro l hl
    simp [h l hl]
  rw [textOn, hnone]
  rfl

end Silent

/-! ## Reports as JSON -/

section Reports

variable {d : Disk} {config : Config} {dir : Path} {o : Options} {schedule : Nat → List Nat}
  {r : Report}

/-- What the text of a report says: the manifest of a file, or the list for a directory. -/
def Says (r : Report) (text : String) : Prop :=
  (∃ v, Json.IsText v text) ∧ match r.kind with
    | .file => ∃ m, r.manifests = [m] ∧ Manifest.decode text = some m
    | .directory => Manifest.decodeList text = some r.manifests

theorem says_json_of_file {g : Generated} {failures : List Failed} :
    Says ⟨.file, [g], failures⟩ (Report.json ⟨.file, [g], failures⟩) := by
  obtain ⟨v, htext, -, -⟩ := g.manifest.read_pretty
  exact ⟨⟨v, htext⟩, g.manifest, rfl, g.manifest.decode_pretty⟩

theorem says_json_of_directory (hkind : r.kind = .directory) : Says r r.json := by
  have hjson : r.json = (Manifest.listJson r.manifests).pretty := by
    rw [Report.json, Report.toJson, hkind]
    rfl
  obtain ⟨htext, hlist⟩ := Manifest.read_pretty_list r.manifests
  rw [Says, hjson, hkind]
  exact ⟨htext, hlist⟩

/-- **The text of a run's report is JSON of what the run generated.** -/
theorem says_json_of_run (hok : (runScheduled schedule d config dir o).result = .ok r) :
    (r.kind = .directory ↔ d.isDirectory (dir.join o.input) = true) ∧ Says r r.json := by
  cases hdir : d.isDirectory (dir.join o.input) with
  | false =>
    obtain ⟨m, g, after, hran⟩ := ran_of_runScheduled hok hdir
    rw [hran.runScheduled_eq] at hok
    cases hok
    exact ⟨by simp, says_json_of_file⟩
  | true =>
    rw [runScheduled_directory (validate_of_ok hok) hdir] at hok
    cases hok
    exact ⟨by simp [Batch.report], says_json_of_directory rfl⟩

end Reports

/-! ## Generated manifests on the standard output -/

section Output

variable {schedule : Nat → List Nat} {d : Disk} {env : Environment} {dir : Path}
  {g : GenerateArguments} {flags : Config.Flags} {c : Console} {f : Failure} {config : Config}
  {r : Report}

/-- What a run is asked for by the arguments of the command. -/
def GenerateArguments.options (g : GenerateArguments) : Options := ⟨g.name, g.input, g.rawJson, g.jobs⟩

/-- A failure is told on the error output alone. -/
theorem output_eq (e : Execution) : e.ending.output = textOn .standard e.lines := by
  cases h : e.result with
  | error f =>
    rw [Execution.ending, h]
    simp only
    rw [textOn_append, (silent_failureLines f).textOn_standard, String.append_empty]
  | ok u => rw [Execution.ending, h]

/-- What is told while a run goes on is silent if the manifests are shown. -/
theorem silent_updates (hraw : g.rawJson = true) (updates : List Progress) :
    Silent (updates.flatMap ({ c with quiet := c.quiet || g.rawJson } : Console).progress) := by
  intro l hl
  obtain ⟨p, -, hp⟩ := List.mem_flatMap.mp hl
  exact silent_progress (by simp [hraw]) p l hp

theorem output_of_load_error (hload : Config.load d env dir flags = .error f) :
    (runGenerate schedule d env dir g flags c).ending.output = "" := by
  rw [output_eq, runGenerate, hload]
  rfl

theorem output_of_run_error (hraw : g.rawJson = true) (hload : Config.load d env dir flags = .ok config)
    (hrun : (runScheduled schedule d config dir g.options).result = .error f) :
    (runGenerate schedule d env dir g flags c).ending.output = "" := by
  rw [GenerateArguments.options] at hrun
  rw [output_eq, runGenerate, hload]
  simp only [hrun]
  exact ((silent_updates hraw _).append (silent_error _ _)).textOn_standard

theorem output_of_run (hraw : g.rawJson = true) (hload : Config.load d env dir flags = .ok config)
    (hrun : (runScheduled schedule d config dir g.options).result = .ok r) :
    (runGenerate schedule d env dir g flags c).ending.output = r.json ++ "\n" := by
  rw [GenerateArguments.options] at hrun
  rw [output_eq, runGenerate, hload]
  simp only [hrun]
  rw [textOn_append, (silent_updates hraw _).textOn_standard, if_pos hraw]
  simp [textOn]

/-- **Generated manifests are alone on the standard output.**  If they are to be shown, what the
program writes there is empty when the configuration or the run fails.  Otherwise it is the text of
the report and a line feed, even if some components failed; the text is JSON of the manifest of a file,
or of the manifests of a directory in their order. -/
theorem rawJson_output {a : Arguments} (ha : a.command = .generate g) (hraw : g.rawJson = true)
    (schedule : Nat → List Nat) (d : Disk) (env : Environment) (dir : Path) :
    let e := (execute schedule d env dir a).ending
    (∀ f, Config.load d env dir a.flags = .error f → e.output = "") ∧
      ∀ config, Config.load d env dir a.flags = .ok config →
        (∀ f, (runScheduled schedule d config dir g.options).result = .error f → e.output = "") ∧
        ∀ r, (runScheduled schedule d config dir g.options).result = .ok r →
          e.output = r.json ++ "\n" ∧
          (r.kind = .directory ↔ d.isDirectory (dir.join g.input) = true) ∧ Says r r.json := by
  have he : execute schedule d env dir a = runGenerate schedule d env dir g a.flags a.console := by
    rw [execute, ha]
  simp only [he]
  refine ⟨fun f hload => output_of_load_error hload, fun config hload =>
    ⟨fun f hrun => output_of_run_error hraw hload hrun, fun r hrun => ?_⟩⟩
  have hsays := says_json_of_run hrun
  exact ⟨output_of_run hraw hload hrun, hsays⟩

end Output

/-- One component is generated, the other one imports a file that is missing. -/
def shelf : Disk := .ofTexts [
  ("p/package.json", "\x7b\x7d"),
  ("p/c/book.ts", "export const title = '\"';"),
  ("p/c/gap.ts", "import './gone';")]

/-- Show the manifests of a directory, and say more. -/
def showing (input : String) : Arguments :=
  ⟨1, false, false, none, .generate ⟨Path.ofString input, none, none, true, none, none⟩⟩

def shelfOptions : Options := ⟨none, Path.ofString "c", true, none⟩

def book : Manifest := ⟨"book", some .lib, [], [], [],
  [⟨"c/book.ts", "export const title = '\"';", .lib⟩]⟩

def shelfReport : Report where
  kind := .directory
  generated := [⟨Path.ofString "/p/c/book.ts", book, none⟩]
  failures := [⟨Path.ofString "/p/c/gap.ts", .generation (Path.ofString "/p/c/gap.ts")
    (.unresolvedImport "./gone" (Path.ofString "c/gap.ts"))⟩]

theorem shelf_result :
    (runScheduled inOrder shelf .unset (Path.ofString "/p") shelfOptions).result = .ok shelfReport := by
  have hlocate : shelf.locate ((Path.ofString "/p").join shelfOptions.input) =
      .ok (Disk.locationOf "p/c") := by
    decide +kernel
  rw [runScheduled_directory (by decide +kernel) (by decide +kernel), directoryBatch,
    directoryTasks_of_sorted [Path.ofString "/p/c/book.ts", Path.ofString "/p/c/gap.ts"] hlocate
      (by decide +kernel) (by decide +kernel)]
  decide +kernel

/-- The failure is told on the error output; the standard output is a list of one manifest. -/
theorem shelf_output :
    shelfReport.isSuccess = false ∧
    (execute inOrder shelf [] (Path.ofString "/p") (showing "c")).ending.output =
      (Json.array [book.toJson]).pretty ++ "\n" ∧
    Manifest.decodeList (Json.array [book.toJson]).pretty = some [book] := by
  have hload : Config.load shelf [] (Path.ofString "/p") (showing "c").flags = .ok .unset := by
    decide +kernel
  obtain ⟨-, hoks⟩ := rawJson_output (a := showing "c") rfl rfl inOrder shelf [] (Path.ofString "/p")
  obtain ⟨houtput, -, -, hlist⟩ := (hoks .unset hload).2 shelfReport shelf_result
  exact ⟨rfl, houtput, hlist⟩

end ComponentRegistry.CommandLine
