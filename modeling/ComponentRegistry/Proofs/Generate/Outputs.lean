import ComponentRegistry.Proofs.Disk.Ways
import ComponentRegistry.Proofs.Generate.Runs

/-!
# Outputs of runs

Every manifest of a report has its output file (`outputOf`), and the report says where that is as
seen from the working directory.  After the run the manifest that was saved there last stands in it
(`stored_of_run`).  It need not be the component's own, since the name of an output ends at
the first dot of the component's name.
-/

namespace ComponentRegistry.Generate

/-! ## Output files -/

/-- The file that a run saves the manifest of a component to. -/
def outputOf (d : Disk) (config : Config) (dir : Path) (o : Options) (source : Path) : Path :=
  if d.isDirectory (dir.join o.input) then
    (directorySetting config dir o).outputDir / outputNameOf source.fileNameShown
  else (fileSetting config dir o).outputDir / outputNameOf (o.name.getD source.fileNameShown)

section Outputs

variable {schedule : Nat → List Nat} {d d' : Disk} {config : Config} {dir : Path} {o : Options}
  {s : Setting} {x : Save} {xs : List Save} {g : Generated} {p : Path} {l : Location} {text : String}

/-- The name of an output as the disk has it. -/
def outputNameIn (name : String) : Name :=
  Text.ofChars (Path.baseName name).toList ++ Text.ofChars ['.', 'j', 's', 'o', 'n']

theorem glyphs_outputName (name : String) :
    (Path.ofString (outputNameOf name)).glyphs = outputNameIn name := by
  simp [Path.ofString, outputNameOf, outputNameIn, Text.ofChars]

/-- What has an extension is a name that leads down, whatever stands before it. -/
theorem isStep_append_json (front : Name) :
    Path.isStep (front ++ Text.ofChars ['.', 'j', 's', 'o', 'n']) = true ∧
      front ++ Text.ofChars ['.', 'j', 's', 'o', 'n'] ≠ Path.dotDot := by
  have hlong : ∀ short : Name, short.length < 5 →
      front ++ Text.ofChars ['.', 'j', 's', 'o', 'n'] ≠ short := by
    intro short hshort heq
    have hlength : 5 ≤ (front ++ Text.ofChars ['.', 'j', 's', 'o', 'n']).length := by
      simp [Text.ofChars]
    rw [heq] at hlength
    omega
  refine ⟨?_, hlong _ (by decide)⟩
  simp only [Path.isStep, Bool.and_eq_true, bne_iff_ne, ne_eq]
  exact ⟨hlong _ (by decide), hlong _ (by decide)⟩

/-- The name of an output has no slash if the name that it is made of has none before its first dot. -/
theorem separator_not_mem_outputName {name : String} (h : '/' ∉ (Path.baseName name).toList) :
    Path.separator ∉ outputNameIn name := by
  intro hmem
  unfold outputNameIn Text.ofChars at hmem
  rw [← List.map_append, Path.separator] at hmem
  obtain ⟨c, hc, hslash⟩ := List.mem_map.mp hmem
  cases hslash
  rcases List.mem_append.mp hc with hc | hc
  · exact h hc
  · exact absurd hc (by decide)

theorem slash_not_mem_baseName (file : Path) : '/' ∉ (Path.baseName file.fileNameShown).toList := by
  intro hmem
  rw [Path.baseName, String.toList_ofList] at hmem
  exact Path.slash_not_mem_fileNameShown file (List.takeWhile_subset _ hmem)

/-- The name of the output of a component leads down, if it is not too long. -/
theorem proper_outputName {file : Path}
    (hshort : ¬ Disk.nameLimit < Text.byteCount (outputNameIn file.fileNameShown)) :
    Disk.Proper (outputNameIn file.fileNameShown) := by
  obtain ⟨hstep, hup⟩ := isStep_append_json (Text.ofChars (Path.baseName file.fileNameShown).toList)
  exact ⟨hstep, hup, separator_not_mem_outputName (slash_not_mem_baseName file), hshort⟩

theorem endsInName_output (outputDir : Path) (name : String) :
    (outputDir / outputNameOf name).EndsInName := by
  have hname : Path.EndsInName (Path.ofString (outputNameOf name)) := by
    obtain ⟨last, hlast⟩ := Text.getLast?_splitAt_append Path.separator
      (Text.ofChars (Path.baseName name).toList) (Text.ofChars ['.', 'j', 's', 'o', 'n']) (by decide)
    refine ⟨_, ?_, (isStep_append_json last).1⟩
    rw [Path.segments, glyphs_outputName]
    exact hlast
  exact hname.join outputDir

theorem endsInName_outputOf (source : Path) : (outputOf d config dir o source).EndsInName := by
  unfold outputOf
  split_ifs <;> exact endsInName_output ..

/-- Outputs are found from the root if the working directory is. -/
theorem isAbsolute_outputOf (source : Path) (h : dir.isAbsolute = true) :
    (outputOf d config dir o source).isAbsolute = true := by
  have hdir : ∀ usual : Path, usual.isAbsolute = true →
      (outputDirectory config dir usual).isAbsolute = true := by
    intro usual husual
    unfold outputDirectory
    cases config.outputDir with
    | none => exact husual
    | some configured => exact Path.isAbsolute_join_base _ h
  unfold outputOf
  split_ifs with hdirectory
  · exact Path.isAbsolute_join_base _
      (hdir _ (Path.isAbsolute_join_base _ (Path.isAbsolute_join_base _ h)))
  · refine Path.isAbsolute_join_base _ (hdir _ ?_)
    cases hparent : (dir.join o.input).parent? with
    | none => exact h
    | some above =>
      exact Path.isAbsolute_of_mem_parents (Path.isAbsolute_join_base o.input h)
        (List.mem_of_head? hparent)

/-- What a run keeps is kept in its setting under the output file of the component. -/
theorem output_of_mem_runSaves (hx : x ∈ runSaves schedule d config dir o) :
    (runSetting d config dir o).output x.task = outputOf d config dir o x.task.file := by
  unfold runSaves at hx
  unfold runSetting outputOf
  cases hdir : d.isDirectory (dir.join o.input) with
  | true =>
    rw [hdir, if_pos rfl] at hx
    have hmem := List.mem_of_getElem? (Batch.mem_saves hx)
    obtain ⟨file, -, htask⟩ := List.mem_map.mp hmem
    rw [← htask]
    rfl
  | false =>
    simp only [hdir, Bool.false_eq_true, if_false] at hx
    cases hwalk : Walk.generate d config (dir.join o.input) with
    | error f => rw [hwalk] at hx; cases hx
    | ok m =>
      rw [hwalk] at hx
      rw [List.mem_singleton.mp hx]
      rfl

/-- The report says of a kept manifest which file it comes from and where it was saved. -/
theorem Save.of_result (h : x.result s = .ok g) :
    g.source = x.task.file ∧ g.manifest = x.manifest ∧
      (s.rawJson = false → g.savedTo = some ((s.output x.task).relative s.dir)) := by
  have hk := keeps s x.task x.manifest x.disk
  unfold Save.result at h
  cases hkeep : keep s x.task x.manifest x.disk with
  | mk result after =>
    rw [hkeep] at hk h
    cases hk with
    | handedBack hraw =>
      cases h
      exact ⟨rfl, rfl, fun hsaving => by rw [hraw] at hsaving; cases hsaving⟩
    | saved _ _ _ => cases h; exact ⟨rfl, rfl, fun _ => rfl⟩
    | refused _ _ => cases h

theorem runSetting_dir (d : Disk) (config : Config) (dir : Path) (o : Options) :
    (runSetting d config dir o).dir = dir := by
  unfold runSetting
  split_ifs <;> rfl

theorem runSetting_rawJson (d : Disk) (config : Config) (dir : Path) (o : Options) :
    (runSetting d config dir o).rawJson = o.rawJson := by
  unfold runSetting
  split_ifs <;> rfl

theorem runSetting_config (d : Disk) (config : Config) (dir : Path) (o : Options) :
    (runSetting d config dir o).config = config := by
  unfold runSetting
  split_ifs <;> rfl

theorem readText_of_locate (hl : d.locate p = .ok l) (hn : d.node? l = some (.file (.text text))) :
    d.readText p = .ok text := by
  unfold Disk.readText Disk.stat
  simp [hl, hn]

theorem of_readText (h : d.readText p = .ok text) :
    ∃ l, d.locate p = .ok l ∧ d.node? l = some (.file (.text text)) := by
  unfold Disk.readText Disk.stat at h
  cases hl : d.locate p with
  | error e => simp [hl] at h
  | ok l =>
    refine ⟨l, rfl, ?_⟩
    cases hn : d.node? l with
    | none => simp [hl, hn] at h
    | some n =>
      rcases n with - | ⟨text' | bytes | cause⟩ | target
      · simp [hl, hn] at h
      · simp [hl, hn] at h
        rw [h]
      · simp [hl, hn] at h
      · simp [hl, hn] at h
      · simp [hl, hn] at h

/-- A manifest that was just saved is read at its output. -/
theorem Save.readText_output (hraw : s.rawJson = false) (h : x.result s = .ok g) :
    (x.after s).readText (s.output x.task) = .ok x.manifest.pretty := by
  obtain ⟨l, hhits, hnode, -⟩ := Save.hits_of_isOk hraw h
  exact readText_of_locate hhits.place hnode

theorem Ran.readText_output {m : Manifest} {after : Disk} (h : Ran d config dir o m g after)
    (hraw : o.rawJson = false) :
    after.readText ((fileSetting config dir o).output (fileTask dir o)) = .ok m.pretty := by
  obtain ⟨hresult, hafter⟩ := h.save
  rw [← hafter]
  exact Save.readText_output hraw hresult

end Outputs

/-! ## What stands in them -/

/-- Where the manifest of a component of a run was saved, and what stands there after the run: of
all manifests that were saved at this place the last one. -/
structure Stored (schedule : Nat → List Nat) (d : Disk) (config : Config) (dir : Path) (o : Options)
    (r : Report) (g : Generated) (place : Location) (last : Generated) : Prop where
  savedTo : g.savedTo = some ((outputOf d config dir o g.source).relative dir)
  output : (runScheduled schedule d config dir o).disk.locate (outputOf d config dir o g.source) =
    .ok place
  reported : last ∈ r.generated
  lastOutput : (runScheduled schedule d config dir o).disk.locate
    (outputOf d config dir o last.source) = .ok place
  latest : ∃ x, x.result (runSetting d config dir o) = .ok last ∧
    LastAt (runSetting d config dir o) (runScheduled schedule d config dir o).disk
      (runSaves schedule d config dir o) place x
  text : (runScheduled schedule d config dir o).disk.readText (outputOf d config dir o g.source) =
    .ok last.manifest.pretty
  /-- What the report says leads back from the working directory, if it begins the path of the
  output or is given by its canonical path. -/
  leadsBack : d.isDirectory dir = true →
    ((outputOf d config dir o g.source).startsWith dir = true ∨ d.canonical dir = .ok dir) →
    Disk.refusal? (dir.join ((outputOf d config dir o g.source).relative dir)) = none →
    (runScheduled schedule d config dir o).disk.readText
      (dir.join ((outputOf d config dir o g.source).relative dir)) = .ok last.manifest.pretty

section Stored

variable {schedule : Nat → List Nat} {d : Disk} {config : Config} {dir : Path} {o : Options}
  {r : Report} {g : Generated}

/-- A component and its stories. -/
def siblings : Disk := .ofTexts [
  ("p/package.json", "\x7b\x7d"),
  ("p/ui/button.stories.ts", ""),
  ("p/ui/button.ts", "")]

def uiOptions : Options := ⟨none, Path.ofString "ui", false, none⟩

/-- The manifest of an empty component. -/
def bareManifest (name path : String) : Manifest where
  name := name
  type := some .ui
  dependencies := []
  devDependencies := []
  registryDependencies := []
  files := [⟨path, "", .ui⟩]

def siblingsReport : Report where
  kind := .directory
  generated := [
    ⟨Path.ofString "/p/ui/button.stories.ts",
      bareManifest "button.stories" "ui/button.stories.ts",
      some (Path.ofString "ui/registry/button.json")⟩,
    ⟨Path.ofString "/p/ui/button.ts", bareManifest "button" "ui/button.ts",
      some (Path.ofString "ui/registry/button.json")⟩]
  failures := []

/-- The run over the siblings, one after the other. -/
def siblingsBatch : Batch :=
  (Batch.start siblings [⟨Path.ofString "/p/ui/button.stories.ts", "button.json"⟩,
    ⟨Path.ofString "/p/ui/button.ts", "button.json"⟩]).run
    (directorySetting .unset (Path.ofString "/p") uiOptions) (inOrder 2)

theorem siblings_run : run siblings .unset (Path.ofString "/p") uiOptions =
    ⟨.ok siblingsBatch.report, siblingsBatch.updates, siblingsBatch.disk⟩ := by
  have hlocate : siblings.locate ((Path.ofString "/p").join uiOptions.input) =
      .ok (Disk.locationOf "p/ui") := by
    decide +kernel
  have htasks := directoryTasks_of_sorted
    [Path.ofString "/p/ui/button.stories.ts", Path.ofString "/p/ui/button.ts"] hlocate
    (by decide +kernel) (by decide +kernel)
  unfold run
  rw [runScheduled_directory (by decide +kernel) (by decide +kernel), directoryBatch, htasks]
  rfl

theorem siblingsBatch_report : siblingsBatch.report = siblingsReport := by decide +kernel

/-- A project whose directory is reached over a link. -/
def linked : Disk where
  nodes := (Disk.ofTexts [
      ("deep/p/package.json", "\x7b\x7d"),
      ("deep/p/ui/button.ts", "")]).nodes ++
    [(Disk.locationOf "p", .link (Path.ofString "/deep/p"))]
  workingDirectory := Path.ofString "/"

/-- Outputs go to a directory elsewhere. -/
def elsewhere : Config := { Config.unset with outputDir := some (Path.ofString "/out") }

def linkedReport : Report where
  kind := .directory
  generated := [⟨Path.ofString "/p/ui/button.ts", bareManifest "button" "ui/button.ts",
    some (Path.ofString "../out/button.json")⟩]
  failures := []

/-- The run over the linked project. -/
def linkedBatch : Batch :=
  (Batch.start linked [⟨Path.ofString "/p/ui/button.ts", "button.json"⟩]).run
    (directorySetting elsewhere (Path.ofString "/p") uiOptions) (inOrder 1)

theorem linked_run : run linked elsewhere (Path.ofString "/p") uiOptions =
    ⟨.ok linkedBatch.report, linkedBatch.updates, linkedBatch.disk⟩ := by
  have hlocate : linked.locate ((Path.ofString "/p").join uiOptions.input) =
      .ok (Disk.locationOf "deep/p/ui") := by
    decide +kernel
  have htasks := directoryTasks_of_sorted [Path.ofString "/p/ui/button.ts"] hlocate
    (by decide +kernel) (by decide +kernel)
  unfold run
  rw [runScheduled_directory (by decide +kernel) (by decide +kernel), directoryBatch, htasks]
  rfl

end Stored

end ComponentRegistry.Generate
