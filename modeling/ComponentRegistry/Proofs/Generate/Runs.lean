import ComponentRegistry.Proofs.Generate.Schedule

/-!
# Runs that have ended

A run over a file or a directory, whatever its schedule, comes down to the manifests that it keeps,
one after the other (`runSaves`, `chain_runSaves`).  When it has ended its report tells all of them,
and each was found by a walk on a disk that the run went through (`ended`).  So what stands on the
last disk is what stood there before, or it is the manifest that was saved last at its place
(`Chain.node?`).
-/

namespace ComponentRegistry.Generate

/-! ## Saved places -/

/-- As seen on a disk, the manifest was saved at the place. -/
structure Save.Hits (s : Setting) (d : Disk) (l : Location) (x : Save) : Prop where
  saving : s.rawJson = false
  isOk : ∃ g, x.result s = .ok g
  place : d.locate (s.output x.task) = .ok l

/-- Of these saves the last one at the place. -/
def LastAt (s : Setting) (d : Disk) (xs : List Save) (l : Location) (x : Save) : Prop :=
  ∃ before after, xs = before ++ x :: after ∧ x.Hits s d l ∧ ∀ y ∈ after, ¬ y.Hits s d l

section Hits

variable {s : Setting} {d d' : Disk} {l : Location} {n : Node} {xs : List Save} {x : Save}

theorem Save.Hits.grows (h : x.Hits s d l) (hg : d.Grows d') : x.Hits s d' l :=
  ⟨h.saving, h.isOk, hg.locate h.place⟩

/-- A manifest that is saved stands at one place, and elsewhere nothing has changed. -/
theorem Save.hits_of_isOk {g : Generated} (hraw : s.rawJson = false) (hok : x.result s = .ok g) :
    ∃ l, x.Hits s (x.after s) l ∧
      (x.after s).node? l = some (.file (.text x.manifest.pretty)) ∧
      ∀ l' n, l' ≠ l → x.disk.node? l' = some n → (x.after s).node? l' = some n := by
  have h := keeps s x.task x.manifest x.disk
  have hres : (keep s x.task x.manifest x.disk).1 = .ok g := hok
  unfold Save.after
  cases hk : keep s x.task x.manifest x.disk with
  | mk result after =>
    rw [hk] at h hres
    cases h with
    | handedBack hraw' => rw [hraw] at hraw'; cases hraw'
    | @saved ready d' place _ hextends hwritten =>
      refine ⟨place, ⟨hraw, ⟨g, hok⟩, hwritten.leads⟩, ?_, fun l' n hne hn => ?_⟩
      · rw [hwritten.node?, if_pos rfl]
      · rw [hwritten.node?, if_neg hne]
        exact hextends.node l' n hn
    | refused _ _ => cases hres

/-- Where a manifest is seen later it was saved. -/
theorem Save.Hits.node? (hg : (x.after s).Grows d) (h : x.Hits s d l) :
    (x.after s).node? l = some (.file (.text x.manifest.pretty)) := by
  obtain ⟨g, hok⟩ := h.isOk
  obtain ⟨l', hhits, hnode, -⟩ := Save.hits_of_isOk h.saving hok
  have hsame : l' = l := Except.ok.inj ((hhits.grows hg).place.symm.trans h.place)
  rwa [hsame] at hnode

/-- What stood on a disk stays unless a manifest is saved there. -/
theorem Save.node?_of_not_hits (hg : (x.after s).Grows d) (h : ¬ x.Hits s d l)
    (hn : x.disk.node? l = some n) : (x.after s).node? l = some n := by
  by_cases hsaved : s.rawJson = false ∧ ∃ g, x.result s = .ok g
  · obtain ⟨hraw, g, hok⟩ := hsaved
    obtain ⟨l', hhits, -, hother⟩ := Save.hits_of_isOk hraw hok
    refine hother l n ?_ hn
    rintro rfl
    exact h (hhits.grows hg)
  · have hk := keeps s x.task x.manifest x.disk
    unfold Save.result at hsaved
    unfold Save.after
    cases hkeep : keep s x.task x.manifest x.disk with
    | mk result after =>
      rw [hkeep] at hk hsaved
      cases hk with
      | handedBack _ => exact hn
      | saved hraw _ _ => exact absurd ⟨hraw, _, rfl⟩ hsaved
      | refused _ hextends => exact hextends.node l n hn

/-- **What stands at the end was there before, or it is the manifest saved there last.** -/
theorem Chain.node? (h : Chain s d xs d') (hn : d.node? l = some n) :
    ((∀ x ∈ xs, ¬ x.Hits s d' l) ∧ d'.node? l = some n) ∨
      ∃ x, LastAt s d' xs l x ∧ d'.node? l = some (.file (.text x.manifest.pretty)) := by
  induction h generalizing n with
  | nil => exact Or.inl ⟨by simp, hn⟩
  | @cons x more d' hrest ih =>
    by_cases hx : x.Hits s d' l
    · rcases ih (hx.node? hrest.grows) with ⟨hnone, hnode⟩ | ⟨y, ⟨before, after, rfl, hy⟩, hnode⟩
      · exact Or.inr ⟨x, ⟨[], more, rfl, hx, hnone⟩, hnode⟩
      · exact Or.inr ⟨y, ⟨x :: before, after, rfl, hy⟩, hnode⟩
    · rcases ih (Save.node?_of_not_hits hrest.grows hx hn) with
        ⟨hnone, hnode⟩ | ⟨y, ⟨before, after, rfl, hy⟩, hnode⟩
      · refine Or.inl ⟨fun y hy => ?_, hnode⟩
        rcases List.mem_cons.mp hy with rfl | hy
        · exact hx
        · exact hnone y hy
      · exact Or.inr ⟨y, ⟨x :: before, after, rfl, hy⟩, hnode⟩

/-- Where manifests were saved stands the last of them. -/
theorem Chain.last (h : Chain s d xs d') (hx : x ∈ xs) (hhits : x.Hits s d' l) :
    ∃ y, LastAt s d' xs l y ∧ d'.node? l = some (.file (.text y.manifest.pretty)) := by
  obtain ⟨before, after, rfl⟩ := List.append_of_mem hx
  obtain ⟨-, hafter⟩ := h.split
  rcases hafter.node? (hhits.node? hafter.grows) with
    ⟨hnone, hnode⟩ | ⟨y, ⟨before', after', rfl, hy⟩, hnode⟩
  · exact ⟨x, ⟨before, after, rfl, hhits, hnone⟩, hnode⟩
  · exact ⟨y, ⟨before ++ x :: before', after', by simp, hy⟩, hnode⟩

theorem LastAt.mem (h : LastAt s d xs l x) : x ∈ xs := by
  obtain ⟨before, after, rfl, -⟩ := h
  simp

theorem LastAt.hits (h : LastAt s d xs l x) : x.Hits s d l := by
  obtain ⟨before, after, -, hhits, -⟩ := h
  exact hhits

/-- A chain ends on its first disk or on the disk after one of its saves. -/
theorem Chain.mem_disks (h : Chain s d xs d') : d' ∈ d :: xs.map (Save.after s) := by
  induction h with
  | nil => simp
  | cons _ ih => exact List.mem_cons_of_mem _ (by simpa using ih)

end Hits

/-! ## Runs over a file -/

section Runs

variable {d d' : Disk} {config : Config} {dir : Path} {o : Options}

/-- The setting of a run over a file. -/
def fileSetting (config : Config) (dir : Path) (o : Options) : Setting where
  config := config
  dir := dir
  outputDir := outputDirectory config dir ((dir.join o.input).parent?.getD dir)
  rawJson := o.rawJson

/-- The file that a run is over, and the name that its manifest gets. -/
def fileTask (dir : Path) (o : Options) : Task :=
  ⟨dir.join o.input, outputNameOf (o.name.getD (dir.join o.input).fileNameShown)⟩

/-- A run over a file that succeeds, step by step; the schedule does not count. -/
structure Ran (d : Disk) (config : Config) (dir : Path) (o : Options) (m : Manifest) (g : Generated)
    (after : Disk) : Prop where
  valid : o.validate d dir = .ok ()
  isFile : d.isDirectory (dir.join o.input) = false
  walked : Walk.generate d config (dir.join o.input) = .ok m
  kept : keep (fileSetting config dir o) (fileTask dir o) m d = (.ok g, after)

theorem runFile_eq (d : Disk) (config : Config) (dir : Path) (o : Options) :
    runFile d config dir (dir.join o.input) o =
      match generateOne (fileSetting config dir o) (fileTask dir o) d with
      | (.error f, after) => ⟨.error f, [], after⟩
      | (.ok g, after) => ⟨.ok ⟨.file, [g], []⟩, [⟨1, 1, g.message, true⟩], after⟩ := rfl

/-- The disk after a run over a file. -/
theorem disk_runFile (d : Disk) (config : Config) (dir : Path) (o : Options) :
    (runFile d config dir (dir.join o.input) o).disk =
      match Walk.generate d config (dir.join o.input) with
      | .error _ => d
      | .ok m => Save.after (fileSetting config dir o) ⟨0, fileTask dir o, m, d⟩ := by
  have hone : (generateOne (fileSetting config dir o) (fileTask dir o) d).2 =
      match Walk.generate d config (dir.join o.input) with
      | .error _ => d
      | .ok m => Save.after (fileSetting config dir o) ⟨0, fileTask dir o, m, d⟩ := by
    show Prod.snd (match Walk.generate d config (dir.join o.input) with
      | .error f => _
      | .ok m => _) = _
    cases Walk.generate d config (dir.join o.input) <;> rfl
  rw [runFile_eq, ← hone]
  cases generateOne (fileSetting config dir o) (fileTask dir o) d with
  | mk result after => cases result <;> rfl

/-- A run over something else than a directory is a run over a file. -/
theorem runScheduled_file {schedule : Nat → List Nat} (hvalid : o.validate d dir = .ok ())
    (hdir : d.isDirectory (dir.join o.input) = false) :
    runScheduled schedule d config dir o = runFile d config dir (dir.join o.input) o := by
  simp only [runScheduled, hvalid, hdir]
  rfl

theorem Ran.runScheduled_eq {schedule : Nat → List Nat} {m : Manifest} {g : Generated} {after : Disk}
    (h : Ran d config dir o m g after) :
    runScheduled schedule d config dir o =
      ⟨.ok ⟨.file, [g], []⟩, [⟨1, 1, g.message, true⟩], after⟩ := by
  have hone : generateOne (fileSetting config dir o) (fileTask dir o) d = (.ok g, after) := by
    unfold generateOne
    rw [show Walk.generate d (fileSetting config dir o).config (fileTask dir o).file = .ok m from h.walked]
    exact h.kept
  rw [runScheduled_file h.valid h.isFile, runFile_eq, hone]

theorem Ran.run_eq {m : Manifest} {g : Generated} {after : Disk} (h : Ran d config dir o m g after) :
    run d config dir o = ⟨.ok ⟨.file, [g], []⟩, [⟨1, 1, g.message, true⟩], after⟩ :=
  h.runScheduled_eq

/-- A run that is refused changes nothing. -/
theorem disk_of_refused {schedule : Nat → List Nat} {f : Failure} (h : o.validate d dir = .error f) :
    (runScheduled schedule d config dir o).disk = d := by
  simp only [runScheduled, h]

theorem validate_of_ok {schedule : Nat → List Nat} {r : Report}
    (hok : (runScheduled schedule d config dir o).result = .ok r) : o.validate d dir = .ok () := by
  cases hvalid : o.validate d dir with
  | ok u => rfl
  | error f =>
    simp only [runScheduled, hvalid] at hok
    cases hok

theorem ran_of_runScheduled {schedule : Nat → List Nat} {r : Report}
    (hok : (runScheduled schedule d config dir o).result = .ok r)
    (hdir : d.isDirectory (dir.join o.input) = false) : ∃ m g after, Ran d config dir o m g after := by
  have hvalid := validate_of_ok hok
  rw [runScheduled_file hvalid hdir, runFile_eq] at hok
  cases hone : generateOne (fileSetting config dir o) (fileTask dir o) d with
  | mk result after =>
    rw [hone] at hok
    cases result with
    | error f => cases hok
    | ok g =>
      unfold generateOne at hone
      cases hwalk : Walk.generate d (fileSetting config dir o).config (fileTask dir o).file with
      | error f => rw [hwalk] at hone; cases hone
      | ok m =>
        rw [hwalk] at hone
        exact ⟨m, g, after, hvalid, hdir, hwalk, hone⟩

theorem ran_of_run {r : Report} (hok : (run d config dir o).result = .ok r)
    (hfile : d.isFile (dir.join o.input) = true) : ∃ m g after, Ran d config dir o m g after := by
  have hdir : d.isDirectory (dir.join o.input) = false := by
    unfold Disk.isFile at hfile
    unfold Disk.isDirectory
    split at hfile
    next c hs => rw [hs]
    next => cases hfile
  exact ran_of_runScheduled hok hdir

end Runs

/-! ## Runs over a directory -/

/-- The setting of a run over a directory. -/
def directorySetting (config : Config) (dir : Path) (o : Options) : Setting where
  config := config
  dir := dir
  outputDir := outputDirectory config dir (dir.join o.input / usualOutput)
  rawJson := o.rawJson

/-- The components of the directory that a run is over. -/
def directoryTasks (d : Disk) (dir : Path) (o : Options) : List Task :=
  (((listComponents d (dir.join o.input)).toOption).getD []).map fun file =>
    ⟨file, outputNameOf file.fileNameShown⟩

/-- The batch of a run over a directory when it begins. -/
def directoryBatch (d : Disk) (dir : Path) (o : Options) : Batch :=
  .start d (directoryTasks d dir o)

section Directories

variable {d : Disk} {config : Config} {dir : Path} {o : Options} {schedule : Nat → List Nat}

theorem listComponents_of_isDirectory {input : Path} (h : d.isDirectory input = true) :
    ∃ files, listComponents d input = .ok files := by
  have hstat := Disk.isDirectory_iff.mp h
  unfold Disk.stat at hstat
  unfold listComponents
  cases hl : d.locate input with
  | error e => rw [hl] at hstat; cases hstat
  | ok l => exact ⟨_, rfl⟩

/-- Components that stand on the disk in the order of their paths are listed in this order. -/
theorem listComponents_of_sorted {input : Path} {place : Location} {files : List Path}
    (hl : d.locate input = .ok place)
    (hfiles : ((d.entries place).filterMap fun (name, node) => match node with
      | .file _ => some (input.child name)
      | _ => none).filter isComponent = files)
    (hsorted : files.Pairwise fun a b => a.precedes b = true) : listComponents d input = .ok files := by
  have hsort : files.mergeSort Path.precedes = files := List.mergeSort_of_pairwise hsorted
  unfold listComponents
  rw [hl]
  rw [← hfiles] at hsort ⊢
  exact congrArg Except.ok hsort

/-- Components that stand on the disk in the order of their paths are taken in this order. -/
theorem directoryTasks_of_sorted {place : Location} (files : List Path)
    (hl : d.locate (dir.join o.input) = .ok place)
    (hfiles : ((d.entries place).filterMap fun (name, node) => match node with
      | .file _ => some ((dir.join o.input).child name)
      | _ => none).filter isComponent = files)
    (hsorted : files.Pairwise fun a b => a.precedes b = true) :
    directoryTasks d dir o = files.map fun file => ⟨file, outputNameOf file.fileNameShown⟩ := by
  unfold directoryTasks
  rw [listComponents_of_sorted hl hfiles hsorted]
  rfl

/-- A run over a directory ends with the report of its batch. -/
theorem runScheduled_directory (hvalid : o.validate d dir = .ok ())
    (hdir : d.isDirectory (dir.join o.input) = true) :
    runScheduled schedule d config dir o =
      let b := (directoryBatch d dir o).run (directorySetting config dir o)
        (schedule (directoryTasks d dir o).length)
      ⟨.ok b.report, b.updates, b.disk⟩ := by
  obtain ⟨files, hfiles⟩ := listComponents_of_isDirectory hdir
  simp only [runScheduled, hvalid, hdir, if_true, runDirectory, hfiles, directoryBatch, directoryTasks]
  rfl

/-- The report tells what was reported of the components. -/
theorem Batch.mem_generated {b : Batch} {g : Generated} :
    g ∈ b.report.generated ↔
      ∃ (i : Nat) (t : Task), b.work[i]? = some (t, Stage.reported (.ok g)) := by
  have hone : ∀ stage : Stage, (stage.result?.bind fun r => r.toOption) = some g ↔
      stage = .reported (.ok g) := by
    intro stage
    cases stage with
    | reported r => cases r <;> simp [Stage.result?, Except.toOption]
    | waiting | walked m | finished r | counted r n => simp [Stage.result?]
  simp only [Batch.report, List.mem_filterMap, hone]
  constructor
  · rintro ⟨⟨t, stage⟩, hmem, rfl⟩
    obtain ⟨i, hi⟩ := List.mem_iff_getElem?.mp hmem
    exact ⟨i, t, hi⟩
  · rintro ⟨i, t, hi⟩
    exact ⟨_, List.mem_of_getElem? hi, rfl⟩

end Directories

/-! ## Ends of runs -/

/-- The setting of a run. -/
def runSetting (d : Disk) (config : Config) (dir : Path) (o : Options) : Setting :=
  if d.isDirectory (dir.join o.input) then directorySetting config dir o
  else fileSetting config dir o

/-- The manifests that a run keeps, in the order in which it does. -/
def runSaves (schedule : Nat → List Nat) (d : Disk) (config : Config) (dir : Path) (o : Options) :
    List Save :=
  if d.isDirectory (dir.join o.input) then
    (directoryBatch d dir o).saves (directorySetting config dir o)
      (schedule (directoryTasks d dir o).length)
  else match Walk.generate d config (dir.join o.input) with
    | .ok m => [⟨0, fileTask dir o, m, d⟩]
    | .error _ => []

/-- The disks that a run goes through. -/
def runDisks (schedule : Nat → List Nat) (d : Disk) (config : Config) (dir : Path) (o : Options) :
    List Disk :=
  d :: (runSaves schedule d config dir o).map (Save.after (runSetting d config dir o))

/-- What is true of a run that has ended: it tells every manifest that it has kept, and each was
found by a walk on a disk between the first one and the last. -/
structure Ended (s : Setting) (d : Disk) (xs : List Save) (r : Report) (after : Disk) : Prop where
  chain : Chain s d xs after
  generated : ∀ g, g ∈ r.generated ↔ ∃ x ∈ xs, x.result s = .ok g
  once : ∀ x ∈ xs, ∀ y ∈ xs, x.place = y.place → x = y
  walked : ∀ x ∈ xs, ∃ before rest walkedOn, xs = before ++ rest ∧ Chain s d before walkedOn ∧
    Chain s walkedOn rest after ∧ Walk.generate walkedOn s.config x.task.file = .ok x.manifest

section Ends

variable {d : Disk} {config : Config} {dir : Path} {o : Options} {schedule : Nat → List Nat}
  {s : Setting} {tasks : List Task} {steps : List Nat} {x : Save} {r : Report}

theorem Batch.mem_saves (hx : x ∈ (Batch.start d tasks).saves s steps) :
    tasks[x.place]? = some x.task := by
  induction steps using List.reverseRecOn with
  | nil => cases hx
  | append_singleton steps j ih =>
    rw [Batch.saves_concat] at hx
    rcases List.mem_append.mp hx with hx | hx
    · exact ih hx
    · obtain ⟨rfl, -, hwork⟩ := Batch.place_of_save? (Option.mem_toList.mp hx)
      exact (history s d tasks steps hwork).1

/-- A component that was kept is done with this manifest. -/
theorem Done.of_mem {walkedOn : Disk} {xs : List Save} {i : Nat} {t : Task}
    {result : Except Failure Generated} (h : Done s walkedOn xs i t result) (hx : x ∈ savesOf xs i) :
    savesOf xs i = [x] ∧ Walk.generate walkedOn s.config t.file = .ok x.manifest ∧
      result = x.result s := by
  cases h with
  | failed _ hnone => rw [hnone] at hx; cases hx
  | @kept y hwalk _ hone =>
    rw [hone] at hx
    cases List.mem_singleton.mp hx
    exact ⟨hone, hwalk, rfl⟩

theorem mem_savesOf {xs : List Save} (hx : x ∈ xs) : x ∈ savesOf xs x.place :=
  List.mem_filter.mpr ⟨hx, by simp⟩

/-- What is kept of a component was found by its walk. -/
theorem Batch.walked_of_save (hx : x ∈ (Batch.start d tasks).saves s steps) :
    Walk.generate (walkDisk s (Batch.start d tasks) steps x.place) s.config x.task.file =
      .ok x.manifest := by
  have hmem := mem_savesOf hx
  have ht := Batch.mem_saves hx
  have hlt : x.place < ((Batch.start d tasks).run s steps).work.length := by
    rw [length_work]
    simpa [Batch.start] using (List.getElem?_eq_some_iff.mp ht).1
  obtain ⟨⟨t, stage⟩, he⟩ : ∃ e, ((Batch.start d tasks).run s steps).work[x.place]? = some e :=
    ⟨_, List.getElem?_eq_getElem hlt⟩
  obtain ⟨htask, ⟨-, -, hnone⟩ | ⟨-, hhistory⟩⟩ := history s d tasks steps he
  · rw [hnone] at hmem; cases hmem
  · cases Option.some.inj (ht.symm.trans htask)
    cases hhistory with
    | walked _ hnone => rw [hnone] at hmem; cases hmem
    | finished hdone | counted hdone | reported hdone => exact (hdone.of_mem hmem).2.1

/-- The disk that a component is walked on is the first one or the disk after a save. -/
theorem walkDisk_mem (s : Setting) (b : Batch) (steps : List Nat) (i : Nat) :
    walkDisk s b steps i ∈ b.disk :: (b.saves s steps).map (Save.after s) := by
  obtain ⟨rest, hsteps⟩ := List.takeWhile_prefix (l := steps) fun j => decide (j ≠ i)
  have hsaves : b.saves s steps = b.saves s (steps.takeWhile (· ≠ i)) ++
      (b.run s (steps.takeWhile (· ≠ i))).saves s rest := by
    rw [← Batch.saves_append, hsteps]
  rw [hsaves, List.map_append, ← List.cons_append]
  exact List.mem_append_left _ (b.chain_saves s _).mem_disks

/-- What was kept of a component in a batch that is reported. -/
theorem Batch.reported_of_save (hfair : Fair tasks.length steps)
    (hx : x ∈ (Batch.start d tasks).saves s steps) :
    ((Batch.start d tasks).run s steps).work[x.place]? = some (x.task, .reported (x.result s)) ∧
      savesOf ((Batch.start d tasks).saves s steps) x.place = [x] ∧
      Walk.generate (walkDisk s (Batch.start d tasks) steps x.place) s.config x.task.file =
        .ok x.manifest := by
  obtain ⟨result, hwork, hdone⟩ := reported_of_fair s d hfair (Batch.mem_saves hx)
  obtain ⟨hone, hwalk, rfl⟩ := hdone.of_mem (mem_savesOf hx)
  exact ⟨hwork, hone, hwalk⟩

/-- **A batch under a fair schedule has ended.** -/
theorem Batch.ended (hfair : Fair tasks.length steps) :
    Ended s d ((Batch.start d tasks).saves s steps) ((Batch.start d tasks).run s steps).report
      ((Batch.start d tasks).run s steps).disk where
  chain := (Batch.start d tasks).chain_saves s steps
  generated g := by
    rw [Batch.mem_generated]
    constructor
    · rintro ⟨i, t, hwork⟩
      obtain ⟨ht, ⟨-, hwaiting, -⟩ | ⟨-, hhistory⟩⟩ := history s d tasks steps hwork
      · cases hwaiting
      · cases hhistory with
        | reported hdone =>
          generalize hg : (Except.ok g : Except Failure Generated) = result at hdone
          cases hdone with
          | failed _ _ => cases hg
          | @kept y _ _ hone =>
            have hy : y ∈ savesOf ((Batch.start d tasks).saves s steps) i := by rw [hone]; simp
            exact ⟨y, (List.mem_filter.mp hy).1, rfl⟩
    · rintro ⟨x, hx, hok⟩
      obtain ⟨hwork, -, -⟩ := Batch.reported_of_save hfair hx
      rw [hok] at hwork
      exact ⟨x.place, x.task, hwork⟩
  once x hx y hy hplace := by
    obtain ⟨-, hone, -⟩ := Batch.reported_of_save hfair hx
    have hmem : y ∈ savesOf ((Batch.start d tasks).saves s steps) x.place :=
      List.mem_filter.mpr ⟨hy, by simp [hplace]⟩
    rw [hone] at hmem
    exact (List.mem_singleton.mp hmem).symm
  walked x hx := by
    obtain ⟨-, -, hwalk⟩ := Batch.reported_of_save hfair hx
    obtain ⟨rest, hsteps⟩ := List.takeWhile_prefix (l := steps) fun j => decide (j ≠ x.place)
    have hsaves : (Batch.start d tasks).saves s steps =
        (Batch.start d tasks).saves s (steps.takeWhile (· ≠ x.place)) ++
          ((Batch.start d tasks).run s (steps.takeWhile (· ≠ x.place))).saves s rest := by
      rw [← Batch.saves_append, hsteps]
    have hchain := ((Batch.start d tasks).run s (steps.takeWhile (· ≠ x.place))).chain_saves s rest
    rw [← Batch.run_append, hsteps] at hchain
    exact ⟨_, _, _, hsaves, (Batch.start d tasks).chain_saves s _, hchain, hwalk⟩

/-- What a run over a file keeps. -/
theorem Ran.save {m : Manifest} {g : Generated} {after : Disk} (h : Ran d config dir o m g after) :
    Save.result (fileSetting config dir o) ⟨0, fileTask dir o, m, d⟩ = .ok g ∧
      Save.after (fileSetting config dir o) ⟨0, fileTask dir o, m, d⟩ = after :=
  ⟨congrArg Prod.fst h.kept, congrArg Prod.snd h.kept⟩

/-- A run over a file that succeeds has ended. -/
theorem Ran.ended {m : Manifest} {g : Generated} {after : Disk} (h : Ran d config dir o m g after) :
    Ended (fileSetting config dir o) d [⟨0, fileTask dir o, m, d⟩] ⟨.file, [g], []⟩ after := by
  obtain ⟨hresult, hafter⟩ := h.save
  have hnil : Chain (fileSetting config dir o)
      (Save.after (fileSetting config dir o) ⟨0, fileTask dir o, m, d⟩) [] after :=
    hafter ▸ .nil
  have hchain : Chain (fileSetting config dir o) d [⟨0, fileTask dir o, m, d⟩] after := .cons hnil
  refine ⟨hchain, fun g' => ?_, by simp, fun x hx => ?_⟩
  · simp only [List.mem_singleton, exists_eq_left, hresult]
    exact ⟨fun hg => by rw [hg], fun hg => (Except.ok.inj hg).symm⟩
  · cases List.mem_singleton.mp hx
    exact ⟨[], _, d, rfl, .nil, hchain, h.walked⟩

/-- **The disk after a run that is not refused is what its saves have made of the first one**, under
every schedule, whether it succeeds or not. -/
theorem chain_runSaves (hvalid : o.validate d dir = .ok ()) :
    Chain (runSetting d config dir o) d (runSaves schedule d config dir o)
      (runScheduled schedule d config dir o).disk := by
  cases hdir : d.isDirectory (dir.join o.input) with
  | true =>
    rw [runScheduled_directory hvalid hdir]
    simp only [runSetting, runSaves, hdir, if_true]
    exact (directoryBatch d dir o).chain_saves _ _
  | false =>
    rw [runScheduled_file hvalid hdir, disk_runFile]
    simp only [runSetting, runSaves, hdir, Bool.false_eq_true, if_false]
    cases Walk.generate d config (dir.join o.input) with
    | error f => exact .nil
    | ok m => exact Chain.cons (x := ⟨0, fileTask dir o, m, d⟩) .nil

/-- **A run that succeeds under fair schedules has ended.** -/
theorem ended (hfair : ∀ count, Fair count (schedule count))
    (hok : (runScheduled schedule d config dir o).result = .ok r) :
    Ended (runSetting d config dir o) d (runSaves schedule d config dir o) r
      (runScheduled schedule d config dir o).disk := by
  cases hdir : d.isDirectory (dir.join o.input) with
  | true =>
    have hvalid := validate_of_ok hok
    rw [runScheduled_directory hvalid hdir] at hok ⊢
    cases hok
    simp only [runSetting, runSaves, hdir, if_true]
    exact Batch.ended (hfair _)
  | false =>
    obtain ⟨m, g, after, hran⟩ := ran_of_runScheduled hok hdir
    rw [hran.runScheduled_eq] at hok ⊢
    cases hok
    simp only [runSetting, runSaves, hdir, hran.walked]
    exact hran.ended

end Ends

end ComponentRegistry.Generate
