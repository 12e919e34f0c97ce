import ComponentRegistry.Proofs.Generate.Listing
import ComponentRegistry.Proofs.Generate.Independence

/-!
# What runs over directories tell

However the steps of its components are mixed, a run over a directory reports each component once, in
the order of their paths, and tells of each once as it goes on (`directory_told_once`).  The numbers
that it tells are handed out one by one when components are counted, and between that and the report
of a component others may be counted and reported; so what is told comes in any order, but no number
is left out and none is told twice (`numbered_run`).
-/

namespace ComponentRegistry.Generate

/-! ## Counting and reporting -/

/-- The number of a component that is counted and not yet reported. -/
def Stage.pending? : Stage → Option Nat
  | .counted _ number => some number
  | _ => none

/-- The numbers that are handed out and not yet told. -/
def Batch.pending (b : Batch) : List Nat := b.work.filterMap fun e => e.2.pending?

/-- The results that are reported, in the order of the components. -/
def Batch.results (b : Batch) : List (Except Failure Generated) := b.work.filterMap fun e => e.2.result?

/-- What was told of a batch so far: the numbers that were told or are to be told are those from one
to the count of components done, and of each result that is reported it was told what there is to it. -/
structure Numbered (b : Batch) : Prop where
  totals : ∀ u ∈ b.updates, u.total = b.work.length
  numbers : (b.updates.map Progress.current ++ b.pending).Perm (List.range' 1 b.done)
  told : (b.updates.map fun u => (u.message, u.succeeded)).Perm (b.results.map describe)

section Numbered

variable {s : Setting} {b : Batch} {d : Disk} {tasks : List Task}

theorem numbered_start (d : Disk) (tasks : List Task) : Numbered (Batch.start d tasks) := by
  have hnone : ∀ {β : Type} (f : Stage → Option β), f .waiting = none →
      (Batch.start d tasks).work.filterMap (fun e => f e.2) = [] := by
    intro β f hf
    rw [List.filterMap_eq_nil_iff]
    intro e he
    obtain ⟨t, -, rfl⟩ := List.mem_map.mp he
    exact hf
  have hpending : (Batch.start d tasks).pending = [] := hnone Stage.pending? rfl
  have hresults : (Batch.start d tasks).results = [] := hnone Stage.result? rfl
  refine ⟨fun u hu => absurd hu List.not_mem_nil, ?_, ?_⟩
  · rw [hpending]
    exact .nil
  · rw [hresults]
    exact .nil

/-- A step of a component exchanges its stage. -/
theorem work_step_split {i : Nat} {t : Task} {stage : Stage} (h : b.work[i]? = some (t, stage)) :
    ∃ before after, b.work = before ++ (t, stage) :: after ∧
      b.step s i = { (advance s b t stage).2 with
        work := before ++ (t, (advance s b t stage).1) :: after } := by
  obtain ⟨hlt, hget⟩ := List.getElem?_eq_some_iff.mp h
  obtain ⟨before, after, hsplit, -, hset⟩ :=
    @List.exists_of_set _ i (t, (advance s b t stage).1) b.work hlt
  rw [hget] at hsplit
  refine ⟨before, after, hsplit, ?_⟩
  unfold Batch.step
  simp only [h, hset]

/-- A component gets the next number when it is counted. -/
theorem Numbered.counted {before after : List (Task × Stage)} {t : Task}
    {r : Except Failure Generated} (h : Numbered b)
    (hwork : b.work = before ++ (t, .finished r) :: after) :
    Numbered { b with
      work := before ++ (t, .counted r (b.done + 1)) :: after
      done := b.done + 1 } := by
  obtain ⟨htotals, hnumbers, htold⟩ := h
  refine ⟨fun u hu => ?_, ?_, ?_⟩
  · rw [htotals u hu, hwork]
    simp
  · simp only [Batch.pending, hwork, List.filterMap_append, List.filterMap_cons, Stage.pending?]
      at hnumbers ⊢
    rw [List.range'_1_concat, Nat.add_comm 1, ← List.append_assoc]
    refine List.perm_middle.trans (.trans ?_ (List.perm_append_singleton _ _).symm)
    rw [List.append_assoc]
    exact hnumbers.cons _
  · simp only [Batch.results, hwork, List.filterMap_append, List.filterMap_cons, Stage.result?]
      at htold ⊢
    exact htold

/-- With the report of a component its number is told. -/
theorem Numbered.reported {before after : List (Task × Stage)} {t : Task}
    {r : Except Failure Generated} {number : Nat} (h : Numbered b)
    (hwork : b.work = before ++ (t, .counted r number) :: after) :
    Numbered { b with
      work := before ++ (t, .reported r) :: after
      updates := b.updates ++ [⟨number, b.work.length, (describe r).1, (describe r).2⟩] } := by
  obtain ⟨htotals, hnumbers, htold⟩ := h
  have hlength : (before ++ (t, Stage.reported r) :: after).length = b.work.length := by
    rw [hwork]
    simp
  refine ⟨fun u hu => ?_, ?_, ?_⟩
  · rcases List.mem_append.mp hu with hu | hu
    · exact (htotals u hu).trans hlength.symm
    · rw [List.mem_singleton.mp hu]
      exact hlength.symm
  · simp only [Batch.pending, hwork, List.filterMap_append, List.filterMap_cons, Stage.pending?]
      at hnumbers ⊢
    rw [List.map_append, List.map_singleton, List.append_assoc, List.singleton_append]
    exact (List.perm_middle.symm.append_left _).trans hnumbers
  · simp only [Batch.results, hwork, List.filterMap_append, List.filterMap_cons, Stage.result?,
      List.map_append, List.map_cons, List.map_nil] at htold ⊢
    refine (List.perm_append_singleton _ _).trans (.trans ?_ List.perm_middle.symm)
    exact htold.cons _

/-- Other steps tell nothing. -/
theorem Numbered.silent {before after : List (Task × Stage)} {t : Task} {old new : Stage} {disk : Disk}
    (h : Numbered b) (hwork : b.work = before ++ (t, old) :: after)
    (hpending : new.pending? = old.pending?) (hresult : new.result? = old.result?) :
    Numbered { b with disk := disk, work := before ++ (t, new) :: after } := by
  obtain ⟨htotals, hnumbers, htold⟩ := h
  refine ⟨fun u hu => ?_, ?_, ?_⟩
  · rw [htotals u hu, hwork]
    simp
  · simp only [Batch.pending, hwork, List.filterMap_append, List.filterMap_cons] at hnumbers ⊢
    rw [hpending]
    exact hnumbers
  · simp only [Batch.results, hwork, List.filterMap_append, List.filterMap_cons] at htold ⊢
    rw [hresult]
    exact htold

/-- **Every step keeps the numbers in order.** -/
theorem Numbered.step (h : Numbered b) (i : Nat) : Numbered (b.step s i) := by
  cases hwork : b.work[i]? with
  | none =>
    have hstep : b.step s i = b := by unfold Batch.step; rw [hwork]
    rw [hstep]
    exact h
  | some e =>
    obtain ⟨t, stage⟩ := e
    obtain ⟨before, after, hsplit, hstep⟩ := work_step_split (s := s) hwork
    rw [hstep]
    cases stage with
    | waiting =>
      simp only [advance]
      cases Walk.generate b.disk s.config t.file with
      | error f => exact h.silent hsplit rfl rfl
      | ok m => exact h.silent hsplit rfl rfl
    | walked m => exact h.silent hsplit rfl rfl
    | finished r => exact h.counted hsplit
    | counted r number => exact h.reported hsplit
    | reported r => exact h.silent hsplit rfl rfl

/-- **After every schedule the numbers are in order.** -/
theorem numbered_run (s : Setting) (d : Disk) (tasks : List Task) (schedule : List Nat) :
    Numbered ((Batch.start d tasks).run s schedule) := by
  induction schedule using List.reverseRecOn with
  | nil => exact numbered_start d tasks
  | append_singleton schedule i ih =>
    rw [Batch.run_concat]
    exact ih.step i

end Numbered

/-! ## Reports of components -/

/-- The components with their results, and what a report makes of them: the manifests that were
generated and the failures. -/
inductive Tells : List (Task × Stage) → List Generated → List Failed → Prop where
  | nil : Tells [] [] []
  | generated {t : Task} {g : Generated} {work : List (Task × Stage)} {gs : List Generated}
    {fs : List Failed} : g.source = t.file → Tells work gs fs →
    Tells ((t, .reported (.ok g)) :: work) (g :: gs) fs
  | failed {t : Task} {f : Failure} {work : List (Task × Stage)} {gs : List Generated}
    {fs : List Failed} : Tells work gs fs →
    Tells ((t, .reported (.error f)) :: work) gs (⟨t.file, f⟩ :: fs)

/-- What is told of a manifest that was generated, and of a failure. -/
def toldOf (gs : List Generated) (fs : List Failed) : List (String × Bool) :=
  gs.map (fun g => describe (.ok g)) ++ fs.map fun f => describe (.error f.failure)

section Tells

variable {work : List (Task × Stage)} {gs : List Generated} {fs : List Failed}

theorem Tells.perm (h : Tells work gs fs) :
    (gs.map Generated.source ++ fs.map Failed.source).Perm (work.map fun e => e.1.file) := by
  induction h with
  | nil => exact .nil
  | generated hsource _ ih =>
    rw [List.map_cons, List.map_cons, List.cons_append, hsource]
    exact ih.cons _
  | failed _ ih =>
    rw [List.map_cons, List.map_cons]
    exact List.perm_middle.trans (ih.cons _)

theorem Tells.sublists (h : Tells work gs fs) :
    (gs.map Generated.source).Sublist (work.map fun e => e.1.file) ∧
      (fs.map Failed.source).Sublist (work.map fun e => e.1.file) := by
  induction h with
  | nil => exact ⟨.slnil, .slnil⟩
  | generated hsource _ ih =>
    rw [List.map_cons, List.map_cons, hsource]
    exact ⟨ih.1.cons_cons _, ih.2.cons _⟩
  | failed _ ih =>
    rw [List.map_cons, List.map_cons]
    exact ⟨ih.1.cons _, ih.2.cons_cons _⟩

/-- The results are told of in the order of the components, whether they are manifests or failures. -/
theorem Tells.results (h : Tells work gs fs) :
    ((work.filterMap fun e => e.2.result?).map describe).Perm (toldOf gs fs) := by
  induction h with
  | nil => exact .nil
  | generated _ _ ih => exact ih.cons _
  | failed _ ih => exact (ih.cons _).trans List.perm_middle.symm

/-- Nothing is left to be told when all components are reported. -/
theorem Tells.pending (h : Tells work gs fs) : work.filterMap (fun e => e.2.pending?) = [] := by
  induction h with
  | nil => rfl
  | generated _ _ ih => exact ih
  | failed _ ih => exact ih

theorem Tells.length (h : Tells work gs fs) : gs.length + fs.length = work.length := by
  simpa using h.perm.length_eq

/-- A batch whose components are all reported tells its report. -/
theorem tells_of_reported (disk : Disk) (done : Nat) (updates : List Progress)
    (h : ∀ e ∈ work, ∃ r, e.2 = Stage.reported r ∧ ∀ g, r = .ok g → g.source = e.1.file) :
    Tells work (Batch.report ⟨disk, work, done, updates⟩).generated
      (Batch.report ⟨disk, work, done, updates⟩).failures := by
  induction work with
  | nil => exact .nil
  | cons e work ih =>
    obtain ⟨t, stage⟩ := e
    obtain ⟨r, hstage, hsource⟩ := h _ (List.mem_cons_self ..)
    have hmore := ih fun e he => h e (List.mem_cons_of_mem _ he)
    simp only at hstage
    subst hstage
    cases r with
    | error f => exact .failed hmore
    | ok g => exact .generated (hsource g rfl) hmore

end Tells

/-! ## Runs -/

/-- What was told of a run over these components, and its report, when it has ended. -/
structure ToldOnce (files : List Path) (r : Report) (updates : List Progress) : Prop where
  /-- Each component is reported once, as generated or as failed. -/
  once : (r.generated.map Generated.source ++ r.failures.map Failed.source).Perm files
  generatedSorted : (r.generated.map Generated.source).Pairwise fun a b => a.precedes b = true
  failuresSorted : (r.failures.map Failed.source).Pairwise fun a b => a.precedes b = true
  total : r.total = files.length
  calls : updates.length = files.length
  totals : ∀ u ∈ updates, u.total = files.length
  numbers : (updates.map Progress.current).Perm (List.range' 1 files.length)
  told : (updates.map fun u => (u.message, u.succeeded)).Perm (toldOf r.generated r.failures)
  succeeded : (updates.filter Progress.succeeded).length = r.generated.length

section Runs

variable {schedule : Nat → List Nat} {d : Disk} {config : Config} {dir : Path} {o : Options}
  {s : Setting} {tasks : List Task} {steps : List Nat} {r : Report}

/-- The components of a batch stay what they are. -/
theorem tasks_run (s : Setting) (d : Disk) (tasks : List Task) (steps : List Nat) :
    ((Batch.start d tasks).run s steps).work.map Prod.fst = tasks := by
  refine List.ext_getElem? fun i => ?_
  rw [List.getElem?_map]
  cases hwork : ((Batch.start d tasks).run s steps).work[i]? with
  | some e => exact (history s d tasks steps hwork).1.symm
  | none =>
    rw [List.getElem?_eq_none_iff, length_work] at hwork
    have hlen : tasks.length ≤ i := by simpa [Batch.start] using hwork
    rw [List.getElem?_eq_none_iff.mpr hlen]
    rfl

/-- A batch under a fair schedule tells its report. -/
theorem tells_of_fair (hfair : Fair tasks.length steps) :
    Tells ((Batch.start d tasks).run s steps).work
      ((Batch.start d tasks).run s steps).report.generated
      ((Batch.start d tasks).run s steps).report.failures := by
  refine tells_of_reported _ _ _ fun ⟨t, stage⟩ he => ?_
  obtain ⟨i, hi⟩ := List.mem_iff_getElem?.mp he
  obtain ⟨r, hwork, hdone⟩ := reported_of_fair s d hfair (history s d tasks steps hi).1
  cases hi.symm.trans hwork
  refine ⟨r, rfl, fun g hg => ?_⟩
  subst hg
  generalize hok : (Except.ok g : Except Failure Generated) = result at hdone
  cases hdone with
  | failed _ _ => cases hok
  | @kept x _ htask _ =>
    obtain ⟨hsource, -⟩ := Save.of_result hok.symm
    rw [hsource, htask]

/-- The manifests are told of as successes. -/
theorem succeeded_toldOf (gs : List Generated) (fs : List Failed) :
    (toldOf gs fs).countP (fun told => told.2) = gs.length := by
  have hgenerated : (gs.map fun g => describe (.ok g)).countP (fun told => told.2) = gs.length := by
    rw [List.countP_map, List.countP_eq_length]
    intro g _
    rfl
  have hfailed : (fs.map fun f => describe (.error f.failure)).countP (fun told => told.2) = 0 := by
    rw [List.countP_map, List.countP_eq_zero]
    intro f _
    simp [describe]
  rw [toldOf, List.countP_append, hgenerated, hfailed, Nat.add_zero]

/-- **When all components are reported, all numbers are told**, and what is told is what the report
tells. -/
theorem Numbered.complete {b : Batch} {gs : List Generated} {fs : List Failed} (h : Numbered b)
    (htells : Tells b.work gs fs) :
    b.updates.length = b.work.length ∧
      (b.updates.map Progress.current).Perm (List.range' 1 b.work.length) ∧
      (b.updates.map fun u => (u.message, u.succeeded)).Perm (toldOf gs fs) := by
  have htold := h.told.trans htells.results
  have hcalls : b.updates.length = b.work.length := by
    have hreported := htells.length
    have htoldLength := htold.length_eq
    simp only [List.length_map, toldOf, List.length_append] at htoldLength
    omega
  have hnumbers := h.numbers
  have hpending : b.pending = [] := htells.pending
  rw [hpending, List.append_nil] at hnumbers
  -- as many numbers were handed out as are told
  have hdone : b.done = b.work.length := by
    have hnumberLength := hnumbers.length_eq
    rw [List.length_map, List.length_range'] at hnumberLength
    omega
  exact ⟨hcalls, hdone ▸ hnumbers, htold⟩

/-- What a batch under a fair schedule has told. -/
theorem told_of_fair (hfair : Fair tasks.length steps)
    (hsorted : (tasks.map Task.file).Pairwise fun a b => a.precedes b = true) :
    ToldOnce (tasks.map Task.file) ((Batch.start d tasks).run s steps).report
      ((Batch.start d tasks).run s steps).updates := by
  have htells := tells_of_fair (s := s) (d := d) hfair
  have hnumbered := numbered_run s d tasks steps
  have htasks := tasks_run s d tasks steps
  generalize (Batch.start d tasks).run s steps = b at htells hnumbered htasks ⊢
  have hfiles : b.work.map (fun e => e.1.file) = tasks.map Task.file := by
    rw [← htasks, List.map_map]
    rfl
  have hlength : b.work.length = (tasks.map Task.file).length := by rw [← hfiles, List.length_map]
  obtain ⟨hcalls, hnumbers, htold⟩ := hnumbered.complete htells
  refine ⟨hfiles ▸ htells.perm, hsorted.sublist (hfiles ▸ htells.sublists.1),
    hsorted.sublist (hfiles ▸ htells.sublists.2), htells.length.trans hlength,
    hcalls.trans hlength, fun u hu => (hnumbered.totals u hu).trans hlength, hlength ▸ hnumbers,
    htold, ?_⟩
  have hcount := htold.countP_eq fun told => told.2
  rw [succeeded_toldOf, List.countP_map] at hcount
  rw [← hcount, List.countP_eq_length_filter]
  rfl

/-- A component that is listed once is reported once, in one of the two lists. -/
theorem ToldOnce.count {files : List Path} {updates : List Progress} (h : ToldOnce files r updates)
    (hnodup : files.Nodup) {file : Path} (hfile : file ∈ files) :
    (r.generated.map Generated.source).count file + (r.failures.map Failed.source).count file = 1 := by
  rw [← List.count_append, h.once.count_eq]
  exact hnodup.count.trans (if_pos hfile)

/-- **A run over a directory reports every component once, in order, and tells of each once**, under
every fair schedule. -/
theorem directory_told_once (hfair : ∀ count, Fair count (schedule count))
    (hdir : d.isDirectory (dir.join o.input) = true)
    (hok : (runScheduled schedule d config dir o).result = .ok r) :
    ∃ files, listComponents d (dir.join o.input) = .ok files ∧
      ToldOnce files r (runScheduled schedule d config dir o).updates ∧
      (d.Listed → files.Nodup ∧ ∀ file ∈ files,
        (r.generated.map Generated.source).count file +
          (r.failures.map Failed.source).count file = 1) := by
  obtain ⟨files, hlist⟩ := listComponents_of_isDirectory hdir
  have hvalid := validate_of_ok hok
  have hfiles : (directoryTasks d dir o).map Task.file = files := by
    unfold directoryTasks
    rw [hlist, List.map_map]
    exact List.map_id files
  rw [runScheduled_directory hvalid hdir] at hok ⊢
  cases hok
  have htold := told_of_fair (s := directorySetting config dir o) (d := d)
    (hfair (directoryTasks d dir o).length) (hfiles ▸ listComponents_sorted hlist)
  rw [hfiles] at htold
  refine ⟨files, hlist, htold, fun hd => ?_⟩
  have hnodup := listComponents_nodup hd hlist
  exact ⟨hnodup, fun file hfile => htold.count hnodup hfile⟩

/-- A component, and one that imports itself. -/
def mixed : Disk := .ofTexts [
  ("p/package.json", "\x7b\x7d"),
  ("p/ui/button.ts", ""),
  ("p/ui/card.ts", "import './card';")]

def mixedFiles : List Path := [Path.ofString "/p/ui/button.ts", Path.ofString "/p/ui/card.ts"]

def mixedReport : Report where
  kind := .directory
  generated := [⟨Path.ofString "/p/ui/button.ts", bareManifest "button" "ui/button.ts",
    some (Path.ofString "ui/registry/button.json")⟩]
  failures := [⟨Path.ofString "/p/ui/card.ts", .generation (Path.ofString "/p/ui/card.ts")
    (.circularDependency "ui/card.ts -> ui/card.ts")⟩]

theorem mixed_list : listComponents mixed ((Path.ofString "/p").join uiOptions.input) =
    .ok mixedFiles := by
  have hlocate : mixed.locate ((Path.ofString "/p").join uiOptions.input) =
      .ok (Disk.locationOf "p/ui") := by
    decide +kernel
  exact listComponents_of_sorted hlocate (by decide +kernel) (by decide +kernel)

theorem mixed_result :
    (runScheduled lastFirst mixed .unset (Path.ofString "/p") uiOptions).result = .ok mixedReport := by
  rw [runScheduled_directory (by decide +kernel) (by decide +kernel), directoryBatch, directoryTasks,
    mixed_list]
  decide +kernel

theorem mixed_told_once :
    (runScheduled lastFirst mixed .unset (Path.ofString "/p") uiOptions).result = .ok mixedReport ∧
      listComponents mixed ((Path.ofString "/p").join uiOptions.input) = .ok mixedFiles ∧
      ToldOnce mixedFiles mixedReport
        (runScheduled lastFirst mixed .unset (Path.ofString "/p") uiOptions).updates ∧
      mixed.Listed := by
  obtain ⟨files, hfiles, htold, -⟩ :=
    directory_told_once fair_lastFirst (by decide +kernel) mixed_result
  cases hfiles.symm.trans mixed_list
  exact ⟨mixed_result, mixed_list, htold, by decide +kernel⟩

end Runs

end ComponentRegistry.Generate
