import ComponentRegistry.Proofs.Generate.Outputs
import ComponentRegistry.Proofs.Generate.Rerun

/-!
# Runs under different schedules

The components of a run share the disk, and they meet on it in two ways: they write outputs, and a
walk reads what stands there.  If every output can be written at a place of its own the writing does
not matter: what is kept depends on the walks only (`Chain.filled`, `Done.eq_map`).  So two schedules
agree exactly if each walk finds the same under both (`schedules_agree_iff`).  A walk may find an
output that was saved before it, so they need not.
-/

namespace ComponentRegistry

namespace Disk

/-- The same nodes stand at the same places. -/
structure Same (d d' : Disk) : Prop where
  workingDirectory : d'.workingDirectory = d.workingDirectory
  node : ∀ l, d'.node? l = d.node? l

theorem Same.refl (d : Disk) : Same d d := ⟨rfl, fun _ => rfl⟩

end Disk

namespace Generate

/-! ## Outputs at places of their own -/

/-- The outputs of the components are apart: the same directories are missing for all of them and
can be made, and then each can be written, at a place of its own. -/
structure Apart (s : Setting) (d : Disk) (tasks : List Task) (ready : Disk) (place : Task → Location) :
    Prop where
  made : ∀ t ∈ tasks, makeAbove d (s.output t) = (.ok (), ready)
  writable : ∀ t ∈ tasks, ready.Writable (s.output t) (place t)
  distinct : (tasks.map place).Nodup

/-- Nothing but manifests in the places of outputs was written on the disk. -/
structure Over (tasks : List Task) (ready : Disk) (place : Task → Location) (e : Disk) : Prop where
  workingDirectory : e.workingDirectory = ready.workingDirectory
  node : ∀ l, e.node? l = ready.node? l ∨
    ((∃ t ∈ tasks, l = place t) ∧ ∃ text, e.node? l = some (.file (.text text)))

/-- The disk with the manifests in the places of their outputs. -/
def filled (place : Task → Location) (xs : List Save) (ready : Disk) : Disk :=
  xs.foldl (fun e x => e.put (place x.task) (.file (.text x.manifest.pretty))) ready

section Filling

variable {s : Setting} {d e e' ready : Disk} {tasks : List Task} {place : Task → Location}
  {xs ys : List Save} {x : Save} {t : Task} {l : Location} {m : Manifest}

theorem Over.refl (tasks : List Task) (ready : Disk) (place : Task → Location) :
    Over tasks ready place ready :=
  ⟨rfl, fun _ => Or.inl rfl⟩

theorem Over.put (h : Over tasks ready place e) (ht : t ∈ tasks) (hne : place t ≠ []) (text : String) :
    Over tasks ready place (e.put (place t) (.file (.text text))) := by
  refine ⟨(Disk.workingDirectory_put ..).trans h.workingDirectory, fun l => ?_⟩
  rw [Disk.node?_put e hne]
  by_cases hl : l = place t
  · rw [if_pos hl]
    exact Or.inr ⟨⟨t, ht, hl⟩, text, rfl⟩
  · rw [if_neg hl]
    exact h.node l

theorem Over.grows (h : Over tasks ready place e) (hapart : Apart s d tasks ready place) :
    ready.Grows e := by
  refine ⟨h.workingDirectory, fun l n hn => ?_⟩
  rcases h.node l with hsame | ⟨⟨t, ht, rfl⟩, text, htext⟩
  · exact ⟨n, hsame.trans hn, .refl n⟩
  · refine ⟨_, htext, ?_⟩
    rcases (hapart.writable t ht).fitsFile with hfree | ⟨content, hfile⟩
    · rw [hfree] at hn; cases hn
    · rw [hfile] at hn
      cases hn
      exact .file content _

/-- Each output can still be written at its place. -/
theorem Over.writable (h : Over tasks ready place e) (hapart : Apart s d tasks ready place)
    (ht : t ∈ tasks) : e.Writable (s.output t) (place t) := by
  refine (hapart.writable t ht).grows (h.grows hapart) ?_
  rcases h.node (place t) with hsame | ⟨-, text, htext⟩
  · unfold Disk.FitsFile
    rw [hsame]
    exact (hapart.writable t ht).fitsFile
  · exact Or.inr ⟨_, htext⟩

/-- Nothing hinders the keeping of these. -/
def AllKept (s : Setting) (xs : List Save) : Prop :=
  ∀ x ∈ xs, x.result s = .ok (told s x.task x.manifest)

theorem AllKept.nil : AllKept s [] := fun _ hx => absurd hx List.not_mem_nil

/-- What saving at a place comes to. -/
theorem Save.of_writable (hraw : s.rawJson = false)
    (hmade : makeAbove x.disk (s.output x.task) = (.ok (), ready))
    (hw : ready.Writable (s.output x.task) l) :
    x.result s = .ok (told s x.task x.manifest) ∧
      x.after s = ready.put l (.file (.text x.manifest.pretty)) := by
  unfold Save.result Save.after
  rw [keep_of_writable hraw hmade hw]
  exact ⟨rfl, rfl⟩

/-- Keeping manifests one after the other puts them in their places. -/
theorem Chain.filled_of_over (hapart : Apart s d tasks ready place) (hraw : s.rawJson = false)
    (h : Chain s e xs e') (hover : Over tasks ready place e) (hxs : ∀ x ∈ xs, x.task ∈ tasks) :
    AllKept s xs ∧ e' = Generate.filled place xs e := by
  induction h with
  | nil => exact ⟨.nil, rfl⟩
  | @cons x more e' _ ih =>
    have ht := hxs x (List.mem_cons_self ..)
    have hwritable := hover.writable hapart ht
    obtain ⟨hresult, hafter⟩ := Save.of_writable hraw
      (makeAbove_again (hapart.made _ ht) (hover.grows hapart)) hwritable
    obtain ⟨hresults, rfl⟩ := ih (hafter ▸ hover.put ht hwritable.ne_nil _)
      fun y hy => hxs y (List.mem_cons_of_mem _ hy)
    exact ⟨List.forall_mem_cons.mpr ⟨hresult, hresults⟩, by rw [hafter]; rfl⟩

/-- **What keeping manifests comes to**: all of them are kept, and they stand in their places. -/
theorem Chain.filled (hapart : Apart s d tasks ready place) (hraw : s.rawJson = false)
    (h : Chain s d xs e) (hxs : ∀ x ∈ xs, x.task ∈ tasks) :
    AllKept s xs ∧
      e = if xs = [] then d else Generate.filled place xs ready := by
  cases h with
  | nil => exact ⟨.nil, by simp⟩
  | @cons x more _ hmore =>
    have ht := hxs x (List.mem_cons_self ..)
    have hwritable := hapart.writable _ ht
    -- the first one makes the directories
    obtain ⟨hresult, hafter⟩ := Save.of_writable hraw (hapart.made _ ht) hwritable
    rw [hafter] at hmore
    obtain ⟨hresults, rfl⟩ := hmore.filled_of_over hapart hraw
      ((Over.refl tasks ready place).put ht hwritable.ne_nil _)
      fun y hy => hxs y (List.mem_cons_of_mem _ hy)
    exact ⟨List.forall_mem_cons.mpr ⟨hresult, hresults⟩, by rw [if_neg (by simp)]; rfl⟩

/-- If nothing is saved the disk stays as it is. -/
theorem Chain.of_rawJson (hraw : s.rawJson = true) (h : Chain s d xs e) :
    AllKept s xs ∧ e = d := by
  induction h with
  | nil => exact ⟨.nil, rfl⟩
  | @cons x more e _ ih =>
    have hkeep : keep s x.task x.manifest x.disk = (.ok (told s x.task x.manifest), x.disk) :=
      keep_of_rawJson hraw
    have hafter : x.after s = x.disk := by unfold Save.after; rw [hkeep]
    have hresult : x.result s = .ok (told s x.task x.manifest) := by unfold Save.result; rw [hkeep]
    exact ⟨List.forall_mem_cons.mpr ⟨hresult, ih.1⟩, ih.2.trans hafter⟩

/-- In the place of a manifest stands what was put there last. -/
theorem node?_filled_mem (hne : ∀ x ∈ xs, place x.task ≠ [])
    (hsame : ∀ x ∈ xs, place x.task = l → x.manifest = m)
    (h : (∃ x ∈ xs, place x.task = l) ∨ e.node? l = some (.file (.text m.pretty))) :
    (filled place xs e).node? l = some (.file (.text m.pretty)) := by
  induction xs generalizing e with
  | nil => simpa [filled] using h
  | cons x xs ih =>
    obtain ⟨hx, hxs⟩ := List.forall_mem_cons.mp hne
    obtain ⟨hsamex, hsamexs⟩ := List.forall_mem_cons.mp hsame
    refine ih hxs hsamexs ?_
    rw [Disk.node?_put e hx]
    by_cases hl : l = place x.task
    · rw [if_pos hl, hsamex hl.symm]
      exact Or.inr rfl
    · rw [if_neg hl]
      rcases h with ⟨y, hy, hyl⟩ | h
      · rcases List.mem_cons.mp hy with rfl | hy
        · exact absurd hyl.symm hl
        · exact Or.inl ⟨y, hy, hyl⟩
      · exact Or.inr h

theorem node?_filled_other (hne : ∀ x ∈ xs, place x.task ≠ []) (h : ∀ x ∈ xs, place x.task ≠ l) :
    (filled place xs e).node? l = e.node? l := by
  induction xs generalizing e with
  | nil => rfl
  | cons x xs ih =>
    obtain ⟨hx, hxs⟩ := List.forall_mem_cons.mp hne
    obtain ⟨hl, hls⟩ := List.forall_mem_cons.mp h
    refine (ih hxs hls).trans ?_
    rw [Disk.node?_put e hx, if_neg (Ne.symm hl)]

theorem workingDirectory_filled (place : Task → Location) (xs : List Save) (e : Disk) :
    (filled place xs e).workingDirectory = e.workingDirectory := by
  induction xs generalizing e with
  | nil => rfl
  | cons x xs ih => exact (ih _).trans (Disk.workingDirectory_put ..)

/-- The same manifests in the same places. -/
def Agree (xs ys : List Save) : Prop := ∀ x ∈ xs, ∃ y ∈ ys, y.task = x.task ∧ y.manifest = x.manifest

/-- **The order in which manifests are put in places of their own does not matter.** -/
theorem same_filled (hne : ∀ t ∈ tasks, place t ≠ []) (hxs : ∀ x ∈ xs, x.task ∈ tasks)
    (hys : ∀ y ∈ ys, y.task ∈ tasks)
    (hone : ∀ x ∈ xs, ∀ x' ∈ xs, place x.task = place x'.task → x = x')
    (hone' : ∀ y ∈ ys, ∀ y' ∈ ys, place y.task = place y'.task → y = y')
    (h : Agree xs ys) (h' : Agree ys xs) : Disk.Same (filled place xs e) (filled place ys e) := by
  have hnex : ∀ x ∈ xs, place x.task ≠ [] := fun x hx => hne _ (hxs x hx)
  have hney : ∀ y ∈ ys, place y.task ≠ [] := fun y hy => hne _ (hys y hy)
  refine ⟨by rw [workingDirectory_filled, workingDirectory_filled], fun l => ?_⟩
  by_cases hl : ∃ x ∈ xs, place x.task = l
  · obtain ⟨x, hx, rfl⟩ := hl
    obtain ⟨y, hy, htask, hmanifest⟩ := h x hx
    rw [node?_filled_mem (m := x.manifest) hnex
        (fun x' hx' hplace => congrArg _ (hone x' hx' x hx hplace)) (.inl ⟨x, hx, rfl⟩),
      node?_filled_mem (m := x.manifest) hney (fun y' hy' hplace => ?_)
        (.inl ⟨y, hy, congrArg place htask⟩)]
    rw [← hmanifest, hone' y' hy' y hy (hplace.trans (congrArg place htask).symm)]
  · rw [node?_filled_other hnex fun x hx hplace => hl ⟨x, hx, hplace⟩,
      node?_filled_other hney fun y hy hplace => ?_]
    obtain ⟨x, hx, htask, -⟩ := h' y hy
    exact hl ⟨x, hx, (congrArg place htask).trans hplace⟩

end Filling

/-! ## Reports -/

/-- What becomes of a component is what its walk found, if nothing hinders the keeping. -/
theorem Done.eq_map {s : Setting} {walkedOn : Disk} {xs : List Save} {i : Nat} {t : Task}
    {r : Except Failure Generated} (h : Done s walkedOn xs i t r)
    (hkept : AllKept s xs) :
    r = (Walk.generate walkedOn s.config t.file).map (told s t) := by
  cases h with
  | failed hwalk _ => rw [hwalk]; rfl
  | @kept x hwalk htask hone =>
    have hx : x ∈ xs := (List.mem_filter.mp (hone ▸ List.mem_singleton_self x : x ∈ savesOf xs i)).1
    rw [hwalk, hkept x hx, htask]
    rfl

theorem Batch.mem_failures {b : Batch} {file : Path} {f : Failure} :
    ⟨file, f⟩ ∈ b.report.failures ↔
      ∃ (i : Nat) (t : Task), b.work[i]? = some (t, Stage.reported (.error f)) ∧ t.file = file := by
  simp only [Batch.report, List.mem_filterMap]
  constructor
  · rintro ⟨⟨t, stage⟩, hmem, hfailed⟩
    obtain ⟨i, hi⟩ := List.mem_iff_getElem?.mp hmem
    rcases stage with - | m | r | ⟨r, n⟩ | ⟨f' | g⟩
    · cases hfailed
    · cases hfailed
    · cases hfailed
    · cases hfailed
    · cases hfailed
      exact ⟨i, t, hi, rfl⟩
    · cases hfailed
  · rintro ⟨i, t, hi, rfl⟩
    exact ⟨_, List.mem_of_getElem? hi, rfl⟩

section Reports

variable {s : Setting} {d : Disk} {tasks : List Task} {σ τ : List Nat} {i : Nat} {t : Task}

/-- What a component of a batch is reported with. -/
def reportedOf (s : Setting) (d : Disk) (tasks : List Task) (schedule : List Nat) (i : Nat) (t : Task) :
    Except Failure Generated :=
  (Walk.generate (walkDisk s (Batch.start d tasks) schedule i) s.config t.file).map (told s t)

theorem source_of_reportedOf {g : Generated} (h : reportedOf s d tasks σ i t = .ok g) :
    g.source = t.file := by
  unfold reportedOf at h
  cases hwalk : Walk.generate (walkDisk s (Batch.start d tasks) σ i) s.config t.file with
  | error f => rw [hwalk] at h; cases h
  | ok m => rw [hwalk] at h; cases h; rfl

/-- Under a fair schedule, and if nothing hinders the keeping, each component is reported with what
its walk found. -/
theorem work_of_fair (hfair : Fair tasks.length σ)
    (hkept : AllKept s ((Batch.start d tasks).saves s σ)) :
    ((Batch.start d tasks).run s σ).work[i]? =
      tasks[i]?.map fun t => (t, Stage.reported (reportedOf s d tasks σ i t)) := by
  cases ht : tasks[i]? with
  | some t =>
    obtain ⟨r, hwork, hdone⟩ := reported_of_fair s d hfair ht
    rw [hwork, hdone.eq_map hkept]
    rfl
  | none =>
    have hlen : tasks.length ≤ i := List.getElem?_eq_none_iff.mp ht
    rw [List.getElem?_eq_none_iff.mpr]
    · rfl
    · rw [length_work]
      simpa [Batch.start] using hlen

/-- Batches report the same if every walk finds the same. -/
theorem report_congr (hσ : Fair tasks.length σ) (hτ : Fair tasks.length τ)
    (hkeptσ : AllKept s ((Batch.start d tasks).saves s σ))
    (hkeptτ : AllKept s ((Batch.start d tasks).saves s τ))
    (h : ∀ i t, tasks[i]? = some t →
      Walk.generate (walkDisk s (Batch.start d tasks) σ i) s.config t.file =
        Walk.generate (walkDisk s (Batch.start d tasks) τ i) s.config t.file) :
    ((Batch.start d tasks).run s σ).report = ((Batch.start d tasks).run s τ).report := by
  have hwork : ((Batch.start d tasks).run s σ).work = ((Batch.start d tasks).run s τ).work := by
    refine List.ext_getElem? fun i => ?_
    rw [work_of_fair hσ hkeptσ, work_of_fair hτ hkeptτ]
    cases ht : tasks[i]? with
    | none => rfl
    | some t =>
      unfold reportedOf
      rw [Option.map_some, Option.map_some, h i t ht]
  unfold Batch.report
  rw [hwork]

/-- A component of the same file is the same component. -/
theorem reportedOf_of_file {j : Nat} {u : Task} {stage : Stage} (hσ : Fair tasks.length σ)
    (hkept : AllKept s ((Batch.start d tasks).saves s σ)) (hfiles : (tasks.map Task.file).Nodup)
    (ht : tasks[i]? = some t) (hfile : u.file = t.file)
    (hwork : ((Batch.start d tasks).run s σ).work[j]? = some (u, stage)) :
    stage = .reported (reportedOf s d tasks σ i t) := by
  rw [work_of_fair hσ hkept] at hwork
  obtain ⟨u', hu, heq⟩ := Option.map_eq_some_iff.mp hwork
  cases heq
  have hlen : i < (tasks.map Task.file).length := by
    rw [List.length_map]
    exact (List.getElem?_eq_some_iff.mp ht).1
  have hij : i = j := by
    refine (List.getElem?_inj hlen hfiles).mp ?_
    rw [List.getElem?_map, List.getElem?_map, ht, hu, Option.map_some, Option.map_some, hfile]
  subst hij
  rw [Option.some.inj (hu.symm.trans ht)]

/-- What a component is reported with can be told from the report, if its file is its own. -/
theorem reportedOf_congr (hσ : Fair tasks.length σ) (hτ : Fair tasks.length τ)
    (hkeptσ : AllKept s ((Batch.start d tasks).saves s σ))
    (hkeptτ : AllKept s ((Batch.start d tasks).saves s τ))
    (hfiles : (tasks.map Task.file).Nodup)
    (h : ((Batch.start d tasks).run s σ).report = ((Batch.start d tasks).run s τ).report)
    (ht : tasks[i]? = some t) : reportedOf s d tasks σ i t = reportedOf s d tasks τ i t := by
  have hworkσ := work_of_fair hσ hkeptσ (i := i)
  rw [ht, Option.map_some] at hworkσ
  cases hr : reportedOf s d tasks σ i t with
  | ok g =>
    rw [hr] at hworkσ
    have hmem := Batch.mem_generated.mpr ⟨i, t, hworkσ⟩
    rw [h] at hmem
    obtain ⟨j, u, hwork⟩ := Batch.mem_generated.mp hmem
    have hworkτ := hwork
    rw [work_of_fair hτ hkeptτ] at hworkτ
    obtain ⟨u', -, heq⟩ := Option.map_eq_some_iff.mp hworkτ
    obtain ⟨rfl, hreported⟩ := Prod.mk.inj heq
    have hfile : u'.file = t.file :=
      (source_of_reportedOf (Stage.reported.inj hreported)).symm.trans (source_of_reportedOf hr)
    exact Stage.reported.inj (reportedOf_of_file hτ hkeptτ hfiles ht hfile hwork)
  | error f =>
    rw [hr] at hworkσ
    have hmem := Batch.mem_failures.mpr ⟨i, t, hworkσ, rfl⟩
    rw [h] at hmem
    obtain ⟨j, u, hwork, hfile⟩ := Batch.mem_failures.mp hmem
    exact Stage.reported.inj (reportedOf_of_file hτ hkeptτ hfiles ht hfile hwork)

/-- Walks that are reported alike found the same. -/
theorem walk_of_reportedOf (h : reportedOf s d tasks σ i t = reportedOf s d tasks τ i t) :
    Walk.generate (walkDisk s (Batch.start d tasks) σ i) s.config t.file =
      Walk.generate (walkDisk s (Batch.start d tasks) τ i) s.config t.file := by
  unfold reportedOf at h
  cases hσ : Walk.generate (walkDisk s (Batch.start d tasks) σ i) s.config t.file with
  | error f =>
    cases hτ : Walk.generate (walkDisk s (Batch.start d tasks) τ i) s.config t.file with
    | error f' => rw [hσ, hτ] at h; cases h; rfl
    | ok m' => rw [hσ, hτ] at h; cases h
  | ok m =>
    cases hτ : Walk.generate (walkDisk s (Batch.start d tasks) τ i) s.config t.file with
    | error f' => rw [hσ, hτ] at h; cases h
    | ok m' => rw [hσ, hτ] at h; cases h; rfl

end Reports

/-! ## Schedules -/

section Schedules

variable {s : Setting} {d ready : Disk} {tasks : List Task} {place : Task → Location}
  {σ τ : List Nat} {x : Save}

/-- If every walk finds the same, the same manifests are kept. -/
theorem agree_of_walks (hσ : Fair tasks.length σ) (hτ : Fair tasks.length τ)
    (h : ∀ i t, tasks[i]? = some t →
      Walk.generate (walkDisk s (Batch.start d tasks) σ i) s.config t.file =
        Walk.generate (walkDisk s (Batch.start d tasks) τ i) s.config t.file) :
    Agree ((Batch.start d tasks).saves s σ) ((Batch.start d tasks).saves s τ) := by
  intro x hx
  have ht := Batch.mem_saves hx
  obtain ⟨-, -, hwalk⟩ := Batch.reported_of_save hσ hx
  rw [h _ _ ht] at hwalk
  obtain ⟨r, -, hdone⟩ := reported_of_fair s d hτ ht
  cases hdone with
  | failed hfailed _ => rw [hwalk] at hfailed; cases hfailed
  | @kept y hfound htask hone =>
    have hy : y ∈ savesOf ((Batch.start d tasks).saves s τ) x.place := by
      rw [hone]
      exact List.mem_singleton_self y
    exact ⟨y, (List.mem_filter.mp hy).1, htask, Except.ok.inj (hfound.symm.trans hwalk)⟩

theorem task_mem_of_mem_saves (hx : x ∈ (Batch.start d tasks).saves s σ) : x.task ∈ tasks :=
  List.mem_of_getElem? (Batch.mem_saves hx)

/-- Manifests in one place are of one component. -/
theorem Apart.once (hapart : Apart s d tasks ready place) (hσ : Fair tasks.length σ) :
    ∀ x ∈ (Batch.start d tasks).saves s σ, ∀ y ∈ (Batch.start d tasks).saves s σ,
      place x.task = place y.task → x = y := by
  intro x hx y hy hplace
  have htx := Batch.mem_saves hx
  have hty := Batch.mem_saves hy
  refine (Batch.ended hσ).once x hx y hy ?_
  have hlen : x.place < (tasks.map place).length := by
    rw [List.length_map]
    exact (List.getElem?_eq_some_iff.mp htx).1
  refine (List.getElem?_inj hlen hapart.distinct).mp ?_
  rw [List.getElem?_map, List.getElem?_map, htx, hty, Option.map_some, Option.map_some, hplace]

/-- **If every walk finds the same, the disks are the same in the end.** -/
theorem same_of_walks (hapart : Apart s d tasks ready place) (hraw : s.rawJson = false)
    (hσ : Fair tasks.length σ) (hτ : Fair tasks.length τ)
    (h : ∀ i t, tasks[i]? = some t →
      Walk.generate (walkDisk s (Batch.start d tasks) σ i) s.config t.file =
        Walk.generate (walkDisk s (Batch.start d tasks) τ i) s.config t.file) :
    Disk.Same ((Batch.start d tasks).run s σ).disk ((Batch.start d tasks).run s τ).disk := by
  have hagree := agree_of_walks hσ hτ h
  have hagree' := agree_of_walks hτ hσ fun i t ht => (h i t ht).symm
  obtain ⟨-, hendσ⟩ := ((Batch.start d tasks).chain_saves s σ).filled hapart hraw
    fun x hx => task_mem_of_mem_saves hx
  obtain ⟨-, hendτ⟩ := ((Batch.start d tasks).chain_saves s τ).filled hapart hraw
    fun x hx => task_mem_of_mem_saves hx
  rw [hendσ, hendτ]
  by_cases hnil : (Batch.start d tasks).saves s σ = []
  · have hnil' : (Batch.start d tasks).saves s τ = [] := by
      rw [List.eq_nil_iff_forall_not_mem]
      intro y hy
      obtain ⟨x, hx, -⟩ := hagree' y hy
      rw [hnil] at hx
      cases hx
    rw [if_pos hnil, if_pos hnil']
    exact .refl _
  · have hnil' : (Batch.start d tasks).saves s τ ≠ [] := by
      intro hnil'
      obtain ⟨x, hx⟩ := List.exists_mem_of_ne_nil _ hnil
      obtain ⟨y, hy, -⟩ := hagree x hx
      rw [hnil'] at hy
      cases hy
    rw [if_neg hnil, if_neg hnil']
    exact same_filled (fun t ht => (hapart.writable t ht).ne_nil)
      (fun x hx => task_mem_of_mem_saves hx) (fun y hy => task_mem_of_mem_saves hy)
      (hapart.once hσ) (hapart.once hτ) hagree hagree'

end Schedules

/-- The task of a component of a directory is told by its file. -/
theorem directoryTasks_inj {d : Disk} {dir : Path} {o : Options} {t u : Task}
    (ht : t ∈ directoryTasks d dir o) (hu : u ∈ directoryTasks d dir o) (h : t.file = u.file) :
    t = u := by
  obtain ⟨file, -, rfl⟩ := List.mem_map.mp ht
  obtain ⟨file', -, rfl⟩ := List.mem_map.mp hu
  cases h
  rfl

/-- The files of components whose outputs are apart are different ones. -/
theorem nodup_files {s : Setting} {d ready : Disk} {dir : Path} {o : Options}
    {place : Task → Location} (h : Apart s d (directoryTasks d dir o) ready place) :
    ((directoryTasks d dir o).map Task.file).Nodup := by
  have hdistinct := h.distinct
  rw [List.Nodup, List.pairwise_map] at hdistinct ⊢
  refine hdistinct.imp_of_mem fun {t u} ht hu hne hfile => hne ?_
  rw [directoryTasks_inj ht hu hfile]

/-- **Outputs of different names are apart in a plain directory**: it can be made, and where an output
belongs nothing stands or a file. -/
theorem apart_of_names {d ready : Disk} {config : Config} {dir : Path} {o : Options} {l : Location}
    (hmade : ∀ t ∈ directoryTasks d dir o,
      makeAbove d ((directorySetting config dir o).output t) = (.ok (), ready))
    (hl : ready.locate (directorySetting config dir o).outputDir = .ok l)
    (hd : ready.node? l = some .directory)
    (haccepted : ∀ t ∈ directoryTasks d dir o,
      Disk.refusal? ((directorySetting config dir o).output t) = none)
    (hshort : ∀ t ∈ directoryTasks d dir o,
      ¬ Disk.nameLimit < Text.byteCount (Path.ofString t.outputName).glyphs)
    (hfits : ∀ t ∈ directoryTasks d dir o,
      ready.FitsFile (l ++ [(Path.ofString t.outputName).glyphs]))
    (hnames : ((directoryTasks d dir o).map Task.outputName).Nodup) :
    Apart (directorySetting config dir o) d (directoryTasks d dir o) ready
      fun t => l ++ [(Path.ofString t.outputName).glyphs] := by
  refine ⟨hmade, fun t ht => ?_, ?_⟩
  · have hproper : Disk.Proper (Path.ofString t.outputName).glyphs := by
      obtain ⟨file, -, rfl⟩ := List.mem_map.mp ht
      have hshort' := hshort _ ht
      rw [glyphs_outputName] at hshort' ⊢
      exact proper_outputName hshort'
    exact Disk.writable_of_directory hl hd hproper (haccepted t ht) (hfits t ht)
  · rw [List.Nodup, List.pairwise_map] at hnames ⊢
    refine hnames.imp fun {t u} hne hplace => hne ?_
    have hglyphs : t.outputName.toList.map Text.Glyph.char = u.outputName.toList.map Text.Glyph.char :=
      List.singleton_inj.mp (List.append_cancel_left hplace)
    exact String.toList_inj.mp (List.map_injective_iff.mpr (fun _ _ => Text.Glyph.char.inj) hglyphs)

/-- Without saving all schedules agree. -/
theorem agree_of_rawJson {s : Setting} {σ τ : List Nat} (d : Disk) (tasks : List Task)
    (hraw : s.rawJson = true) (hσ : Fair tasks.length σ) (hτ : Fair tasks.length τ) :
    ((Batch.start d tasks).run s σ).report = ((Batch.start d tasks).run s τ).report ∧
      Disk.Same ((Batch.start d tasks).run s σ).disk ((Batch.start d tasks).run s τ).disk ∧
      ∀ i t, tasks[i]? = some t →
        Walk.generate (walkDisk s (Batch.start d tasks) σ i) s.config t.file =
          Walk.generate (walkDisk s (Batch.start d tasks) τ i) s.config t.file := by
  have hdisk : ∀ ρ, ((Batch.start d tasks).run s ρ).disk = d := fun ρ =>
    (((Batch.start d tasks).chain_saves s ρ).of_rawJson hraw).2
  have hkept : ∀ ρ, AllKept s ((Batch.start d tasks).saves s ρ) := fun ρ =>
    (((Batch.start d tasks).chain_saves s ρ).of_rawJson hraw).1
  have hwalks : ∀ i t, tasks[i]? = some t →
      Walk.generate (walkDisk s (Batch.start d tasks) σ i) s.config t.file =
        Walk.generate (walkDisk s (Batch.start d tasks) τ i) s.config t.file := by
    intro i t _
    unfold walkDisk
    rw [hdisk, hdisk]
  refine ⟨report_congr hσ hτ (hkept σ) (hkept τ) hwalks, ?_, hwalks⟩
  rw [hdisk, hdisk]
  exact .refl d

section Runs

variable {σ τ : Nat → List Nat} {d : Disk} {config : Config} {dir : Path} {o : Options}

/-- **Two schedules of a run over a directory agree exactly if each walk finds the same under both**,
provided that outputs are not saved or are apart. -/
theorem schedules_agree_iff (hσ : ∀ count, Fair count (σ count)) (hτ : ∀ count, Fair count (τ count))
    (hvalid : o.validate d dir = .ok ()) (hdir : d.isDirectory (dir.join o.input) = true)
    (hapart : o.rawJson = true ∨ ∃ ready place,
      Apart (directorySetting config dir o) d (directoryTasks d dir o) ready place) :
    (runScheduled σ d config dir o).result = (runScheduled τ d config dir o).result ∧
        Disk.Same (runScheduled σ d config dir o).disk (runScheduled τ d config dir o).disk ↔
      ∀ i t, (directoryTasks d dir o)[i]? = some t →
        Walk.generate (walkDisk (directorySetting config dir o) (directoryBatch d dir o)
            (σ (directoryTasks d dir o).length) i) config t.file =
          Walk.generate (walkDisk (directorySetting config dir o) (directoryBatch d dir o)
            (τ (directoryTasks d dir o).length) i) config t.file := by
  rw [runScheduled_directory hvalid hdir, runScheduled_directory hvalid hdir]
  have hfairσ := hσ (directoryTasks d dir o).length
  have hfairτ := hτ (directoryTasks d dir o).length
  generalize σ (directoryTasks d dir o).length = σ' at hfairσ
  generalize τ (directoryTasks d dir o).length = τ' at hfairτ
  by_cases hraw : o.rawJson = true
  · obtain ⟨hreport, hdisk, hwalks⟩ := agree_of_rawJson (s := directorySetting config dir o) d
      (directoryTasks d dir o) hraw hfairσ hfairτ
    exact iff_of_true ⟨congrArg Except.ok hreport, hdisk⟩ hwalks
  · obtain ⟨ready, place, hapart⟩ := hapart.resolve_left hraw
    have hsaving : (directorySetting config dir o).rawJson = false := Bool.not_eq_true _ ▸ hraw
    have hkept : ∀ ρ, AllKept (directorySetting config dir o)
        ((directoryBatch d dir o).saves (directorySetting config dir o) ρ) := fun ρ =>
      (((directoryBatch d dir o).chain_saves _ ρ).filled hapart hsaving
        fun x hx => task_mem_of_mem_saves hx).1
    constructor
    · rintro ⟨hresult, -⟩ i t ht
      exact walk_of_reportedOf (reportedOf_congr hfairσ hfairτ (hkept σ') (hkept τ')
        (nodup_files hapart) (Except.ok.inj hresult) ht)
    · intro hwalks
      exact ⟨congrArg Except.ok (report_congr hfairσ hfairτ (hkept σ') (hkept τ') hwalks),
        same_of_walks hapart hsaving hfairσ hfairτ hwalks⟩

end Runs

/-! ## Two orders -/

/-- One component after the other, from the last one to the first. -/
def lastFirst (count : Nat) : List Nat := (inOrder count).reverse

theorem fair_lastFirst (count : Nat) : Fair count (lastFirst count) := by
  intro i hi
  unfold lastFirst
  rw [List.count_reverse]
  exact fair_inOrder count i hi

/-- Two components, one of which imports the other. -/
def couple : Disk := .ofTexts [
  ("p/package.json", "\x7b\x7d"),
  ("p/ui/button.js", ""),
  ("p/ui/card.js", "import './button';")]

def coupleTasks : List Task :=
  [⟨Path.ofString "/p/ui/button.js", "button.json"⟩, ⟨Path.ofString "/p/ui/card.js", "card.json"⟩]

/-- The couple when its directory for outputs is made. -/
def coupleReady : Disk := couple.put (Disk.locationOf "p/ui/registry") .directory

theorem couple_tasks : directoryTasks couple (Path.ofString "/p") uiOptions = coupleTasks := by
  have hlocate : couple.locate ((Path.ofString "/p").join uiOptions.input) =
      .ok (Disk.locationOf "p/ui") := by
    decide +kernel
  rw [directoryTasks_of_sorted [Path.ofString "/p/ui/button.js", Path.ofString "/p/ui/card.js"]
    hlocate (by decide +kernel) (by decide +kernel)]
  decide +kernel

/-- The outputs of the couple have different names. -/
theorem couple_apart : Apart (directorySetting .unset (Path.ofString "/p") uiOptions) couple
    (directoryTasks couple (Path.ofString "/p") uiOptions) coupleReady
    fun t => Disk.locationOf "p/ui/registry" ++ [(Path.ofString t.outputName).glyphs] := by
  refine apart_of_names ?_ (by decide +kernel) (by decide +kernel) ?_ ?_ ?_ ?_
  all_goals rw [couple_tasks]
  · decide +kernel
  · decide +kernel
  · decide +kernel
  · intro t ht
    left
    revert t
    decide +kernel
  · decide +kernel

/-- The walk from a component of the couple under a schedule. -/
def coupleWalk (schedule : List Nat) (i : Nat) (t : Task) : Except Failure Manifest :=
  Walk.generate (walkDisk (directorySetting .unset (Path.ofString "/p") uiOptions)
    (directoryBatch couple (Path.ofString "/p") uiOptions) schedule i) .unset t.file

theorem couple_walks {i : Nat} {t : Task} (ht : coupleTasks[i]? = some t) :
    ∃ m, coupleWalk (inOrder 2) i t = .ok m ∧ coupleWalk (lastFirst 2) i t = .ok m := by
  unfold coupleWalk directoryBatch
  rw [couple_tasks]
  match i with
  | 0 =>
    cases ht
    refine ⟨⟨"button", some .ui, [], [], [], [⟨"ui/button.js", "", .ui⟩]⟩, ?_, ?_⟩
    · decide +kernel
    · decide +kernel
  | 1 =>
    cases ht
    refine ⟨⟨"card", some .ui, [], [], [],
      [⟨"ui/card.js", "import './button';", .ui⟩, ⟨"ui/button.js", "", .ui⟩]⟩, ?_, ?_⟩
    · decide +kernel
    · decide +kernel
  | _ + 2 => cases ht

theorem couple_agree :
    (runScheduled inOrder couple .unset (Path.ofString "/p") uiOptions).result =
        (runScheduled lastFirst couple .unset (Path.ofString "/p") uiOptions).result ∧
      Disk.Same (runScheduled inOrder couple .unset (Path.ofString "/p") uiOptions).disk
        (runScheduled lastFirst couple .unset (Path.ofString "/p") uiOptions).disk := by
  refine (schedules_agree_iff fair_inOrder fair_lastFirst (by decide +kernel) (by decide +kernel)
    (.inr ⟨coupleReady, _, couple_apart⟩)).mpr ?_
  intro i t ht
  rw [couple_tasks] at ht ⊢
  obtain ⟨m, hinOrder, hlastFirst⟩ := couple_walks ht
  exact hinOrder.trans hlastFirst.symm

/-- Stories whose output lies before the directory of their component. -/
def shadowed : Disk := .ofTexts [
  ("p/package.json", "\x7b\x7d"),
  ("p/ui/button.stories.js", ""),
  ("p/ui/card.js", "import './button';"),
  ("p/ui/button/index.js", "")]

/-- Outputs stand beside the components. -/
def besideComponents : Config := { Config.unset with outputDir := some (Path.ofString "ui") }

theorem shadowed_tasks : directoryTasks shadowed (Path.ofString "/p") uiOptions =
    [⟨Path.ofString "/p/ui/button.stories.js", "button.json"⟩,
      ⟨Path.ofString "/p/ui/card.js", "card.json"⟩] := by
  have hlocate : shadowed.locate ((Path.ofString "/p").join uiOptions.input) =
      .ok (Disk.locationOf "p/ui") := by
    decide +kernel
  rw [directoryTasks_of_sorted
    [Path.ofString "/p/ui/button.stories.js", Path.ofString "/p/ui/card.js"] hlocate
    (by decide +kernel) (by decide +kernel)]
  decide +kernel

/-- The batch of the shadowed component under a schedule. -/
def shadowedBatch (schedule : Nat → List Nat) : Batch :=
  (Batch.start shadowed [⟨Path.ofString "/p/ui/button.stories.js", "button.json"⟩,
    ⟨Path.ofString "/p/ui/card.js", "card.json"⟩]).run
      (directorySetting besideComponents (Path.ofString "/p") uiOptions) (schedule 2)

theorem shadowed_run (schedule : Nat → List Nat) :
    runScheduled schedule shadowed besideComponents (Path.ofString "/p") uiOptions =
      ⟨.ok (shadowedBatch schedule).report, (shadowedBatch schedule).updates,
        (shadowedBatch schedule).disk⟩ := by
  rw [runScheduled_directory (by decide +kernel) (by decide +kernel), directoryBatch, shadowed_tasks]
  rfl

/-- The outputs have different names, and still the card holds the component or the manifest of its
stories, depending on which of the two was worked on first. -/
theorem shadowed_disagree :
    ((directoryTasks shadowed (Path.ofString "/p") uiOptions).map Task.outputName).Nodup ∧
      (∀ count, Fair count (inOrder count)) ∧ (∀ count, Fair count (lastFirst count)) ∧
      (runScheduled inOrder shadowed besideComponents (Path.ofString "/p") uiOptions).files? =
        some [["ui/button.stories.js"], ["ui/card.js", "ui/button.json"]] ∧
      (runScheduled lastFirst shadowed besideComponents (Path.ofString "/p") uiOptions).files? =
        some [["ui/button.stories.js"], ["ui/card.js", "ui/button/index.js"]] ∧
      (runScheduled inOrder shadowed besideComponents (Path.ofString "/p") uiOptions).result ≠
        (runScheduled lastFirst shadowed besideComponents (Path.ofString "/p") uiOptions).result := by
  have hinOrder : (runScheduled inOrder shadowed besideComponents (Path.ofString "/p")
      uiOptions).files? = some [["ui/button.stories.js"], ["ui/card.js", "ui/button.json"]] := by
    rw [shadowed_run]
    decide +kernel
  have hlastFirst : (runScheduled lastFirst shadowed besideComponents (Path.ofString "/p")
      uiOptions).files? = some [["ui/button.stories.js"], ["ui/card.js", "ui/button/index.js"]] := by
    rw [shadowed_run]
    decide +kernel
  refine ⟨by rw [shadowed_tasks]; decide, fair_inOrder, fair_lastFirst, hinOrder, hlastFirst,
    fun hsame => ?_⟩
  have hfiles : (runScheduled inOrder shadowed besideComponents (Path.ofString "/p")
      uiOptions).files? = (runScheduled lastFirst shadowed besideComponents (Path.ofString "/p")
      uiOptions).files? := by
    unfold Outcome.files?
    rw [hsame]
  rw [hinOrder, hlastFirst] at hfiles
  exact absurd hfiles (by decide)

end Generate

end ComponentRegistry
