import ComponentRegistry.Proofs.Generate.Independence

/-!
# What runs change on disks

Whatever its schedule and its end, a run changes the disk by its saves only (`chain_runSaves`), and a
save changes one file and may make directories above it (`brought_of_keep`).  So after a run nothing
has changed but the outputs of components whose walks succeeded, and nothing is new but those and the
directories above them (`run_footprint`).
-/

namespace ComponentRegistry.Generate

/-! ## Chains -/

section Chains

variable {s : Setting} {d d' : Disk} {xs : List Save} {x : Save} {l : Location} {n : Node}

theorem Save.brought (hfree : x.disk.node? l = none) (hn : (x.after s).node? l = some n) :
    s.rawJson = false ∧ Brought (x.after s) (s.output x.task) x.manifest.pretty l n :=
  brought_of_keep hfree hn

/-- What stood on a disk stays, or it is a file and a manifest is saved in its place. -/
theorem Chain.kept (h : Chain s d xs d') (hn : d.node? l = some n) :
    d'.node? l = some n ∨ ∃ x ∈ xs, (∃ content, n = .file content) ∧ x.Hits s d' l ∧
      d'.node? l = some (.file (.text x.manifest.pretty)) := by
  rcases h.node? hn with ⟨-, hsame⟩ | ⟨x, hlast, hnode⟩
  · exact Or.inl hsame
  · obtain ⟨n', hn', hkind⟩ := h.grows.node l n hn
    cases hn'.symm.trans hnode
    cases hkind with
    | file content _ => exact Or.inr ⟨x, hlast.mem, ⟨content, rfl⟩, hlast.hits, hnode⟩

/-- **What is new at the end of a chain** is the output of one of its saves, or a directory above. -/
theorem Chain.brought (h : Chain s d xs d') (hfree : d.node? l = none) (hn : d'.node? l = some n) :
    ∃ x ∈ xs, s.rawJson = false ∧ Brought d' (s.output x.task) x.manifest.pretty l n := by
  induction h with
  | nil => rw [hfree] at hn; cases hn
  | @cons x more d' hrest ih =>
    cases hafter : (x.after s).node? l with
    | none =>
      obtain ⟨y, hy, hbrought⟩ := ih hafter hn
      exact ⟨y, List.mem_cons_of_mem _ hy, hbrought⟩
    | some m =>
      -- it is new with this save, and later it stays or gets another manifest
      obtain ⟨hraw, hbrought⟩ := Save.brought hfree hafter
      rcases hrest.kept hafter with hsame | ⟨y, hy, -, hhits, hnode⟩
      · cases hsame.symm.trans hn
        exact ⟨x, List.mem_cons_self .., hraw, hbrought.grows hrest.grows⟩
      · cases hnode.symm.trans hn
        exact ⟨y, List.mem_cons_of_mem _ hy, hraw, .output hhits.place⟩

end Chains

/-! ## Runs -/

/-- The components of a run: those of the directory that it is over, or the one file. -/
def componentsOf (d : Disk) (dir : Path) (o : Options) : List Path :=
  if d.isDirectory (dir.join o.input) then (directoryTasks d dir o).map Task.file
  else [dir.join o.input]

/-- A run that saves manifests has found this one of the component. -/
structure Finds (schedule : Nat → List Nat) (d : Disk) (config : Config) (dir : Path) (o : Options)
    (file : Path) (m : Manifest) : Prop where
  saving : o.rawJson = false
  accepted : o.validate d dir = .ok ()
  component : file ∈ componentsOf d dir o
  walked : ∃ e ∈ runDisks schedule d config dir o, Walk.generate e config file = .ok m

/-- What a run may have changed when the disk is `after`. -/
structure Footprint (schedule : Nat → List Nat) (d : Disk) (config : Config) (dir : Path)
    (o : Options) (after : Disk) : Prop where
  workingDirectory : after.workingDirectory = d.workingDirectory
  /-- What was there is there as it was, or it is a file and the output of a component. -/
  kept : ∀ l n, d.node? l = some n → after.node? l = some n ∨
    ∃ content file m, n = .file content ∧ Finds schedule d config dir o file m ∧
      after.locate (outputOf d config dir o file) = .ok l ∧
      after.node? l = some (.file (.text m.pretty))
  /-- What is new is the output of a component, or a directory above it. -/
  new : ∀ l n, d.node? l = none → after.node? l = some n →
    ∃ file m, Finds schedule d config dir o file m ∧
      Brought after (outputOf d config dir o file) m.pretty l n
  /-- No step of a component whose walk fails changes anything. -/
  failed : d.isDirectory (dir.join o.input) = true → ∀ i t f before rest,
    (directoryTasks d dir o)[i]? = some t →
    Walk.generate (walkDisk (directorySetting config dir o) (directoryBatch d dir o)
      (schedule (directoryTasks d dir o).length) i) config t.file = .error f →
    schedule (directoryTasks d dir o).length = before ++ i :: rest →
    ((directoryBatch d dir o).run (directorySetting config dir o) (before ++ [i])).disk =
      ((directoryBatch d dir o).run (directorySetting config dir o) before).disk
  failedFile : d.isDirectory (dir.join o.input) = false → ∀ f,
    Walk.generate d config (dir.join o.input) = .error f → after = d
  refused : ∀ f, o.validate d dir = .error f → after = d
  handedBack : o.rawJson = true → after = d

section Runs

variable {schedule : Nat → List Nat} {d : Disk} {config : Config} {dir : Path} {o : Options}
  {x : Save}

/-- What a run keeps is the manifest of one of its components, found on one of its disks. -/
theorem finds_of_mem_runSaves (hraw : o.rawJson = false) (hvalid : o.validate d dir = .ok ())
    (hx : x ∈ runSaves schedule d config dir o) :
    Finds schedule d config dir o x.task.file x.manifest := by
  suffices h : x.task.file ∈ componentsOf d dir o ∧ ∃ e ∈ runDisks schedule d config dir o,
      Walk.generate e config x.task.file = .ok x.manifest from ⟨hraw, hvalid, h.1, h.2⟩
  unfold componentsOf runDisks
  cases hdir : d.isDirectory (dir.join o.input) with
  | true =>
    have hsaves : runSaves schedule d config dir o = (directoryBatch d dir o).saves
        (directorySetting config dir o) (schedule (directoryTasks d dir o).length) := by
      unfold runSaves
      rw [if_pos hdir]
    have hsetting : runSetting d config dir o = directorySetting config dir o := if_pos hdir
    rw [hsaves] at hx ⊢
    rw [hsetting]
    exact ⟨List.mem_map_of_mem (task_mem_of_mem_saves hx), _, walkDisk_mem .., Batch.walked_of_save hx⟩
  | false =>
    unfold runSaves at hx
    rw [if_neg (by simp [hdir])] at hx
    cases hwalk : Walk.generate d config (dir.join o.input) with
    | error f => rw [hwalk] at hx; cases hx
    | ok m =>
      rw [hwalk] at hx
      cases List.mem_singleton.mp hx
      exact ⟨List.mem_singleton_self _, d, List.mem_cons_self .., hwalk⟩

/-- A component whose walk fails is not kept, so none of its steps changes the disk. -/
theorem disk_step_of_failed {s : Setting} {tasks : List Task} {steps before rest : List Nat} {i : Nat}
    {t : Task} {f : Failure} (ht : tasks[i]? = some t)
    (hfailed : Walk.generate (walkDisk s (Batch.start d tasks) steps i) s.config t.file = .error f)
    (hsteps : steps = before ++ i :: rest) :
    ((Batch.start d tasks).run s (before ++ [i])).disk = ((Batch.start d tasks).run s before).disk := by
  rw [Batch.run_concat, Batch.disk_step]
  cases hsave : ((Batch.start d tasks).run s before).save? i with
  | none => rfl
  | some y =>
    have hy : y ∈ (Batch.start d tasks).saves s steps := by
      rw [hsteps, ← List.singleton_append, ← List.append_assoc, Batch.saves_append, Batch.saves_concat,
        hsave]
      simp
    have hwalk := Batch.walked_of_save hy
    have hty := Batch.mem_saves hy
    rw [(Batch.place_of_save? hsave).1] at hwalk hty
    rw [Option.some.inj (hty.symm.trans ht), hfailed] at hwalk
    cases hwalk

/-- A disk that has not changed bears no trace of a run. -/
theorem footprint_unchanged : Footprint schedule d config dir o d where
  workingDirectory := rfl
  kept _ _ hn := Or.inl hn
  new l n hfree hn := by rw [hfree] at hn; cases hn
  failed _ _ _ _ _ _ ht hwalk hsteps := disk_step_of_failed ht hwalk hsteps
  failedFile _ _ _ := rfl
  refused _ _ := rfl
  handedBack _ := rfl

/-- A file whose walk fails leaves nothing to be kept. -/
theorem runSaves_of_failed {f : Failure} (hdir : d.isDirectory (dir.join o.input) = false)
    (hwalk : Walk.generate d config (dir.join o.input) = .error f) :
    runSaves schedule d config dir o = [] := by
  unfold runSaves
  rw [if_neg (by simp [hdir]), hwalk]

/-- What a run that is not refused may have changed. -/
theorem footprint_of_accepted (hvalid : o.validate d dir = .ok ()) :
    Footprint schedule d config dir o (runScheduled schedule d config dir o).disk := by
  have hchain : Chain (runSetting d config dir o) d (runSaves schedule d config dir o)
      (runScheduled schedule d config dir o).disk := chain_runSaves hvalid
  have hraw : (runSetting d config dir o).rawJson = o.rawJson := runSetting_rawJson ..
  generalize (runScheduled schedule d config dir o).disk = after at hchain ⊢
  exact {
    workingDirectory := hchain.grows.workingDirectory
    kept := by
      intro l n hn
      refine (hchain.kept hn).imp_right ?_
      rintro ⟨x, hx, ⟨content, rfl⟩, hhits, hnode⟩
      have hfinds := finds_of_mem_runSaves (hraw.symm.trans hhits.saving) hvalid hx
      exact ⟨content, x.task.file, x.manifest, rfl, hfinds,
        output_of_mem_runSaves hx ▸ hhits.place, hnode⟩
    new := by
      intro l n hfree hn
      obtain ⟨x, hx, hsaving, hbrought⟩ := hchain.brought hfree hn
      exact ⟨x.task.file, x.manifest, finds_of_mem_runSaves (hraw.symm.trans hsaving) hvalid hx,
        output_of_mem_runSaves hx ▸ hbrought⟩
    failed := fun _ _ _ _ _ _ ht hwalk hsteps => disk_step_of_failed ht hwalk hsteps
    failedFile := by
      intro hdir f hwalk
      rw [runSaves_of_failed hdir hwalk] at hchain
      cases hchain
      rfl
    refused := fun f hf => by rw [hvalid] at hf; cases hf
    handedBack := fun hback => (hchain.of_rawJson (hraw.trans hback)).2 }

/-- **A run changes nothing but its outputs**, under every schedule and whether it succeeds or not. -/
theorem run_footprint (schedule : Nat → List Nat) (d : Disk) (config : Config) (dir : Path)
    (o : Options) :
    Footprint schedule d config dir o (runScheduled schedule d config dir o).disk := by
  cases hvalid : o.validate d dir with
  | error f =>
    rw [disk_of_refused hvalid]
    exact footprint_unchanged
  | ok u => exact footprint_of_accepted hvalid

end Runs

end ComponentRegistry.Generate
