import ComponentRegistry.Proofs.Walk.Faults
import ComponentRegistry.Proofs.Walk.Traversal

/-!
# When walks succeed

A walk succeeds exactly if every file that the entry reaches is in order and none of them inlines
itself over any number of import statements (`run_isOk_iff`).  Only cycles are refused as cycles: a
file that is reached on several ways, or again from below, is passed over.
-/

namespace ComponentRegistry.Walk

/-- The file can be read, parsed and classified, and each of its import statements has an answer. -/
def Healthy (w : Start) (k : FileKey) : Prop :=
  ∃ file loaded, Event.entered file (.ok loaded) ∈ w.survey.events ∧ file.components = k ∧
    loadFile w.project file = .ok loaded ∧
    (statements w.survey.events k).map Met.reference = loaded.summary.imports ∧
    ∀ m ∈ statements w.survey.events k, ∃ found, m.answer = .ok found

/-- No file that the entry reaches inlines itself over one or more import statements. -/
def Acyclic (w : Start) : Prop :=
  ∀ k, Reaches w.survey.events w.entry.components k →
    ¬ Relation.TransGen (Inlines w.survey.events) k k

/-! ## Files that are done -/

section Settled

variable {es : List Event} {ks : List FileKey} {k k' : FileKey}

theorem Settled.closed (h : Settled es ks) (hk : k ∈ ks) (hi : Inlines es k k') : k' ∈ ks := by
  induction ks with
  | nil => cases hk
  | cons a older ih =>
    rcases List.mem_cons.mp hk with rfl | hk
    · exact List.mem_cons_of_mem _ (h.1 k' hi)
    · exact List.mem_cons_of_mem _ (ih h.2 hk)

/-- Files that are done reach only files that are done. -/
theorem Settled.reaches (h : Settled es ks) (hk : k ∈ ks) (hr : Reaches es k k') : k' ∈ ks := by
  induction hr with
  | refl => exact hk
  | tail _ hi ih => exact h.closed ih hi

/-- A file that is done reaches only files that were done before it, so never itself. -/
theorem Settled.no_loop (h : Settled es ks) (hnd : ks.Nodup) (hk : k ∈ ks) :
    ¬ Relation.TransGen (Inlines es) k k := by
  induction ks with
  | nil => cases hk
  | cons a older ih =>
    obtain ⟨hfresh, hnd'⟩ := List.nodup_cons.mp hnd
    rcases List.mem_cons.mp hk with rfl | hk
    · intro hloop
      obtain ⟨b, hi, hback⟩ := Relation.TransGen.head'_iff.mp hloop
      exact hfresh (Settled.reaches h.2 (h.1 b hi) hback)
    · exact ih h.2 hnd' hk

end Settled

/-! ## Cycles -/

section Cycle

variable {w : Start} {es : List Event} {trail : List Path} {file : Path}

/-- All files of the trail reach the file that it comes back to. -/
theorem Cycle.reaches_file (h : Cycle w es trail file) {k : FileKey}
    (hk : k ∈ trail.map Path.components) :
    Relation.TransGen (Inlines es) k file.components := by
  have hpair := (h.chain.imp fun _ _ => Relation.TransGen.single).pairwise
  rw [List.map_append, List.pairwise_append] at hpair
  exact hpair.2.2 k hk _ (List.mem_singleton_self _)

theorem Cycle.loop (h : Cycle w es trail file) :
    Relation.TransGen (Inlines es) file.components file.components :=
  h.reaches_file h.back

theorem Cycle.reached (h : Cycle w es trail file) : Reaches es w.entry.components file.components :=
  (h.reaches_file (List.mem_map_of_mem (List.mem_of_mem_head? h.origin))).to_reflTransGen

end Cycle

/-! ## Success -/

section Success

variable {w : Start}

/-- A file is taken up under one spelling. -/
theorem Orderly.entered_eq {es : List Event} (h : Orderly es) {file file' : Path}
    {found found' : Except Failure Loaded} (hf : Event.entered file found ∈ es)
    (hf' : Event.entered file' found' ∈ es) (hk : file.components = file'.components) :
    file = file' :=
  List.inj_on_of_nodup_map h.once (mem_entries.mpr ⟨_, hf⟩) (mem_entries.mpr ⟨_, hf'⟩) hk

/-- What was taken up and has no fault is healthy. -/
theorem healthy_of_fine (hfine : ∀ e ∈ w.survey.events, e.failure? = none) {k : FileKey}
    (hk : k ∈ enteredKeys w.survey.events) : Healthy w k := by
  obtain ⟨file, found, he, rfl⟩ := mem_enteredKeys.mp hk
  obtain ⟨hload, hrefs⟩ := w.survey_answered he
  cases found with
  | error f => exact absurd (hfine _ he) (by simp [Event.failure?])
  | ok loaded =>
    refine ⟨file, loaded, he, rfl, hload.symm, hrefs, fun m hm => ?_⟩
    have hmfine := hfine _ (mem_statements.mp hm).1
    cases hans : m.answer with
    | ok found => exact ⟨found, rfl⟩
    | error f => rw [Event.failure?, hans] at hmfine; cases hmfine

/-- Where all files that are reached are healthy, and none reaches itself, there is no fault. -/
theorem not_fault {f : Failure}
    (hhealthy : ∀ k, Reaches w.survey.events w.entry.components k → Healthy w k)
    (hacyclic : Acyclic w) : ¬ Fault w w.survey.events f := by
  intro hfault
  have hord := w.survey_adds.orderly
  cases hfault with
  | @unloaded file f he =>
    have hk : file.components ∈ enteredKeys w.survey.events := mem_enteredKeys.mpr ⟨_, _, he, rfl⟩
    obtain ⟨file', loaded, he', hkey, hload, -⟩ := hhealthy _ (w.survey_reached _ hk)
    have hsame : file' = file := hord.entered_eq he' he hkey
    have hload' : Except.error f = loadFile w.project file := (w.survey_answered he).1
    rw [hsame, ← hload'] at hload
    cases hload
  | @refused m f hm hans =>
    have hk := hord.importer m hm
    obtain ⟨file, loaded, -, -, -, -, hanswers⟩ := hhealthy _ (w.survey_reached _ hk)
    obtain ⟨found, hfound⟩ := hanswers m (mem_statements.mpr ⟨hm, rfl⟩)
    rw [hans] at hfound
    cases hfound
  | cycle hc => exact hacyclic _ hc.reached hc.loop

/-- Nothing went wrong in a walk that succeeds. -/
theorem fine_of_run {m : Manifest} (h : w.run = .ok m) {e : Event} (he : e ∈ w.survey.events) :
    e.failure? = none := by
  obtain ⟨s, halong, -⟩ := Start.along_of_run h
  exact halong.fine e he

/-- And no file that it took up inlines itself over any number of import statements. -/
theorem acyclic_of_run {m : Manifest} (h : w.run = .ok m) : Acyclic w := by
  obtain ⟨s, halong, -, hentry, -⟩ := Start.along_of_run h
  have hnodup : (s.processed.map Path.components).Nodup := (List.nodup_append.mp halong.nodup).2.1
  exact fun k hr => halong.settled.no_loop hnodup (halong.settled.reaches hentry hr)

/-- **A walk succeeds exactly if every file that the entry reaches is healthy and there is no cycle
among them.** -/
theorem run_isOk_iff {d : Disk} {config : Config} {entry : Path}
    (h : prepare d config entry = .ok w) :
    (∃ m, w.run = .ok m) ↔
      (∀ k, Reaches w.survey.events w.entry.components k → Healthy w k) ∧ Acyclic w := by
  constructor
  · rintro ⟨m, hm⟩
    refine ⟨fun k hr => healthy_of_fine (fun e he => fine_of_run hm he) ?_, acyclic_of_run hm⟩
    exact (w.mem_enteredKeys_iff (loadable_of_prepare h)).mpr hr
  · rintro ⟨hhealthy, hacyclic⟩
    cases hrun : w.run with
    | ok m => exact ⟨m, rfl⟩
    | error f =>
      exact absurd (Start.fault_of_run (loadable_of_prepare h) hrun) (not_fault hhealthy hacyclic)

/-- Two files share a third one, which re-exports the entry. -/
def diamond : Disk := .ofTexts [
  ("p/package.json", "\x7b\x7d"),
  ("p/main.js", "import './left';\nimport './right';"),
  ("p/left.js", "import './base';"),
  ("p/right.js", "import './base';"),
  ("p/base.js", "export * from './main';")]

theorem diamond_isOk : ∃ w, prepare diamond .unset (Path.ofString "/p/main.js") = .ok w ∧
    (∃ m, w.run = .ok m) ∧
    (∀ k, Reaches w.survey.events w.entry.components k → Healthy w k) ∧ Acyclic w := by
  have hgen : (generate diamond .unset (Path.ofString "/p/main.js")).isOk = true := by
    decide +kernel
  obtain ⟨m, hm⟩ := exists_ok hgen
  obtain ⟨-, w, hw, hrun⟩ := generate_eq_ok_iff.mp hm
  exact ⟨w, hw, ⟨m, hrun⟩, (run_isOk_iff hw).mp ⟨m, hrun⟩⟩

end Success

end ComponentRegistry.Walk
