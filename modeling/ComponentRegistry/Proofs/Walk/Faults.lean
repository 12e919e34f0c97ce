import ComponentRegistry.Proofs.Walk.Progress

/-!
# Why walks fail

A walk fails for one of three reasons, and the survey of the walk shows it (`Start.fault_of_run`): a
file could not be loaded, an import statement was refused, or the files between the entry and the
one at hand are a chain of import statements that comes back to one of its files.  That the levels
run out is no fourth reason.
-/

namespace ComponentRegistry.Walk

/-- `trail` leads from the entry to a file that inlines `file`, which is on the trail itself. -/
structure Cycle (w : Start) (es : List Event) (trail : List Path) (file : Path) : Prop where
  origin : trail.head? = some w.entry
  chain : ((trail ++ [file]).map Path.components).IsChain (Inlines es)
  once : (trail.map Path.components).Nodup
  back : file.components ∈ trail.map Path.components

/-- What the notes of a survey have to show for a failure. -/
inductive Fault (w : Start) (es : List Event) : Failure → Prop where
  | unloaded {file : Path} {f : Failure} : Event.entered file (.error f) ∈ es → Fault w es f
  | refused {m : Met} {f : Failure} : Event.met m ∈ es → m.answer = .error f → Fault w es f
  | cycle {trail : List Path} {file : Path} : Cycle w es trail file →
    Fault w es (.circularDependency (cycleChain w.project trail file))

section Fault

variable {w : Start} {es fs : List Event}

theorem Cycle.mono {trail : List Path} {file : Path} (h : Cycle w es trail file) (hp : es <+: fs) :
    Cycle w fs trail file :=
  { h with chain := h.chain.imp fun _ _ => Inlines.mono hp }

theorem Fault.mono {f : Failure} (h : Fault w es f) (hp : es <+: fs) : Fault w fs f := by
  cases h with
  | unloaded he => exact .unloaded (hp.subset he)
  | refused hm hans => exact .refused (hp.subset hm) hans
  | cycle hc => exact .cycle (hc.mono hp)

theorem takeImports_error {n : Nat} {follow : Path → State → Except Failure State}
    {explore : Path → Survey → Survey} (htracks : Tracks w follow explore)
    (hroom : ∀ file t, Loadable w.project file → Room w.project n t.events →
      Room w.project n (explore file t).events)
    (herr : ∀ file s t f, Along w s t → Next w s t file → Loadable w.project file →
      Room w.project n t.events → follow file s = .error f → Fault w (explore file t).events f)
    {importer : Path} {above : List Path} (refs : List Script.Reference) {s : State} {t : Survey}
    {f : Failure} (h : Along w s t) (hact : s.active = above ++ [importer])
    (hr : Room w.project n t.events) (hf : takeImports w.project follow importer refs s = .error f) :
    Fault w (surveyImports w.project explore importer refs t).events f := by
  induction refs generalizing s t with
  | nil => cases hf
  | cons r more ih =>
    have hent : importer.components ∈ enteredKeys t.events :=
      h.mem_entered.mpr (Or.inl (by simp [hact]))
    have hadd₁ := Survey.meet_adds (p := w.project) r h.orderly hent
    have hr₁ : Room w.project n (t.meet w.project importer r).2.events := hr.met _
    cases h.atStatement follow explore hact r more with
    | refused answer walk notes =>
      rw [walk] at hf
      cases hf
      rw [notes]
      exact Fault.mono (.refused (List.mem_append_right _ (List.mem_singleton.mpr rfl)) answer)
        (surveyImports_adds htracks.adds more hadd₁.orderly (hadd₁.entered hent)).1.isPrefix
    | noted _ _ along walk notes =>
      rw [walk] at hf
      rw [notes]
      exact ih along hact hr₁ hf
    | @followed file target along next walk notes =>
      have hload : Loadable w.project file := Survey.loadable_target target
      have hadd₂ := htracks.adds file _ hadd₁.orderly
      rw [walk] at hf
      rw [notes]
      cases hcall : follow file (s.meet w.project importer r t) with
      | error g =>
        rw [hcall] at hf
        cases hf
        exact (herr file _ _ f along next hload hr₁ hcall).mono
          (surveyImports_adds htracks.adds more hadd₂.orderly
            (hadd₂.entered (hadd₁.entered hent))).1.isPrefix
      | ok s₂ =>
        rw [hcall] at hf
        have hback := htracks.returned file _ _ s₂ along next hcall
        exact ih hback.along (hback.active.trans hact) (hroom file _ hload hr₁) hf

/-- Coming back to a file of the chain closes a cycle. -/
theorem Along.cycle {s : State} {t : Survey} {file : Path} (h : Along w s t) (hn : Next w s t file)
    (hkey : file.components ∈ s.active.map Path.components) : Cycle w t.events s.active file where
  origin := by
    cases hs : s.active with
    | nil => rw [hs] at hkey; cases hkey
    | cons g rest => rw [h.origin g (by rw [hs]; rfl)]; rfl
  chain := h.chain_next hn
  once := (List.nodup_append.mp h.nodup).1
  back := hkey

/-- **A walk that fails has a fault in its survey.** -/
theorem process_error (levels : Nat) {file : Path} {s : State} {t : Survey} {f : Failure}
    (h : Along w s t) (hn : Next w s t file) (hl : Loadable w.project file)
    (hr : Room w.project levels t.events) (hf : process w.project levels file s = .error f) :
    Fault w (survey w.project levels file t).events f := by
  induction levels generalizing file s t f with
  | zero => exact absurd (hr.pos h.orderly) (lt_irrefl 0)
  | succ levels ih =>
    cases h.atFile levels file with
    | done _ walk _ => rw [walk] at hf; cases hf
    | back active walk notes =>
      rw [walk] at hf
      cases hf
      rw [notes]
      exact .cycle (h.cycle hn active)
    | unloaded _ _ walk notes =>
      rw [walk] at hf
      cases hf
      rw [notes]
      exact .unloaded (List.mem_append_right _ (List.mem_singleton.mpr rfl))
    | @loaded l new load walk notes =>
      have hroom := hr.descend hl load
      rw [load] at hroom
      rw [walk] at hf
      rw [notes]
      cases htake : takeImports w.project (process w.project levels) file l.summary.imports
          { s.enter file with draft := record w.project file l s.draft } with
      | ok s₂ => rw [htake] at hf; cases hf
      | error g =>
        rw [htake] at hf
        cases hf
        exact takeImports_error (process_tracks w levels) (survey_room levels)
          (fun _ _ _ _ h hn hl hr hf => ih h hn hl hr hf) l.summary.imports (h.enter hn new l) rfl
          hroom htake

end Fault

/-! ## Whole walks -/

section Whole

variable {w : Start}

theorem next_entry (w : Start) : Next w (.start w.name) .start w.entry :=
  ⟨by simp [State.start], fun _ => rfl⟩

/-- A walk that succeeds ends along its survey; every file is done, the entry among them. -/
theorem Start.along_of_run {m : Manifest} (h : w.run = .ok m) :
    ∃ s, Along w s w.survey ∧ s.active = [] ∧
      w.entry.components ∈ s.processed.map Path.components ∧ m = s.draft.finish := by
  unfold Start.run at h
  cases hp : process w.project (levels w.project.disk) w.entry (.start w.name) with
  | error f => rw [hp] at h; cases h
  | ok s =>
    rw [hp] at h
    cases h
    have hret := process_ok _ (along_start w) (next_entry w) hp
    exact ⟨s, hret.along, hret.active, hret.done, rfl⟩

theorem Start.fault_of_run (hl : Loadable w.project w.entry) {f : Failure} (h : w.run = .error f) :
    Fault w w.survey.events f := by
  unfold Start.run at h
  cases hp : process w.project (levels w.project.disk) w.entry (.start w.name) with
  | error g =>
    rw [hp] at h
    cases h
    exact process_error _ (along_start w) (next_entry w) hl room_nil hp
  | ok s => rw [hp] at h; cases h

/-- How a walk is prepared. -/
theorem prepare_eq_ok_iff {d : Disk} {config : Config} {entry : Path} :
    prepare d config entry = .ok w ↔ ∃ file root, d.canonical entry = .ok file ∧
      projectRoot d (file.parent?.getD file) = .ok root ∧
      w = {
        project := {
          disk := d
          config := config
          root := root
          workspace := Workspace.load d root
          resolver := Resolver.around d (file.parent?.getD file) }
        entry := file
        name := (entry.stem?.map Text.shown).getD "" } := by
  unfold prepare
  cases hc : d.canonical entry with
  | error cause => simp
  | ok file =>
    cases hroot : projectRoot d (file.parent?.getD file) with
    | error f => simp [hroot, bind, Except.bind]
    | ok root => simp [hroot, bind, Except.bind, pure, Except.pure, eq_comm]

/-- What a prepared walk knows of the disk, of the settings and of its entry. -/
theorem of_prepare {d : Disk} {config : Config} {entry : Path} (h : prepare d config entry = .ok w) :
    w.project.disk = d ∧ w.project.config = config ∧ d.canonical entry = .ok w.entry := by
  obtain ⟨file, root, hentry, -, rfl⟩ := prepare_eq_ok_iff.mp h
  exact ⟨rfl, rfl, hentry⟩

theorem loadable_of_prepare {d : Disk} {config : Config} {entry : Path}
    (h : prepare d config entry = .ok w) : Loadable w.project w.entry := by
  obtain ⟨hdisk, -, hentry⟩ := of_prepare h
  rw [← hdisk] at hentry
  exact loadable_of_canonical hentry

/-- What is found to succeed has a result. -/
theorem exists_ok {α : Type} {x : Except Failure α} (h : x.isOk = true) : ∃ a, x = .ok a := by
  cases x with
  | ok a => exact ⟨a, rfl⟩
  | error f => cases h

theorem ok_of_toOption {α : Type} {x : Except Failure α} {a : α} (h : x.toOption = some a) :
    x = .ok a := by
  cases x with
  | ok b => exact congrArg Except.ok (Option.some.inj h)
  | error f => cases h

/-- What is found to hold of a result holds of it. -/
theorem exists_ok_and {α : Type} {x : Except Failure α} {P : α → Prop} [DecidablePred P]
    (h : x.toOption.any (fun a => decide (P a)) = true) : ∃ a, x = .ok a ∧ P a := by
  obtain ⟨a, ha, hfound⟩ := Option.any_eq_true _ _ |>.mp h
  exact ⟨a, ok_of_toOption ha, of_decide_eq_true hfound⟩

theorem generate_eq_ok_iff {d : Disk} {config : Config} {entry : Path} {m : Manifest} :
    generate d config entry = .ok m ↔
      d.has entry = true ∧ ∃ w, prepare d config entry = .ok w ∧ w.run = .ok m := by
  cases hhas : d.has entry with
  | false => simp [generate, hhas]
  | true =>
    cases hw : prepare d config entry with
    | error f => simp [generate, hhas, hw, bind, Except.bind]
    | ok w =>
      cases hrun : w.run with
      | error f => simp [generate, hhas, hw, hrun, bind, Except.bind]
      | ok m' => simp [generate, hhas, hw, hrun, bind, Except.bind]

/-- A failure to generate is that of finding the entry, of preparing the walk, or of the walk. -/
theorem of_generate_error {d : Disk} {config : Config} {entry : Path} {f : Failure}
    (h : generate d config entry = .error f) :
    f = .entryNotFound entry ∨ ∃ g, f = .generation entry g ∧
      (prepare d config entry = .error g ∨ ∃ w, prepare d config entry = .ok w ∧ w.run = .error g) := by
  cases hhas : d.has entry with
  | false =>
    simp only [generate, hhas] at h
    cases h
    exact Or.inl rfl
  | true =>
    refine Or.inr ?_
    cases hw : prepare d config entry with
    | error g =>
      simp only [generate, hhas, hw] at h
      cases h
      exact ⟨g, rfl, Or.inl rfl⟩
    | ok w =>
      cases hrun : w.run with
      | error g =>
        simp only [generate, hhas, hw, bind, Except.bind, hrun] at h
        cases h
        exact ⟨g, rfl, Or.inr ⟨w, rfl, hrun⟩⟩
      | ok m =>
        simp only [generate, hhas, hw, bind, Except.bind, hrun] at h
        cases h

end Whole

end ComponentRegistry.Walk
