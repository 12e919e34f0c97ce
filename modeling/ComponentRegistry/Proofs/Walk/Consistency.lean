import ComponentRegistry.Proofs.Walk.Contents
import ComponentRegistry.Proofs.Walk.Termination

/-!
# What holds at every call

At every call of a walk, and whenever one returns, what the walk has noted fits together
(`Consistent`): a visited file is on the chain to the file at hand or is done, files that are done
inline nothing else and reach nothing on the chain, and each visited file is recorded once.  So no
call is stopped by the last of the three guards (`Consistent.guard?_ne`).

A call finds the walk along its survey (`Stage`).  The notes of the survey at the call are a
beginning of those of the whole survey, and only the files of the chain have import statements that
are still to be met (`Kept`).  A call that is made by another one finds the walk in this way again
(`Stage.nests`), and so do all calls (`walk_consistent`).
-/

namespace ComponentRegistry.Walk

/-- What the walk has noted fits together, and fits the import statements of the files. -/
structure Consistent (w : Start) (s : State) : Prop where
  /-- The visited files are those of the chain and those that are done. -/
  split : s.visited.Perm (s.active ++ s.processed)
  /-- No file is twice on the chain, twice done, or both. -/
  once : ((s.active ++ s.processed).map Path.components).Nodup
  chain : (s.active.map Path.components).IsChain (Inlines w.survey.events)
  origin : ∀ file, s.active.head? = some file → file = w.entry
  /-- What is said of visited files is said of all their import statements. -/
  read : ∀ file ∈ s.visited, ∃ loaded, loadFile w.project file = .ok loaded ∧
    (statements w.survey.events file.components).map Met.reference = loaded.summary.imports
  resolved : ∀ file ∈ s.visited, ∀ m ∈ statements w.survey.events file.components, ∃ cache,
    m.answer = (resolveImport w.project m.reference.specifier m.importer cache).1
  closed : ∀ k ∈ s.processed.map Path.components, ∀ k', Inlines w.survey.events k k' →
    k' ∈ s.processed.map Path.components
  apart : ∀ k ∈ s.processed.map Path.components, ∀ k' ∈ s.active.map Path.components,
    ¬ Reaches w.survey.events k k'
  records : List.Forall₂ (Records w.project) s.visited.reverse s.draft.files

/-- Only files of the chain have statements that are met behind these notes. -/
structure Kept (w : Start) (active : List Path) (es : List Event) : Prop where
  isPrefix : es <+: w.survey.events
  statements : ∀ k ∈ enteredKeys es, k ∉ active.map Path.components →
    statements w.survey.events k = statements es k

/-- The call finds the walk along its survey, with levels that are enough; the survey from here is a
piece of that of the walk. -/
structure Stage (w : Start) (levels : Nat) (t : Survey) (c : Call) : Prop where
  along : Along w c.state t
  next : Next w c.state t c.file
  loadable : Loadable w.project c.file
  enough : (c.state.unvisited w.project.disk).card < levels
  kept : Kept w c.state.active (survey w.project levels c.file t).events

section Consistency

variable {w : Start} {s : State} {t : Survey} {es fs : List Event} {active active' : List Path}
  {c c' : Call} {levels : Nat}

/-- A call is never stopped because its file was visited and is neither on the chain nor done. -/
theorem Consistent.guard?_ne (h : Consistent w c.state) : c.guard? ≠ some .visited := by
  intro hguard
  unfold Call.guard? at hguard
  split_ifs at hguard with hproc hact hvis
  · cases hguard
  · cases hguard
  · -- what was visited is on the chain or done
    rw [isAmong_iff, (h.split.map Path.components).mem_iff, List.map_append,
      List.mem_append] at hvis
    rcases hvis with hvis | hvis
    · exact hact (isAmong_iff.mpr hvis)
    · exact hproc (isAmong_iff.mpr hvis)

/-- What is kept behind a piece of the survey is kept before it, but for the file that it reads. -/
theorem Kept.before {reading : Option FileKey} (h : Kept w active fs)
    (hadd : Adds w.project reading es fs) (hsub : active ⊆ active')
    (hreading : ∀ k, reading = some k → k ∈ active'.map Path.components) : Kept w active' es := by
  refine ⟨hadd.isPrefix.trans h.isPrefix, fun k hk hnot => ?_⟩
  have hother : reading ≠ some k := fun hread => hnot (hreading k hread)
  rw [h.statements k (hadd.entered hk) fun hact => hnot (List.map_subset _ hsub hact),
    hadd.kept k hk hother]

/-- **Where the walk is along its survey, what it has noted fits together.** -/
theorem Along.consistent (hl : Loadable w.project w.entry) (h : Along w s t)
    (hkept : Kept w s.active t.events) : Consistent w s := by
  have hsettled : Settled w.survey.events (s.processed.map Path.components) := by
    refine h.settled.of_statements_eq fun k hk => hkept.statements k ?_ ?_
    · exact h.mem_entered.mpr (Or.inr hk)
    · exact fun hact => h.not_processed hact hk
  have hloaded : AllLoaded w.project t.events := by
    intro file found he
    obtain ⟨hfound, -⟩ := w.survey_answered (hkept.isPrefix.subset he)
    cases found with
    | ok loaded => exact ⟨loaded, rfl, hfound.symm⟩
    | error f => exact absurd (h.fine _ he) (by simp [Event.failure?])
  constructor
  case split => exact h.split
  case once => exact List.map_append ▸ h.nodup
  case chain => exact h.chain.imp fun _ _ => Inlines.mono hkept.isPrefix
  case origin => exact h.origin
  case read =>
    intro file hfile
    rw [h.visited, List.mem_reverse] at hfile
    obtain ⟨found, he⟩ := mem_entries.mp hfile
    obtain ⟨loaded, rfl, hload⟩ := hloaded file found he
    exact ⟨loaded, hload, (w.survey_answered (hkept.isPrefix.subset he)).2⟩
  case resolved =>
    intro file _ m hm
    exact (w.survey_traversal hl).resolved (mem_statements.mp hm).1
  case closed => exact fun k hk k' hi => hsettled.closed hk hi
  case apart => exact fun k hk k' hact hreach => h.not_processed hact (hsettled.reaches hk hreach)
  case records =>
    rw [h.visited, List.reverse_reverse, h.draft, (gathers_foldl _ _ _).files]
    exact records_of_allLoaded hloaded

/-! ## Stages -/

theorem stage_entry (hl : Loadable w.project w.entry) :
    Stage w (Walk.levels w.project.disk) .start ⟨w.entry, .start w.name⟩ where
  along := along_start w
  next := next_entry w
  loadable := hl
  enough := by
    have hle := State.card_unvisited_le (.start w.name) w.project.disk
    unfold Walk.levels
    exact Nat.lt_succ_of_le hle
  kept := ⟨List.prefix_rfl, fun _ _ _ => rfl⟩

theorem Stage.consistent (hl : Loadable w.project w.entry) (h : Stage w levels t c) :
    Consistent w c.state := by
  have hadd := survey_adds (p := w.project) levels c.file t h.along.orderly
  exact h.along.consistent hl (h.kept.before hadd (List.Subset.refl _) (by simp))

/-- The chain goes on to the file of the call. -/
theorem Stage.chain (h : Stage w levels t c) :
    ((c.state.active ++ [c.file]).map Path.components).IsChain (Inlines w.survey.events) := by
  have hadd := survey_adds (p := w.project) levels c.file t h.along.orderly
  have hprefix := hadd.isPrefix.trans h.kept.isPrefix
  exact (h.along.chain_next h.next).imp fun _ _ => Inlines.mono hprefix

/-- What is noted still fits together when the call returns. -/
theorem Stage.returned {inner : List Call} (hl : Loadable w.project w.entry)
    (h : Stage w levels t c) (hr : Runs w.project (.file c.file) c.state inner (.ok s)) :
    Consistent w s := by
  have hprocess := hr.process_eq h.loadable h.enough
  have hback := process_ok levels h.along h.next hprocess
  exact hback.along.consistent hl (hback.active ▸ h.kept)

section Reading

variable {n : Nat} {file target : Path} {s' : State} {loaded : Loaded}
  {reference : Script.Reference} {before after : List Script.Reference} {made : List Call}
  {cache : Cache} {u : Survey}

/-- Where the walk is when it has taken some import statements of a new file: the others are still
to be read, by it and by its survey. -/
theorem Stage.reading (h : Stage w (n + 1) t ⟨file, s⟩) (hguard : (Call.mk file s).guard? = none)
    (hload : loadFile w.project file = .ok loaded)
    (hrefs : loaded.summary.imports = before ++ after)
    (hbefore : Runs w.project (.imports file before) (s.takeUp w.project file loaded) made
      (.ok s')) :
    ∃ u, Along w s' u ∧ s'.active = s.active ++ [file] ∧ survey w.project (n + 1) file t =
      surveyImports w.project (survey w.project n) file after u := by
  have hnew : file.components ∉ enteredKeys t.events := by
    rw [← h.along.mem_visited, ← isAmong_iff, Bool.not_eq_true]
    exact (Call.of_guard?_eq_none hguard).2.2
  have hentered : Along w (s.takeUp w.project file loaded) (t.enter file (.ok loaded)) :=
    h.along.enter h.next hnew loaded
  have hdown : ((s.takeUp w.project file loaded).unvisited w.project.disk).card < n := by
    have hlt := State.card_unvisited_takeUp_lt h.loadable hload hguard
    exact hlt.trans_le (Nat.le_of_lt_succ h.enough)
  obtain ⟨halong, hactive, -, -⟩ := takeImports_ok (process_tracks w n) before hentered rfl
    (targetsDone_enter h.along.orderly hnew _ _) (hbefore.takeImports_eq hdown)
  refine ⟨_, halong, hactive, ?_⟩
  rw [survey_new hnew, hload, importsOf, hrefs, surveyImports_append]

/-- A statement that inlines a file leads the walk and its survey on to that file. -/
theorem Along.inline (h : Along w s u) (hact : s.active = active ++ [file])
    (hres : resolveImport w.project reference.specifier file s.cache =
      (.ok (.inlined target), cache)) :
    (u.meet w.project file reference).1.target? = some target ∧
      Along w { s with cache := cache } (u.meet w.project file reference).2 ∧
      Next w { s with cache := cache } (u.meet w.project file reference).2 target := by
  have hu : resolveImport w.project reference.specifier file u.cache =
      (.ok (.inlined target), cache) := h.cache ▸ hres
  have hanswer : (u.meet w.project file reference).1.answer = .ok (.inlined target) := by
    show (resolveImport w.project reference.specifier file u.cache).1 = _
    rw [hu]
  have htarget := Met.target?_eq_some_iff.mpr hanswer
  have hstate : s.meet w.project file reference u = { s with cache := cache } := by
    simp [State.meet, Event.note, Survey.meet, hu]
  rw [← hstate]
  exact ⟨htarget, h.meet (by simp [hact]) reference (by rw [Event.failure?, hanswer]),
    Along.next hact htarget⟩

/-- **A call that is made by another one finds the walk along its survey again.** -/
theorem Stage.nests (h : Stage w levels t c) (hn : Nests w.project c c') :
    ∃ levels' t', Stage w levels' t' c' := by
  have hfewer := hn.card_unvisited_lt h.loadable
  have hloadable := hn.loadable
  have henough := h.enough
  obtain ⟨n, rfl⟩ : ∃ n, levels = n + 1 := ⟨levels - 1, by omega⟩
  obtain @⟨file, target, s, s', loaded, before, after, reference, _, cache, hguard, hload, hrefs,
    hbefore, hres⟩ := hn
  obtain ⟨u, halong, hact, hsurvey⟩ := h.reading hguard hload hrefs hbefore
  obtain ⟨htarget, hmet, hnext⟩ := halong.inline hact hres
  refine ⟨n, _, hmet, hnext, hloadable, by omega, ?_⟩
  -- behind the call the survey goes on with the statements that are left of the file
  have hfile : file.components ∈ s'.active.map Path.components := by simp [hact]
  have hinner := survey_adds (p := w.project) n target _ hmet.orderly
  have hrest := (surveyImports_adds (p := w.project) (survey_adds n) after hinner.orderly
    (hinner.entered (hmet.mem_entered.mpr (Or.inl hfile)))).1
  have hkept := h.kept
  rw [hsurvey, surveyImports_explored _ htarget] at hkept
  refine hkept.before hrest (hact ▸ List.subset_append_left ..) ?_
  rintro k ⟨⟩
  exact hfile

end Reading

/-- **Every walk keeps its notes consistent.**  At every call, and at every return that is no
failure, the visited files are those of the chain and those that are done, without any twice; the
chain leads from the entry over import statements, at a call also to its file; files that are done
inline only such files and reach none of the chain; and each visited file has one record.  So the
guard against files that were visited, but are neither on the chain nor done, never stops a call. -/
theorem walk_consistent {d : Disk} {config : Config} {entry : Path}
    (h : prepare d config entry = .ok w) : ∃ made r,
      Runs w.project (.file w.entry) (.start w.name) made r ∧
        w.run = r.map (fun s => s.draft.finish) ∧
        ∀ c ∈ made, Consistent w c.state ∧
          ((c.state.active ++ [c.file]).map Path.components).IsChain (Inlines w.survey.events) ∧
          c.guard? ≠ some .visited ∧
          ∀ inner s, Runs w.project (.file c.file) c.state inner (.ok s) → Consistent w s := by
  have hl := loadable_of_prepare h
  obtain ⟨made, r, hruns, hrun⟩ := Start.exists_runs hl
  have hstage : ∀ c ∈ made, ∃ levels t, Stage w levels t c := by
    refine hruns.forall_made (fun c c' hstage hnests => ?_) ⟨_, _, stage_entry hl⟩
    obtain ⟨levels, t, hstage⟩ := hstage
    exact hstage.nests hnests
  refine ⟨made, r, hruns, hrun, fun c hc => ?_⟩
  obtain ⟨levels, t, hstage⟩ := hstage c hc
  have hconsistent := hstage.consistent hl
  exact ⟨hconsistent, hstage.chain, hconsistent.guard?_ne, fun inner s => hstage.returned hl⟩

theorem diamond_consistent : ∃ w made s,
    prepare diamond .unset (Path.ofString "/p/main.js") = .ok w ∧
      Runs w.project (.file w.entry) (.start w.name) made (.ok s) ∧
        (∀ c ∈ made, Consistent w c.state ∧ c.guard? ≠ some .visited) ∧ Consistent w s := by
  have hprepared : ∃ w, prepare diamond .unset (Path.ofString "/p/main.js") = .ok w ∧
      w.run.isOk = true :=
    exists_ok_and (by decide +kernel)
  obtain ⟨w, hw, hok⟩ := hprepared
  obtain ⟨made, r, hruns, hrun, hall⟩ := walk_consistent hw
  cases r with
  | error f =>
    rw [hrun] at hok
    cases hok
  | ok s =>
    obtain ⟨-, -, -, hreturned⟩ := hall _ hruns.mem_self
    refine ⟨w, made, s, hw, hruns, fun c hc => ?_, hreturned made s hruns⟩
    obtain ⟨hconsistent, -, hguard, -⟩ := hall c hc
    exact ⟨hconsistent, hguard⟩

end Consistency

end ComponentRegistry.Walk
