import ComponentRegistry.Proofs.Disk.Files
import ComponentRegistry.Proofs.Walk.Calls
import ComponentRegistry.Proofs.Walk.Cycles

/-!
# Walks end

A call that goes on from a file has loaded it, so the file is one of the disk
(`isPlaceOfFile_of_loadFile`), and fewer files are left that were not visited
(`Nests.card_unvisited_lt`).  So every call ends, on every disk, and so many levels as the disk has
files are enough (`exists_runs`).  What a walk is called on is a file of the disk, up to its last
call: that one may be on an entry that is no file, or on a path that was asked for by a spelling
that no file can have (`walk_ends`).
-/

namespace ComponentRegistry

open Resolver (IsPlaceOfFile SpellsFile Truthful)

/-! ## What is found by a spelling that no file can have -/

/-- The path is that of a file, but for a spelling that no file can have. -/
structure Resolver.Misspelt (d : Disk) (path : Path) : Prop where
  spelling : ¬ (path.EndsInName ∧ Disk.refusal? path = none)
  file : SpellsFile d path

theorem Resolver.Misspelt.readText {d : Disk} {path : Path} (h : Misspelt d path) :
    ∃ cause, d.readText path = .error cause := by
  obtain ⟨cause, hlost⟩ := h.file.lost h.spelling
  exact ⟨cause, by simp [Disk.readText, Disk.stat, hlost]⟩

/-- What spells a file has the canonical path of one, or is handed on as it is. -/
theorem Resolver.SpellsFile.canonical {d : Disk} {path : Path} (h : SpellsFile d path) :
    IsPlaceOfFile d ((d.canonical path).toOption.getD path) ∨
      Misspelt d ((d.canonical path).toOption.getD path) := by
  by_cases hspelling : path.EndsInName ∧ Disk.refusal? path = none
  · obtain ⟨q, hq, hfile⟩ := h
    obtain ⟨l, content, hl, hn⟩ := Disk.isFile_iff.mp (Disk.isFile_of_spelling hq hspelling hfile)
    have hcanonical : d.canonical path = .ok (Disk.pathOf l) := by rw [Disk.canonical, hl]; rfl
    rw [hcanonical]
    exact Or.inl (isPlaceOfFile_pathOf hl hn)
  · obtain ⟨cause, hlost⟩ := h.lost hspelling
    have hcanonical : d.canonical path = .error cause := by rw [Disk.canonical, hlost]; rfl
    rw [hcanonical]
    exact Or.inr ⟨hspelling, h⟩

namespace Walk

section Ends

variable {d : Disk} {p : Project} {task : Task} {file importer : Path} {s s' : State}
  {loaded : Loaded} {made : List Call} {r : Except Failure State} {c c' : Call} {n : Nat}

/-- From a truthful memory a file is inlined by its canonical path, or else misspelt. -/
theorem resolveImport_truthful {specifier : String} {cache cache' : Cache}
    {answer : Except Failure Outcome} (h : Truthful p.disk cache)
    (hres : resolveImport p specifier importer cache = (answer, cache')) :
    (∀ file, answer = .ok (.inlined file) →
      IsPlaceOfFile p.disk file ∨ Resolver.Misspelt p.disk file) ∧ Truthful p.disk cache' := by
  obtain ⟨hspells, htruthful⟩ :=
    (Resolver.vouches_cache p.disk).find p.resolver specifier importer cache h
  cases hres
  refine ⟨fun file hin => ?_, htruthful⟩
  obtain ⟨hfile, -⟩ := outcome_eq_inlined_iff.mp hin
  have hmap : ((Resolver.find p.disk (Cache.lookups p.disk) p.resolver specifier importer
      cache).1.map fun path => (p.disk.canonical path).toOption.getD path) = some file := hfile
  obtain ⟨path, hfound, rfl⟩ := Option.map_eq_some_iff.mp hmap
  exact (hspells path hfound).canonical

/-- Walking on, a truthful memory stays truthful. -/
theorem Runs.truthful (h : Runs p task s made r) (hs : Truthful p.disk s.cache) :
    ∀ s', r = .ok s' → Truthful p.disk s'.cache := by
  induction h with
  | processed | visited | done =>
    intro s' hs'
    cases hs'
    exact hs
  | active | unloaded | refused | stopped =>
    intro s' hs'
    cases hs'
  | @taken file s loaded made r hguard hload hrest ih =>
    intro s' hs'
    cases r with
    | error f => cases hs'
    | ok s₁ =>
      cases hs'
      exact ih hs s₁ rfl
  | @noted importer reference more s found cache made r hres hnot hrest ih =>
    exact ih (resolveImport_truthful hs hres).2
  | @followed importer file reference more s s₁ cache made made' r hres hcall hrest ihcall ih =>
    exact ih (ihcall (resolveImport_truthful hs hres).2 s₁ rfl)

/-! ## Files that are left -/

/-- The files of a disk that were not visited. -/
def State.unvisited (s : State) (d : Disk) : Finset Path :=
  d.files.filter fun file => file.isAmong s.visited = false

theorem mem_unvisited_iff :
    file ∈ s.unvisited d ↔
      IsPlaceOfFile d file ∧ file.components ∉ s.visited.map Path.components := by
  rw [State.unvisited, Finset.mem_filter, Disk.mem_files_iff, ← isAmong_iff, Bool.not_eq_true]

theorem State.unvisited_subset
    (h : s.visited.map Path.components ⊆ s'.visited.map Path.components) :
    s'.unvisited d ⊆ s.unvisited d := by
  intro file hfile
  obtain ⟨hplace, hnew⟩ := mem_unvisited_iff.mp hfile
  exact mem_unvisited_iff.mpr ⟨hplace, fun hvisited => hnew (h hvisited)⟩

theorem State.card_unvisited_le (s : State) (d : Disk) :
    (s.unvisited d).card ≤ d.nodes.length + 1 :=
  (Finset.card_filter_le ..).trans d.card_files_le

/-- What is visited stays visited. -/
theorem Runs.unvisited_subset (h : Runs p task s made (.ok s')) :
    s'.unvisited d ⊆ s.unvisited d := by
  apply State.unvisited_subset
  rw [h.visited_eq s' rfl, List.map_append]
  exact List.subset_append_right ..

/-- What is loaded is a file of the disk under its canonical path. -/
theorem isPlaceOfFile_of_loadFile (hl : Loadable p file) (h : loadFile p file = .ok loaded) :
    IsPlaceOfFile p.disk file := by
  obtain ⟨path, hpath⟩ := hl loaded h
  exact Disk.isPlaceOfFile_of_readText hpath (readText_of_loadFile h)

/-- Behind a new file that is loaded fewer files are left. -/
theorem State.card_unvisited_takeUp_lt (hl : Loadable p file) (hload : loadFile p file = .ok loaded)
    (hguard : (Call.mk file s).guard? = none) :
    ((s.takeUp p file loaded).unvisited p.disk).card < (s.unvisited p.disk).card := by
  have hkeys : (s.takeUp p file loaded).visited.map Path.components =
      file.components :: s.visited.map Path.components := rfl
  apply Finset.card_lt_card
  rw [Finset.ssubset_iff_of_subset (State.unvisited_subset (hkeys ▸ List.subset_cons_self ..))]
  refine ⟨file, mem_unvisited_iff.mpr ⟨isPlaceOfFile_of_loadFile hl hload, ?_⟩, fun hleft => ?_⟩
  · have hnew := (Call.of_guard?_eq_none hguard).2.2
    rwa [← isAmong_iff, Bool.not_eq_true]
  · exact (mem_unvisited_iff.mp hleft).2 (hkeys ▸ List.mem_cons_self ..)

/-- The file of a call that another one makes has its canonical path, if it can be loaded. -/
theorem Nests.loadable (h : Nests p c c') : Loadable p c'.file := by
  obtain ⟨_, _, _, _, hres⟩ := h
  exact loadable_of_inlined (by rw [hres])

/-- A call adds its file to what is visited before it makes other ones. -/
theorem Nests.visited (h : Nests p c c') :
    c.file.components ∉ c.state.visited.map Path.components ∧
      c.file :: c.state.visited <:+ c'.state.visited := by
  obtain ⟨hguard, -, -, hbefore, -⟩ := h
  refine ⟨?_, ?_⟩
  · have hnew := (Call.of_guard?_eq_none hguard).2.2
    rwa [← isAmong_iff, Bool.not_eq_true]
  · exact ⟨_, (hbefore.visited_eq _ rfl).symm⟩

/-- **A call that another one makes finds fewer files left.** -/
theorem Nests.card_unvisited_lt (hl : Loadable p c.file) (h : Nests p c c') :
    (c'.state.unvisited p.disk).card < (c.state.unvisited p.disk).card := by
  obtain ⟨hguard, hload, -, hbefore, -⟩ := h
  have hdown := State.card_unvisited_takeUp_lt hl hload hguard
  have hstays := Finset.card_le_card (hbefore.unvisited_subset (d := p.disk))
  exact hstays.trans_lt hdown

theorem card_unvisited_lt_of_transGen (hl : Loadable p c.file)
    (h : Relation.TransGen (Nests p) c c') :
    (c'.state.unvisited p.disk).card < (c.state.unvisited p.disk).card := by
  induction h using Relation.TransGen.head_induction_on with
  | single hone => exact hone.card_unvisited_lt hl
  | head hone _ ih => exact (ih hone.loadable).trans (hone.card_unvisited_lt hl)

/-! ## Levels that are enough -/

/-- Import statements are taken to their end if calls end that find so few files left. -/
theorem exists_runs_imports (importer : Path) {follow : Path → State → Except Failure State}
    (hfollow : ∀ file s, Loadable p file → (s.unvisited p.disk).card < n →
      ∃ made, Runs p (.file file) s made (follow file s))
    (refs : List Script.Reference) (hn : (s.unvisited p.disk).card < n) :
    ∃ made, Runs p (.imports importer refs) s made (takeImports p follow importer refs s) := by
  induction refs generalizing s with
  | nil => exact ⟨[], .done⟩
  | cons reference more ih =>
    rcases hres : resolveImport p reference.specifier importer s.cache with ⟨answer, cache⟩
    unfold takeImports
    rw [hres]
    cases answer with
    | error f => exact ⟨[], .refused hres⟩
    | ok found =>
      -- what is noted leaves the files that are left
      have hnoted : (∀ file, found ≠ .inlined file) → ∃ made,
          Runs p (.imports importer (reference :: more)) s made
            (takeImports p follow importer more (s.noted reference.specifier found cache)) := by
        intro hnot
        obtain ⟨made, hrest⟩ := ih (s := s.noted reference.specifier found cache) hn
        exact ⟨made, .noted hres hnot hrest⟩
      cases found with
      | registry | external | workspace => exact hnoted (by simp)
      | inlined file =>
        have hl : Loadable p file := loadable_of_inlined (by rw [hres])
        obtain ⟨made, hcall⟩ := hfollow file { s with cache := cache } hl hn
        cases hback : follow file { s with cache := cache } with
        | error f =>
          rw [hback] at hcall
          simp only [hback]
          exact ⟨made, .stopped hres hcall⟩
        | ok s₁ =>
          rw [hback] at hcall
          simp only [hback]
          have hstays := Finset.card_le_card (hcall.unvisited_subset (d := p.disk))
          obtain ⟨made', hrest⟩ := ih (hstays.trans_lt hn)
          exact ⟨made ++ made', .followed hres hcall hrest⟩

/-- **Every call ends**: more levels than files are left are enough to find out how. -/
theorem exists_runs (levels : Nat) (hl : Loadable p file)
    (hn : (s.unvisited p.disk).card < levels) :
    ∃ made, Runs p (.file file) s made (process p levels file s) := by
  induction levels generalizing file s with
  | zero => exact absurd hn (Nat.not_lt_zero _)
  | succ levels ih =>
    have hguard? : (Call.mk file s).guard? = if file.isAmong s.processed then some .processed
        else if file.isAmong s.active then some .active
        else if file.isAmong s.visited then some .visited else none := rfl
    unfold process
    split_ifs with hproc hact hvis
    · exact ⟨_, .processed (by rw [hguard?, if_pos hproc])⟩
    · exact ⟨_, .active (by rw [hguard?, if_neg hproc, if_pos hact])⟩
    · exact ⟨_, .visited (by rw [hguard?, if_neg hproc, if_neg hact, if_pos hvis])⟩
    · have hguard : (Call.mk file s).guard? = none := by
        rw [hguard?, if_neg hproc, if_neg hact, if_neg hvis]
      cases hload : loadFile p file with
      | error f => exact ⟨_, .unloaded hguard hload⟩
      | ok loaded =>
        have hdown := State.card_unvisited_takeUp_lt hl hload hguard
        obtain ⟨made, hrest⟩ := exists_runs_imports file (fun file s hl hn => ih hl hn)
          loaded.summary.imports (s := s.takeUp p file loaded) (by omega)
        have hall := Runs.taken hguard hload hrest
        simp only [State.takeUp, State.enter] at hall ⊢
        cases htake : takeImports p (process p levels) file loaded.summary.imports _ with
        | error f =>
          rw [htake] at hall
          exact ⟨_, hall⟩
        | ok s₁ =>
          rw [htake] at hall
          exact ⟨_, hall⟩

/-- How a call ends is what the walk computes, with any levels that are enough. -/
theorem Runs.process_eq (h : Runs p (.file file) s made r) (hl : Loadable p file) {levels : Nat}
    (hn : (s.unvisited p.disk).card < levels) : process p levels file s = r := by
  obtain ⟨made', h'⟩ := exists_runs levels hl hn
  exact (h'.unique h).2

theorem Runs.takeImports_eq {refs : List Script.Reference}
    (h : Runs p (.imports importer refs) s made r) {levels : Nat}
    (hn : (s.unvisited p.disk).card < levels) :
    takeImports p (process p levels) importer refs s = r := by
  obtain ⟨made', h'⟩ := exists_runs_imports importer
    (fun file s hl hn => exists_runs levels hl hn) refs hn
  exact (h'.unique h).2

/-- A walk that fails, fails to load the file of a call that was made, or finds an import statement
that nothing answers to or that closes a cycle. -/
theorem Runs.raised (h : Runs p task s made r) : ∀ f, r = .error f →
    (∃ c ∈ made, c.guard? = none ∧ loadFile p c.file = .error f) ∨
      (∃ specifier importer, f = .unresolvedImport specifier importer) ∨
        ∃ chain, f = .circularDependency chain := by
  induction h with
  | processed | visited | done =>
    intro f hf
    cases hf
  | active hguard =>
    intro f hf
    cases hf
    exact Or.inr (Or.inr ⟨_, rfl⟩)
  | unloaded hguard hload =>
    intro f hf
    cases hf
    exact Or.inl ⟨_, List.mem_singleton.mpr rfl, hguard, hload⟩
  | @taken file s loaded made r hguard hload hrest ih =>
    intro f hf
    cases r with
    | ok s₁ => cases hf
    | error g =>
      cases hf
      refine (ih _ rfl).imp_left ?_
      rintro ⟨c, hc, hnew⟩
      exact ⟨c, List.mem_cons_of_mem _ hc, hnew⟩
  | refused hres =>
    intro f hf
    cases hf
    exact Or.inr (Or.inl ⟨_, _, of_resolveImport_error (by rw [hres])⟩)
  | noted hres hnot hrest ih => exact ih
  | stopped hres hcall ih => exact ih
  | followed hres hcall hrest ihcall ih =>
    intro f hf
    refine (ih f hf).imp_left ?_
    rintro ⟨c, hc, hnew⟩
    exact ⟨c, List.mem_append_right _ hc, hnew⟩

/-- What a walk fails to read is what a new call was made on. -/
theorem Runs.exists_call_of_read {path : Path} {cause : IoFault}
    (h : Runs p task s made (.error (.read path cause))) :
    ∃ c ∈ made, c.guard? = none ∧ c.file = path := by
  rcases h.raised _ rfl with ⟨c, hc, hguard, hload⟩ | ⟨_, _, hother⟩ | ⟨_, hother⟩
  · refine ⟨c, hc, hguard, ?_⟩
    rcases of_loadFile_error hload with ⟨cause', hread⟩ | ⟨_, hother⟩ | ⟨_, hother⟩
    · unfold Failure.ofRead at hread
      split_ifs at hread
      exact (Failure.read.inj hread).1.symm
    · cases hother
    · cases hother
  · cases hother
  · cases hother

end Ends

/-! ## Whole walks -/

section Whole

variable {w : Start} {made : List Call} {r : Except Failure State} {c c' : Call}

/-- What a walk computes is how the call on its entry ends. -/
theorem Start.exists_runs (hl : Loadable w.project w.entry) : ∃ made r,
    Runs w.project (.file w.entry) (.start w.name) made r ∧
      w.run = r.map fun s => s.draft.finish := by
  have hle := State.card_unvisited_le (.start w.name) w.project.disk
  have henough : ((State.start w.name).unvisited w.project.disk).card < levels w.project.disk := by
    unfold levels
    omega
  obtain ⟨made, hruns⟩ := Walk.exists_runs (levels w.project.disk) hl henough
  exact ⟨made, _, hruns, rfl⟩

/-- What a call of a walk is made on is the entry, or was found from a truthful memory. -/
structure Founded (w : Start) (c : Call) : Prop where
  memory : Truthful w.project.disk c.state.cache
  file : c.file = w.entry ∨ IsPlaceOfFile w.project.disk c.file ∨
    Resolver.Misspelt w.project.disk c.file

theorem founded_entry (w : Start) : Founded w ⟨w.entry, .start w.name⟩ :=
  ⟨Resolver.truthful_empty _, Or.inl rfl⟩

theorem Founded.nests (h : Founded w c) (hn : Nests w.project c c') : Founded w c' := by
  obtain ⟨hguard, hload, hrefs, hbefore, hres⟩ := hn
  have hmemory := hbefore.truthful h.memory _ rfl
  obtain ⟨hfound, hlater⟩ := resolveImport_truthful hmemory hres
  exact ⟨hlater, Or.inr (hfound _ rfl)⟩

/-- A call of a walk on what is no file: nothing can be read there, and the walk ends with that. -/
structure Stray (w : Start) (made : List Call) (r : Except Failure State) (c : Call) : Prop where
  last : made.getLast? = some c
  noFile : c.file ∉ w.project.disk.files
  unread : ∃ cause, w.project.disk.readText c.file = .error cause ∧
    r = .error (.ofRead c.file cause)
  file : c.file = w.entry ∨ Resolver.Misspelt w.project.disk c.file

/-- What a new call is made on is a file of the disk, or the call is a stray one. -/
theorem isPlaceOfFile_or_stray {path : Path} (hw : w.project.disk.canonical path = .ok w.entry)
    (h : Runs w.project (.file w.entry) (.start w.name) made r) (hc : c ∈ made)
    (hguard : c.guard? = none) : IsPlaceOfFile w.project.disk c.file ∨ Stray w made r c := by
  have hall : ∀ c ∈ made, Founded w c := h.forall_made (fun _ _ => Founded.nests) (founded_entry w)
  by_cases hplace : IsPlaceOfFile w.project.disk c.file
  · exact Or.inl hplace
  have hfile : c.file = w.entry ∨ Resolver.Misspelt w.project.disk c.file :=
    (hall c hc).file.imp_right fun hfound => hfound.resolve_left hplace
  have hunread : ∃ cause, w.project.disk.readText c.file = .error cause := by
    rcases hfile with hentry | hmisspelt
    · cases hread : w.project.disk.readText c.file with
      | error cause => exact ⟨cause, rfl⟩
      | ok text =>
        rw [← hentry] at hw
        exact absurd (Disk.isPlaceOfFile_of_readText hw hread) hplace
    · exact hmisspelt.readText
  obtain ⟨cause, hread⟩ := hunread
  have hload : loadFile w.project c.file = .error (.ofRead c.file cause) := by
    simp [loadFile, SourceSummary.ofFile, hread, bind, Except.bind]
  obtain ⟨hr, hlast⟩ := h.of_unloaded hc hguard hload
  exact Or.inr ⟨hlast, mt Disk.mem_files_iff.mp hplace, ⟨cause, hread, hr⟩, hfile⟩

/-- Files that are taken up once each are no more than those that they are among. -/
theorem length_takenUp_le (honce : ((takenUp made).map Path.components).Nodup) {files : Finset Path}
    (h : ∀ file ∈ takenUp made, file ∈ files) : (takenUp made).length ≤ files.card := by
  rw [← List.toFinset_card_of_nodup (List.Nodup.of_map _ honce)]
  apply Finset.card_le_card
  intro file hfile
  exact h file (List.mem_toFinset.mp hfile)

/-- How a walk ends, and which calls are made on its way. -/
structure Ending (w : Start) (made : List Call) (r : Except Failure State) : Prop where
  runs : Runs w.project (.file w.entry) (.start w.name) made r
  /-- What the walk computes is how the call on the entry ends. -/
  result : w.run = r.map fun s => s.draft.finish
  /-- The calls are those that the call on the entry nests, over any number of calls. -/
  calls : ∀ c, c ∈ made ↔ Relation.ReflTransGen (Nests w.project) ⟨w.entry, .start w.name⟩ c
  /-- A call that makes another one has added its file to what is visited; nothing is taken away. -/
  adds : ∀ c ∈ made, ∀ c', Nests w.project c c' →
    c.file.components ∉ c.state.visited.map Path.components ∧
      c.file :: c.state.visited <:+ c'.state.visited
  /-- Along every chain of nested calls fewer and fewer files are left. -/
  fewer : ∀ c ∈ made, ∀ c', Relation.TransGen (Nests w.project) c c' →
    (c'.state.unvisited w.project.disk).card < (c.state.unvisited w.project.disk).card
  /-- What the new calls are made on is visited, each file once. -/
  once : ((takenUp made).map Path.components).Nodup
  visited : ∀ s, r = .ok s → s.visited = (takenUp made).reverse
  /-- It is a file of the disk, but for a last call that ends the walk. -/
  onFile : ∀ c ∈ made, c.guard? = none →
    c.file ∈ w.project.disk.files ∨ Stray w made r c
  /-- There are as many new calls as files at most, and one more for a stray one. -/
  atMost : (takenUp made).length ≤ w.project.disk.files.card + 1
  atMostFiles : (∀ c ∈ made, c.guard? = none → ¬ Stray w made r c) →
    (takenUp made).length ≤ w.project.disk.files.card

/-- **Every walk ends.**  On every disk, with any settings and from every entry, finitely many calls
are made.  Along each chain of nested calls the files that were not visited become fewer, and there
are not more calls that take up a file than the disk has files, but for a last one that is on no
file and ends the walk with a failure to read. -/
theorem walk_ends {d : Disk} {config : Config} {entry : Path} (h : prepare d config entry = .ok w) :
    ∃ made r, Ending w made r := by
  have hl := loadable_of_prepare h
  obtain ⟨hdisk, -, hentry⟩ := of_prepare h
  rw [← hdisk] at hentry
  obtain ⟨made, r, hruns, hrun⟩ := Start.exists_runs hl
  have honce : ((takenUp made).map Path.components).Nodup := by
    have hnodup := hruns.nodup List.nodup_nil
    rw [State.start, List.append_nil, List.map_reverse] at hnodup
    exact List.nodup_reverse.mp hnodup
  have honFile : ∀ c ∈ made, c.guard? = none →
      c.file ∈ w.project.disk.files ∨ Stray w made r c := by
    intro c hc hguard
    exact (isPlaceOfFile_or_stray hentry hruns hc hguard).imp_left Disk.mem_files_iff.mpr
  have hloadable : ∀ c ∈ made, Loadable w.project c.file :=
    hruns.forall_made (fun _ _ _ hnests => hnests.loadable) hl
  refine ⟨made, r, {
    runs := hruns
    result := hrun
    calls := fun c => hruns.mem_iff
    adds := fun c _ c' => Nests.visited
    fewer := fun c hc c' => card_unvisited_lt_of_transGen (hloadable c hc)
    once := honce
    visited := ?_
    onFile := honFile
    atMost := ?_
    atMostFiles := ?_ }⟩
  · intro s hs
    rw [hruns.visited_eq s hs]
    exact List.append_nil _
  · by_cases hstray : ∃ c ∈ made, Stray w made r c
    · -- what is taken up is on the disk, or it is what the last call is made on
      obtain ⟨last, -, hlast⟩ := hstray
      have hall : ∀ file ∈ takenUp made, file ∈ insert last.file w.project.disk.files := by
        intro file hfile
        obtain ⟨c, hc, hguard, rfl⟩ := mem_takenUp.mp hfile
        rcases honFile c hc hguard with hon | hother
        · exact Finset.mem_insert_of_mem hon
        · obtain rfl : c = last := Option.some.inj (hother.last.symm.trans hlast.last)
          exact Finset.mem_insert_self ..
      exact (length_takenUp_le honce hall).trans (Finset.card_insert_le ..)
    · refine (length_takenUp_le honce fun file hfile => ?_).trans (Nat.le_succ _)
      obtain ⟨c, hc, hguard, rfl⟩ := mem_takenUp.mp hfile
      exact (honFile c hc hguard).resolve_right fun hother => hstray ⟨c, hc, hother⟩
  · intro hnone
    refine length_takenUp_le honce fun file hfile => ?_
    obtain ⟨c, hc, hguard, rfl⟩ := mem_takenUp.mp hfile
    exact (honFile c hc hguard).resolve_right (hnone c hc hguard)

/-- Two files that import each other, one of them by a link. -/
def knot : Disk where
  nodes := [
    (Disk.locationOf "p", .directory),
    (Disk.locationOf "p/main.js", .file (.text "import './a';")),
    (Disk.locationOf "p/a.js", .file (.text "import './b';")),
    (Disk.locationOf "p/b.js", .file (.text "import './alias';")),
    (Disk.locationOf "p/alias.js", .link (Path.ofString "a.js"))]
  workingDirectory := Path.ofString "/p"

theorem knot_ends : ∃ w made chain, prepare knot .unset (Path.ofString "/p/main.js") = .ok w ∧
    Ending w made (.error (.circularDependency chain)) ∧ (takenUp made).length ≤ 3 := by
  have hprepared : ∃ w, prepare knot .unset (Path.ofString "/p/main.js") = .ok w ∧
      (w.run = .error (.circularDependency "main.js -> a.js -> b.js -> a.js") ∧
        w.project.disk.files.card = 3) :=
    exists_ok_and (by decide +kernel)
  obtain ⟨w, hw, hrun, hfiles⟩ := hprepared
  obtain ⟨made, r, hends⟩ := walk_ends hw
  have hr := hends.result
  rw [hrun] at hr
  cases r with
  | ok s => cases hr
  | error f =>
    cases hr
    refine ⟨w, made, _, hw, hends, hfiles ▸ hends.atMostFiles fun c _ _ hstray => ?_⟩
    obtain ⟨cause, -, hread⟩ := hstray.unread
    have hroot := congrArg Failure.rootCause (Except.error.inj hread)
    rcases rootCause_ofRead c.file cause with hcause | hcause
    · rw [hcause] at hroot
      cases hroot
    · rw [hcause] at hroot
      cases hroot

/-- A file that is imported by a link to it, and once more with a slash behind the name. -/
def shortcut : Disk where
  nodes := [
    (Disk.locationOf "p", .directory),
    (Disk.locationOf "p/main.ts", .file (.text "import './link.ts';\nimport './link.ts/';\n")),
    (Disk.locationOf "p/real.ts", .file (.text "export const a = 1;\n")),
    (Disk.locationOf "p/link.ts", .link (Path.ofString "real.ts"))]
  workingDirectory := Path.ofString "/p"

/-- The last call is on what is no file, and more calls are new than there are files. -/
theorem shortcut_strays : ∃ w made r c,
    prepare shortcut .unset (Path.ofString "/p/main.ts") = .ok w ∧
      Runs w.project (.file w.entry) (.start w.name) made r ∧ c ∈ made ∧ c.guard? = none ∧
        ¬ IsPlaceOfFile w.project.disk c.file ∧
        w.project.disk.files.card < (takenUp made).length := by
  have hprepared : ∃ w, prepare shortcut .unset (Path.ofString "/p/main.ts") = .ok w ∧
      (w.run = .error (.read (Path.ofString "/p/./link.ts/") .notDirectory) ∧
        w.entry = Path.ofString "/p/main.ts" ∧
        ¬ IsPlaceOfFile w.project.disk (Path.ofString "/p/./link.ts/") ∧
        w.project.disk.files.card = 2 ∧
        (loadFile w.project w.entry).toOption.any (fun loaded =>
          loaded.summary.imports.head?.any fun reference =>
            (resolveImport w.project reference.specifier w.entry .empty).1 =
              .ok (.inlined (Path.ofString "/p/real.ts"))) = true) :=
    exists_ok_and (by decide +kernel)
  obtain ⟨w, hw, hrun, hentry, hplace, hfiles, hfirst⟩ := hprepared
  obtain ⟨made, r, hruns, hresult⟩ := Start.exists_runs (loadable_of_prepare hw)
  have hguard : (Call.mk w.entry (.start w.name)).guard? = none := rfl
  -- the walk fails at the path with the slash
  obtain ⟨last, hlast, hnew, hfile⟩ : ∃ c ∈ made, c.guard? = none ∧
      c.file = Path.ofString "/p/./link.ts/" := by
    rw [hrun] at hresult
    cases r with
    | ok s => cases hresult
    | error f =>
      cases hresult
      exact hruns.exists_call_of_read
  -- before that it takes up what the link leads to
  obtain ⟨c, hc, hreal, hcfile⟩ : ∃ c ∈ made, c.guard? = none ∧
      c.file = Path.ofString "/p/real.ts" := by
    obtain ⟨loaded, hload, hhead⟩ := Option.any_eq_true _ _ |>.mp hfirst
    obtain ⟨reference, href, hfound⟩ := Option.any_eq_true _ _ |>.mp hhead
    obtain ⟨more, hmore⟩ := List.head?_eq_some_iff.mp href
    have himports : loaded.summary.imports = [] ++ reference :: more := hmore
    have hnests : Nests w.project ⟨w.entry, .start w.name⟩ ⟨Path.ofString "/p/real.ts",
        { (State.start w.name).takeUp w.project w.entry loaded with
          cache := (resolveImport w.project reference.specifier w.entry .empty).2 }⟩ := by
      refine .mk hguard (ok_of_toOption hload) himports .done ?_
      exact Prod.ext (of_decide_eq_true hfound) rfl
    refine ⟨_, hruns.mem_iff.mpr (Relation.ReflTransGen.single hnests), ?_, rfl⟩
    have hkeys : (Path.ofString "/p/real.ts").isAmong [w.entry] = false := by rw [hentry]; decide
    have hnone : (Path.ofString "/p/real.ts").isAmong [] = false := rfl
    simp [Call.guard?, State.takeUp, State.enter, State.start, hkeys, hnone]
  refine ⟨w, made, r, last, hw, hruns, hlast, hnew, hfile ▸ hplace, ?_⟩
  have hthree : [w.entry, c.file, last.file] ⊆ takenUp made := by
    intro file hmem
    simp only [List.mem_cons, List.not_mem_nil, or_false] at hmem
    rcases hmem with rfl | rfl | rfl
    · exact mem_takenUp.mpr ⟨_, hruns.mem_self, hguard, rfl⟩
    · exact mem_takenUp.mpr ⟨c, hc, hreal, rfl⟩
    · exact mem_takenUp.mpr ⟨last, hlast, hnew, rfl⟩
  have hnodup : [w.entry, c.file, last.file].Nodup := by
    rw [hentry, hcfile, hfile]
    decide
  have hlength := (List.subperm_of_subset hnodup hthree).length_le
  rw [hfiles]
  exact hlength

end Whole
end Walk
end ComponentRegistry
