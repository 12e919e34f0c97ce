import ComponentRegistry.Proofs.Walk.Survey
import Mathlib.Logic.Relation

/-!
# The calls of a walk

A walk calls itself: a call on a file that is new takes the file up and takes its import statements,
and each statement that inlines a file makes another call.  `Runs` says how a call ends and which
calls are made on the way, whatever number of levels that takes; `Nests` says which call makes which
other one at once.  A call ends in one way only (`Runs.unique`), and the calls made on the way are
those that it nests over any number of calls (`Runs.mem_iff`).  No file is taken up twice
(`Runs.nodup`), and after one that cannot be loaded no call is made (`Runs.of_unloaded`).
-/

namespace ComponentRegistry.Walk

/-- A call of the walk: the file that it is made on, and the state that it finds. -/
structure Call where
  file : Path
  state : State

/-- Why a call does not take up its file. -/
inductive Guard where
  | processed
  | active
  | visited
  deriving DecidableEq, Repr

/-- The guard that a call meets; a call that meets none takes up its file. -/
def Call.guard? (c : Call) : Option Guard :=
  if c.file.isAmong c.state.processed then some .processed
  else if c.file.isAmong c.state.active then some .active
  else if c.file.isAmong c.state.visited then some .visited
  else none

namespace State

/-- The state in which the import statements of a file are taken. -/
def takeUp (s : State) (p : Project) (file : Path) (loaded : Loaded) : State :=
  { s.enter file with draft := record p file loaded s.draft }

/-- The state behind an import statement that inlines nothing. -/
def noted (s : State) (specifier : String) (found : Outcome) (cache : Cache) : State :=
  { s with
    cache := cache
    draft := match found with
      | .registry url => s.draft.addRegistryDependency url
      | .external => s.draft.addDependency specifier
      | _ => s.draft }

end State

/-- What a walk is at: a call on a file, or import statements of the file at hand. -/
inductive Task where
  | file (file : Path)
  | imports (importer : Path) (references : List Script.Reference)

/-- `Runs p task s made r`: from the state `s` the task ends with `r`, and `made` are the calls made
on the way, in their order. -/
inductive Runs (p : Project) : Task → State → List Call → Except Failure State → Prop where
  | processed {file : Path} {s : State} : (Call.mk file s).guard? = some .processed →
    Runs p (.file file) s [⟨file, s⟩] (.ok s)
  | active {file : Path} {s : State} : (Call.mk file s).guard? = some .active →
    Runs p (.file file) s [⟨file, s⟩] (.error (.circularDependency (cycleChain p s.active file)))
  | visited {file : Path} {s : State} : (Call.mk file s).guard? = some .visited →
    Runs p (.file file) s [⟨file, s⟩] (.ok s)
  | unloaded {file : Path} {s : State} {f : Failure} : (Call.mk file s).guard? = none →
    loadFile p file = .error f → Runs p (.file file) s [⟨file, s⟩] (.error f)
  | taken {file : Path} {s : State} {loaded : Loaded} {made : List Call}
    {r : Except Failure State} : (Call.mk file s).guard? = none → loadFile p file = .ok loaded →
    Runs p (.imports file loaded.summary.imports) (s.takeUp p file loaded) made r →
    Runs p (.file file) s (⟨file, s⟩ :: made) (r.map fun s => s.leave file)
  | done {importer : Path} {s : State} : Runs p (.imports importer []) s [] (.ok s)
  | refused {importer : Path} {reference : Script.Reference} {more : List Script.Reference}
    {s : State} {f : Failure} {cache : Cache} :
    resolveImport p reference.specifier importer s.cache = (.error f, cache) →
    Runs p (.imports importer (reference :: more)) s [] (.error f)
  | noted {importer : Path} {reference : Script.Reference} {more : List Script.Reference}
    {s : State} {found : Outcome} {cache : Cache} {made : List Call} {r : Except Failure State} :
    resolveImport p reference.specifier importer s.cache = (.ok found, cache) →
    (∀ file, found ≠ .inlined file) →
    Runs p (.imports importer more) (s.noted reference.specifier found cache) made r →
    Runs p (.imports importer (reference :: more)) s made r
  | stopped {importer file : Path} {reference : Script.Reference} {more : List Script.Reference}
    {s : State} {cache : Cache} {made : List Call} {f : Failure} :
    resolveImport p reference.specifier importer s.cache = (.ok (.inlined file), cache) →
    Runs p (.file file) { s with cache := cache } made (.error f) →
    Runs p (.imports importer (reference :: more)) s made (.error f)
  | followed {importer file : Path} {reference : Script.Reference} {more : List Script.Reference}
    {s s' : State} {cache : Cache} {made made' : List Call} {r : Except Failure State} :
    resolveImport p reference.specifier importer s.cache = (.ok (.inlined file), cache) →
    Runs p (.file file) { s with cache := cache } made (.ok s') →
    Runs p (.imports importer more) s' made' r →
    Runs p (.imports importer (reference :: more)) s (made ++ made') r

/-- The first call makes the second one: it takes up its file, takes some import statements, and the
next one inlines the file of the second call. -/
inductive Nests (p : Project) : Call → Call → Prop where
  | mk {file target : Path} {s s' : State} {loaded : Loaded} {before after : List Script.Reference}
    {reference : Script.Reference} {made : List Call} {cache : Cache} :
    (Call.mk file s).guard? = none → loadFile p file = .ok loaded →
    loaded.summary.imports = before ++ reference :: after →
    Runs p (.imports file before) (s.takeUp p file loaded) made (.ok s') →
    resolveImport p reference.specifier file s'.cache = (.ok (.inlined target), cache) →
    Nests p ⟨file, s⟩ ⟨target, { s' with cache := cache }⟩

section Runs

variable {p : Project} {task : Task} {file importer : Path} {s s' : State} {made made' : List Call}
  {r r' : Except Failure State} {before after : List Script.Reference}

/-! ## One end -/

/-- Each task ends in one way, after the same calls. -/
theorem Runs.unique (h : Runs p task s made r) (h' : Runs p task s made' r') :
    made = made' ∧ r = r' := by
  induction h generalizing made' r' with
  | processed hguard =>
    cases h' with
    | processed => exact ⟨rfl, rfl⟩
    | active hguard' | visited hguard' | unloaded hguard' | taken hguard' =>
      rw [hguard] at hguard'; cases hguard'
  | active hguard =>
    cases h' with
    | active => exact ⟨rfl, rfl⟩
    | processed hguard' | visited hguard' | unloaded hguard' | taken hguard' =>
      rw [hguard] at hguard'; cases hguard'
  | visited hguard =>
    cases h' with
    | visited => exact ⟨rfl, rfl⟩
    | processed hguard' | active hguard' | unloaded hguard' | taken hguard' =>
      rw [hguard] at hguard'; cases hguard'
  | unloaded hguard hload =>
    cases h' with
    | unloaded _ hload' => rw [hload] at hload'; cases hload'; exact ⟨rfl, rfl⟩
    | taken _ hload' => rw [hload] at hload'; cases hload'
    | processed hguard' | active hguard' | visited hguard' =>
      rw [hguard] at hguard'; cases hguard'
  | taken hguard hload _ ih =>
    cases h' with
    | unloaded _ hload' => rw [hload] at hload'; cases hload'
    | taken _ hload' hrest =>
      rw [hload] at hload'
      cases hload'
      obtain ⟨rfl, rfl⟩ := ih hrest
      exact ⟨rfl, rfl⟩
    | processed hguard' | active hguard' | visited hguard' =>
      rw [hguard] at hguard'; cases hguard'
  | done => cases h'; exact ⟨rfl, rfl⟩
  | refused hres =>
    cases h' with
    | refused hres' => rw [hres] at hres'; cases hres'; exact ⟨rfl, rfl⟩
    | noted hres' | stopped hres' | followed hres' => rw [hres] at hres'; cases hres'
  | noted hres hnot _ ih =>
    cases h' with
    | refused hres' => rw [hres] at hres'; cases hres'
    | noted hres' _ hrest => rw [hres] at hres'; cases hres'; exact ih hrest
    | stopped hres' | followed hres' =>
      rw [hres] at hres'; cases hres'; exact absurd rfl (hnot _)
  | stopped hres _ ih =>
    cases h' with
    | refused hres' => rw [hres] at hres'; cases hres'
    | noted hres' hnot => rw [hres] at hres'; cases hres'; exact absurd rfl (hnot _)
    | stopped hres' hcall => rw [hres] at hres'; cases hres'; exact ih hcall
    | followed hres' hcall => rw [hres] at hres'; cases hres'; cases (ih hcall).2
  | followed hres _ _ ihcall ih =>
    cases h' with
    | refused hres' => rw [hres] at hres'; cases hres'
    | noted hres' hnot => rw [hres] at hres'; cases hres'; exact absurd rfl (hnot _)
    | stopped hres' hcall => rw [hres] at hres'; cases hres'; cases (ihcall hcall).2
    | followed hres' hcall hrest =>
      rw [hres] at hres'
      cases hres'
      obtain ⟨rfl, heq⟩ := ihcall hcall
      cases heq
      obtain ⟨rfl, rfl⟩ := ih hrest
      exact ⟨rfl, rfl⟩

/-! ## Import statements in a row -/

/-- Import statements are taken after those before them. -/
theorem Runs.append (h : Runs p (.imports importer before) s made (.ok s'))
    (h' : Runs p (.imports importer after) s' made' r) :
    Runs p (.imports importer (before ++ after)) s (made ++ made') r := by
  induction before generalizing s made with
  | nil =>
    cases h
    exact h'
  | cons reference more ih =>
    cases h with
    | noted hres hnot hrest => exact .noted hres hnot (ih hrest)
    | followed hres hcall hrest =>
      rw [List.append_assoc]
      exact .followed hres hcall (ih hrest)

/-- What is left behind import statements that were taken. -/
theorem Runs.of_append (h : Runs p (.imports importer (before ++ after)) s made r)
    (h' : Runs p (.imports importer before) s made' (.ok s')) :
    ∃ rest, made = made' ++ rest ∧ Runs p (.imports importer after) s' rest r := by
  induction before generalizing s made made' with
  | nil =>
    cases h'
    exact ⟨made, rfl, h⟩
  | cons reference more ih =>
    cases h' with
    | noted hres hnot hrest =>
      cases h with
      | refused hres' => rw [hres] at hres'; cases hres'
      | noted hres' _ hall => rw [hres] at hres'; cases hres'; exact ih hall hrest
      | stopped hres' | followed hres' =>
        rw [hres] at hres'; cases hres'; exact absurd rfl (hnot _)
    | followed hres hcall hrest =>
      cases h with
      | refused hres' => rw [hres] at hres'; cases hres'
      | noted hres' hnot => rw [hres] at hres'; cases hres'; exact absurd rfl (hnot _)
      | stopped hres' hcall' =>
        rw [hres] at hres'
        cases hres'
        cases (hcall.unique hcall').2
      | followed hres' hcall' hall =>
        rw [hres] at hres'
        cases hres'
        obtain ⟨rfl, heq⟩ := hcall.unique hcall'
        cases heq
        obtain ⟨rest, rfl, hafter⟩ := ih hall hrest
        exact ⟨rest, (List.append_assoc ..).symm, hafter⟩

/-! ## Calls that are made -/

/-- A call is the first one that is made on its way. -/
theorem Runs.mem_self (h : Runs p (.file file) s made r) : ⟨file, s⟩ ∈ made := by
  cases h <;> exact List.mem_cons_self ..

/-- A call that is made by another one runs among the calls of that. -/
theorem Nests.runs {c c' : Call} (h : Nests p c c') (hr : Runs p (.file c.file) c.state made r) :
    ∃ inner r', Runs p (.file c'.file) c'.state inner r' ∧ inner ⊆ made := by
  obtain ⟨hguard, hload, hrefs, hbefore, hres⟩ := h
  cases hr with
  | processed hguard' | active hguard' | visited hguard' => rw [hguard] at hguard'; cases hguard'
  | unloaded _ hload' => rw [hload] at hload'; cases hload'
  | taken _ hload' hall =>
    rw [hload] at hload'
    cases hload'
    rw [hrefs] at hall
    obtain ⟨rest, rfl, hafter⟩ := hall.of_append hbefore
    cases hafter with
    | refused hres' => rw [hres] at hres'; cases hres'
    | noted hres' hnot => rw [hres] at hres'; cases hres'; exact absurd rfl (hnot _)
    | stopped hres' hcall =>
      rw [hres] at hres'
      cases hres'
      exact ⟨rest, _, hcall, fun c hc => List.mem_cons_of_mem _ (List.mem_append_right _ hc)⟩
    | @followed _ _ _ _ _ _ _ inner _ _ hres' hcall _ =>
      rw [hres] at hres'
      cases hres'
      refine ⟨inner, _, hcall, fun c hc => List.mem_cons_of_mem _ ?_⟩
      exact List.mem_append_right _ (List.mem_append_left _ hc)

/-- Where a task stands: a call has the property, or the call that the import statements belong to
has it and has taken the statements before them. -/
def Task.Stands (p : Project) (I : Call → Prop) (s : State) : Task → Prop
  | .file file => I ⟨file, s⟩
  | .imports importer after => ∃ start loaded before made,
    I ⟨importer, start⟩ ∧ (Call.mk importer start).guard? = none ∧
      loadFile p importer = .ok loaded ∧ loaded.summary.imports = before ++ after ∧
      Runs p (.imports importer before) (start.takeUp p importer loaded) made (.ok s)

section Stands

variable {I : Call → Prop} {reference : Script.Reference} {more : List Script.Reference}

/-- Behind one import statement stands the next. -/
theorem Task.Stands.next (h : (Task.imports importer (reference :: more)).Stands p I s)
    (hone : Runs p (.imports importer [reference]) s made (.ok s')) :
    (Task.imports importer more).Stands p I s' := by
  obtain ⟨start, loaded, before, earlier, hI, hguard, hload, hrefs, hbefore⟩ := h
  refine ⟨start, loaded, before ++ [reference], earlier ++ made, hI, hguard, hload, ?_,
    hbefore.append hone⟩
  rw [hrefs, List.append_assoc]
  rfl

/-- A statement that inlines a file makes a call on it. -/
theorem Task.Stands.call {cache : Cache} (hstep : ∀ c c', I c → Nests p c c' → I c')
    (h : (Task.imports importer (reference :: more)).Stands p I s)
    (hres : resolveImport p reference.specifier importer s.cache = (.ok (.inlined file), cache)) :
    I ⟨file, { s with cache := cache }⟩ := by
  obtain ⟨start, loaded, before, earlier, hI, hguard, hload, hrefs, hbefore⟩ := h
  exact hstep _ _ hI (.mk hguard hload hrefs hbefore hres)

end Stands

/-- What goes from each call to those that it makes holds of all calls that are made. -/
theorem Runs.forall_made {I : Call → Prop} (hstep : ∀ c c', I c → Nests p c c' → I c')
    (h : Runs p task s made r) (hstands : task.Stands p I s) : ∀ c ∈ made, I c := by
  induction h with
  | processed | active | visited | unloaded =>
    intro c hc
    rw [List.mem_singleton.mp hc]
    exact hstands
  | taken hguard hload hrest ih =>
    intro c hc
    rcases List.mem_cons.mp hc with rfl | hc
    · exact hstands
    · exact ih ⟨_, _, [], [], hstands, hguard, hload, rfl, .done⟩ c hc
  | done | refused =>
    intro c hc
    cases hc
  | noted hres hnot _ ih => exact ih (hstands.next (.noted hres hnot .done))
  | stopped hres _ ih => exact ih (hstands.call hstep hres)
  | followed hres hcall _ ihcall ih =>
    intro c hc
    rcases List.mem_append.mp hc with hc | hc
    · exact ihcall (hstands.call hstep hres) c hc
    · exact ih (hstands.next (.followed hres hcall .done)) c hc

/-- **The calls made on the way are those that are nested over any number of calls.** -/
theorem Runs.mem_iff (h : Runs p (.file file) s made r) {c : Call} :
    c ∈ made ↔ Relation.ReflTransGen (Nests p) ⟨file, s⟩ c := by
  constructor
  · intro hc
    have hall : ∀ c ∈ made, Relation.ReflTransGen (Nests p) ⟨file, s⟩ c :=
      h.forall_made (fun c c' hreach hnests => hreach.tail hnests) Relation.ReflTransGen.refl
    exact hall c hc
  · intro hreach
    have hruns : ∃ inner r', Runs p (.file c.file) c.state inner r' ∧ inner ⊆ made := by
      induction hreach with
      | refl => exact ⟨made, r, h, fun _ hc => hc⟩
      | tail _ hnests ih =>
        obtain ⟨inner, r', hrun, hsub⟩ := ih
        obtain ⟨inner', r'', hrun', hsub'⟩ := hnests.runs hrun
        exact ⟨inner', r'', hrun', List.Subset.trans hsub' hsub⟩
    obtain ⟨inner, r', hrun, hsub⟩ := hruns
    exact hsub hrun.mem_self

end Runs

/-! ## Files that are taken up -/

/-- The files that calls take up, in order. -/
def takenUp (made : List Call) : List Path :=
  (made.filter fun c => c.guard?.isNone).map Call.file

section TakenUp

variable {p : Project} {task : Task} {file : Path} {s s' : State} {made made' : List Call}
  {r : Except Failure State} {f : Failure}

@[simp] theorem takenUp_append (made made' : List Call) :
    takenUp (made ++ made') = takenUp made ++ takenUp made' := by
  simp [takenUp]

theorem takenUp_cons_of_guarded {c : Call} {g : Guard} (h : c.guard? = some g) :
    takenUp (c :: made) = takenUp made := by
  simp [takenUp, h]

theorem takenUp_cons_of_new {c : Call} (h : c.guard? = none) :
    takenUp (c :: made) = c.file :: takenUp made := by
  simp [takenUp, h]

theorem mem_takenUp : file ∈ takenUp made ↔ ∃ c ∈ made, c.guard? = none ∧ c.file = file := by
  simp [takenUp, and_assoc]

theorem Call.of_guard?_eq_none {c : Call} (h : c.guard? = none) :
    c.file.isAmong c.state.processed = false ∧ c.file.isAmong c.state.active = false ∧
      c.file.isAmong c.state.visited = false := by
  unfold Call.guard? at h
  split_ifs at h with hproc hact hvis
  exact ⟨by simpa using hproc, by simpa using hact, by simpa using hvis⟩

/-- What is visited at the end is what was taken up on the way, latest first, and what was visited
before. -/
theorem Runs.visited_eq (h : Runs p task s made r) :
    ∀ s', r = .ok s' → s'.visited = (takenUp made).reverse ++ s.visited := by
  induction h with
  | processed hguard | visited hguard =>
    intro s' hs'
    cases hs'
    rw [takenUp_cons_of_guarded hguard]
    rfl
  | active | unloaded | refused | stopped =>
    intro s' hs'
    cases hs'
  | @taken file s loaded made r hguard hload hrest ih =>
    intro s' hs'
    cases r with
    | error f => cases hs'
    | ok s₁ =>
      cases hs'
      rw [takenUp_cons_of_new hguard, List.reverse_cons, List.append_assoc]
      exact ih s₁ rfl
  | done =>
    intro s' hs'
    cases hs'
    rfl
  | noted hres hnot hrest ih => exact ih
  | @followed importer file reference more s s₁ cache made made' r hres hcall hrest ihcall ih =>
    intro s' hs'
    rw [ih s' hs', ihcall s₁ rfl, takenUp_append, List.reverse_append, List.append_assoc]

/-- **No file is taken up twice**, nor one that was visited before. -/
theorem Runs.nodup (h : Runs p task s made r) (hs : (s.visited.map Path.components).Nodup) :
    (((takenUp made).reverse ++ s.visited).map Path.components).Nodup := by
  have henter : ∀ {file : Path} {s : State}, (Call.mk file s).guard? = none →
      (s.visited.map Path.components).Nodup →
      ((file :: s.visited).map Path.components).Nodup := by
    intro file s hguard hs
    refine List.nodup_cons.mpr ⟨fun hmem => ?_, hs⟩
    have hvis := (Call.of_guard?_eq_none hguard).2.2
    rw [isAmong_iff.mpr hmem] at hvis
    cases hvis
  induction h with
  | processed hguard | active hguard | visited hguard =>
    rw [takenUp_cons_of_guarded hguard]
    exact hs
  | unloaded hguard =>
    rw [takenUp_cons_of_new hguard]
    exact henter hguard hs
  | taken hguard hload hrest ih =>
    rw [takenUp_cons_of_new hguard, List.reverse_cons, List.append_assoc]
    exact ih (henter hguard hs)
  | done | refused => exact hs
  | noted hres hnot hrest ih => exact ih hs
  | stopped hres hcall ih => exact ih hs
  | followed hres hcall hrest ihcall ih =>
    have hvisited := hcall.visited_eq _ rfl
    rw [takenUp_append, List.reverse_append, List.append_assoc]
    rw [hvisited] at ih
    exact ih (ihcall hs)

/-- Only the last call fails to load its file, and the walk ends with its failure. -/
theorem Runs.of_unloaded (h : Runs p task s made r) {c : Call} (hc : c ∈ made)
    (hguard : c.guard? = none) (hload : loadFile p c.file = .error f) :
    r = .error f ∧ made.getLast? = some c := by
  induction h with
  | processed hguard' | active hguard' | visited hguard' =>
    rw [List.mem_singleton.mp hc, hguard'] at hguard
    cases hguard
  | unloaded hguard' hload' =>
    obtain rfl := List.mem_singleton.mp hc
    rw [hload'] at hload
    cases hload
    exact ⟨rfl, rfl⟩
  | taken hguard' hload' hrest ih =>
    rcases List.mem_cons.mp hc with rfl | hc
    · rw [hload'] at hload
      cases hload
    · obtain ⟨rfl, hlast⟩ := ih hc
      refine ⟨rfl, ?_⟩
      rw [List.getLast?_cons_of_ne_nil (List.ne_nil_of_mem hc), hlast]
  | done | refused => cases hc
  | noted hres hnot hrest ih => exact ih hc
  | stopped hres hcall ih => exact ih hc
  | followed hres hcall hrest ihcall ih =>
    rcases List.mem_append.mp hc with hc | hc
    · cases (ihcall hc).1
    · obtain ⟨hr, hlast⟩ := ih hc
      refine ⟨hr, ?_⟩
      rw [List.getLast?_append, hlast]
      rfl

end TakenUp
end ComponentRegistry.Walk
