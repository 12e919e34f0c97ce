import ComponentRegistry.Proofs.Walk.Levels
import Mathlib.Data.List.Chain

/-!
# A walk beside its survey

While nothing goes wrong, a walk and its survey are at the same point (`Along`): the same cache, the
same files taken up, and a draft that holds what the notes say.  The files between the entry and the
one at hand are a chain of import statements, each file is either on that chain or done, and a file
that is done inlines only files that were done before it (`Settled`).

What both do next is said once, for an import statement of the file at hand (`AtStatement`) and for a
file (`AtFile`); whatever is shown of walks and their surveys goes by these cases.  `process_ok` carries
`Along` through a walk that succeeds.
-/

namespace ComponentRegistry.Walk

/-- What an event adds to the findings. -/
def Event.note (p : Project) (d : Draft) : Event → Draft
  | .entered file (.ok loaded) => record p file loaded d
  | .entered _ (.error _) => d
  | .met m =>
    match m.answer with
    | .ok (.registry url) => d.addRegistryDependency url
    | .ok .external => d.addDependency m.reference.specifier
    | _ => d

/-- What went wrong. -/
def Event.failure? : Event → Option Failure
  | .entered _ (.error f) => some f
  | .entered _ (.ok _) => none
  | .met m =>
    match m.answer with
    | .error f => some f
    | .ok _ => none

/-- Of files that are done, latest first: each inlines only files that were done before it. -/
def Settled (es : List Event) : List FileKey → Prop
  | [] => True
  | k :: older => (∀ k', Inlines es k k' → k' ∈ older) ∧ Settled es older

theorem Settled.of_statements_eq {es fs : List Event} {ks : List FileKey} (h : Settled es ks)
    (heq : ∀ k ∈ ks, statements fs k = statements es k) : Settled fs ks := by
  induction ks with
  | nil => trivial
  | cons k older ih =>
    refine ⟨fun k' hi => h.1 k' (hi.of_statements_eq (heq k (by simp))), ih h.2 fun k' hk' => ?_⟩
    exact heq k' (List.mem_cons_of_mem k hk')

/-- The state after an import statement was met. -/
def State.meet (s : State) (p : Project) (importer : Path) (r : Script.Reference) (t : Survey) :
    State :=
  { s with
    cache := (t.meet p importer r).2.cache
    draft := Event.note p s.draft (.met (t.meet p importer r).1) }

section TakeImports

variable {p : Project} {follow : Path → State → Except Failure State} {importer : Path}
  {r : Script.Reference} (more : List Script.Reference) {s : State} {t : Survey}

/-- An import statement that is refused ends the walk. -/
theorem takeImports_refused (h : s.cache = t.cache) {f : Failure}
    (hm : (t.meet p importer r).1.answer = .error f) :
    takeImports p follow importer (r :: more) s = .error f := by
  simp only [takeImports, Survey.meet, h] at hm ⊢
  cases hres : resolveImport p r.specifier importer t.cache with
  | mk answer cache =>
    rw [hres] at hm
    rw [show answer = .error f from hm]

/-- An import statement that inlines nothing is noted. -/
theorem takeImports_noted (h : s.cache = t.cache) {found : Outcome}
    (hm : (t.meet p importer r).1.answer = .ok found)
    (htarget : (t.meet p importer r).1.target? = none) :
    takeImports p follow importer (r :: more) s =
      takeImports p follow importer more (s.meet p importer r t) := by
  simp only [takeImports, State.meet, Survey.meet, Met.target?, h] at hm htarget ⊢
  cases hres : resolveImport p r.specifier importer t.cache with
  | mk answer cache =>
    rw [hres] at hm htarget
    rw [show answer = .ok found from hm] at htarget ⊢
    cases found with
    | inlined file => cases htarget
    | registry url => rfl
    | external => rfl
    | workspace => rfl

/-- A file that is inlined is followed. -/
theorem takeImports_followed (h : s.cache = t.cache) {file : Path}
    (htarget : (t.meet p importer r).1.target? = some file) :
    takeImports p follow importer (r :: more) s =
      match follow file (s.meet p importer r t) with
      | .error f => .error f
      | .ok s₂ => takeImports p follow importer more s₂ := by
  simp only [takeImports, State.meet, Survey.meet, Met.target?, h] at htarget ⊢
  cases hres : resolveImport p r.specifier importer t.cache with
  | mk answer cache =>
    rw [hres] at htarget
    cases answer with
    | error f => cases htarget
    | ok found =>
      cases found with
      | inlined file' => cases htarget; rfl
      | registry url => cases htarget
      | external => cases htarget
      | workspace => cases htarget

end TakeImports

/-- A walk's state and its survey are at the same point, and nothing went wrong so far. -/
structure Along (w : Start) (s : State) (t : Survey) : Prop where
  cache : s.cache = t.cache
  draft : s.draft = t.events.foldl (Event.note w.project) (.start w.name)
  fine : ∀ e ∈ t.events, e.failure? = none
  orderly : Orderly t.events
  visited : s.visited = (entries t.events).reverse
  split : s.visited.Perm (s.active ++ s.processed)
  chain : (s.active.map Path.components).IsChain (Inlines t.events)
  origin : ∀ file, s.active.head? = some file → file = w.entry
  settled : Settled t.events (s.processed.map Path.components)

/-- A file is next: the file at hand inlines it, or it is the entry. -/
structure Next (w : Start) (s : State) (t : Survey) (file : Path) : Prop where
  edge : ∀ last, s.active.getLast? = some last → Inlines t.events last.components file.components
  entry : s.active = [] → file = w.entry

section Along

variable {w : Start} {s : State} {t : Survey}

theorem along_start (w : Start) : Along w (.start w.name) .start where
  cache := rfl
  draft := rfl
  fine := by simp [Survey.start]
  orderly := orderly_nil
  visited := rfl
  split := by simp [State.start]
  chain := .nil
  origin := by simp [State.start]
  settled := trivial

theorem Along.mem_visited (h : Along w s t) {k : FileKey} :
    k ∈ s.visited.map Path.components ↔ k ∈ enteredKeys t.events := by
  rw [h.visited, List.map_reverse, List.mem_reverse]
  rfl

/-- The files taken up are those on the chain and those that are done. -/
theorem Along.mem_entered (h : Along w s t) {k : FileKey} :
    k ∈ enteredKeys t.events ↔
      k ∈ s.active.map Path.components ∨ k ∈ s.processed.map Path.components := by
  rw [← h.mem_visited, (h.split.map Path.components).mem_iff, List.map_append, List.mem_append]

/-- No file is twice on the chain, twice done, or both. -/
theorem Along.nodup (h : Along w s t) :
    (s.active.map Path.components ++ s.processed.map Path.components).Nodup := by
  rw [← List.map_append, ← (h.split.map Path.components).nodup_iff, h.visited, List.map_reverse,
    List.nodup_reverse]
  exact h.orderly.once

theorem Along.not_processed (h : Along w s t) {k : FileKey} (hk : k ∈ s.active.map Path.components) :
    k ∉ s.processed.map Path.components :=
  fun hp => (List.nodup_append.mp h.nodup).2.2 k hk k hp rfl

/-- The chain goes on to the file that is next. -/
theorem Along.chain_next (h : Along w s t) {file : Path} (hn : Next w s t file) :
    ((s.active ++ [file]).map Path.components).IsChain (Inlines t.events) := by
  rw [List.map_append]
  refine h.chain.append (.singleton _) fun k hk k' hk' => ?_
  rw [List.getLast?_map, Option.mem_def, Option.map_eq_some_iff] at hk
  obtain ⟨last, hlast, rfl⟩ := hk
  cases hk'
  exact hn.edge last hlast

theorem head?_append_next (h : Along w s t) {file : Path} (hn : Next w s t file) :
    ∀ g, (s.active ++ [file]).head? = some g → g = w.entry := by
  intro g hg
  cases hact : s.active with
  | nil =>
    rw [hact] at hg
    cases hg
    exact hn.entry hact
  | cons f rest =>
    rw [hact] at hg
    cases hg
    exact h.origin _ (by rw [hact]; rfl)

/-- Taking up a new file. -/
theorem Along.enter {file : Path} (h : Along w s t) (hn : Next w s t file)
    (hnew : file.components ∉ enteredKeys t.events) (loaded : Loaded) :
    Along w { s.enter file with draft := record w.project file loaded s.draft }
      (t.enter file (.ok loaded)) where
  cache := h.cache
  draft := by
    show record w.project file loaded s.draft = _
    rw [h.draft, Survey.enter_events, List.foldl_append]
    rfl
  fine := by
    intro e he
    rcases List.mem_append.mp he with he | he
    · exact h.fine e he
    · cases List.mem_singleton.mp he; rfl
  orderly := h.orderly.enter hnew
  visited := by
    show file :: s.visited = _
    rw [h.visited, Survey.enter_events, entries_append, List.reverse_append]
    rfl
  split := by
    show (file :: s.visited).Perm (s.active ++ [file] ++ s.processed)
    rw [List.append_assoc]
    exact (h.split.cons file).trans List.perm_middle.symm
  chain := (h.chain_next hn).imp fun _ _ => Inlines.mono (List.prefix_append _ _)
  origin := head?_append_next h hn
  settled := h.settled.of_statements_eq fun k _ => by simp [Survey.enter_events]

/-- Being done with the file at the end of the chain, whose targets are all done. -/
theorem Along.leave {file : Path} {above : List Path} (h : Along w s t)
    (hact : s.active = above ++ [file])
    (hdone : ∀ k, Inlines t.events file.components k → k ∈ s.processed.map Path.components) :
    Along w (s.leave file) t := by
  have hleave : (s.leave file).active = above := by
    show s.active.dropLast = above
    rw [hact, List.dropLast_concat]
  refine { h with split := ?_, chain := ?_, origin := ?_, settled := ⟨hdone, h.settled⟩ }
  · rw [hleave]
    show s.visited.Perm (above ++ file :: s.processed)
    have := h.split
    rwa [hact, List.append_assoc] at this
  · have := h.chain
    rw [hact, List.map_append] at this
    rw [hleave]
    exact this.left_of_append
  · intro g hg
    rw [hleave] at hg
    refine h.origin g ?_
    rw [hact, List.head?_append, hg]
    rfl

/-- Meeting an import statement that is answered. -/
theorem Along.meet {importer : Path} (h : Along w s t) (hi : importer ∈ s.active)
    (r : Script.Reference) (hm : (Event.met (t.meet w.project importer r).1).failure? = none) :
    Along w (s.meet w.project importer r t) (t.meet w.project importer r).2 where
  cache := rfl
  draft := by
    rw [Survey.meet_events, List.foldl_append, ← h.draft]
    rfl
  fine := by
    intro e he
    rcases List.mem_append.mp he with he | he
    · exact h.fine e he
    · cases List.mem_singleton.mp he; exact hm
  orderly := h.orderly.meet (h.mem_entered.mpr (Or.inl (List.mem_map_of_mem hi)))
  visited := by
    show s.visited = _
    rw [h.visited, Survey.meet_events, entries_append]
    simp [entries, Event.file?]
  split := h.split
  chain := h.chain.imp fun _ _ => Inlines.mono (List.prefix_append _ _)
  origin := h.origin
  settled := h.settled.of_statements_eq fun k hk => by
    have hne : importer.components ≠ k := by
      rintro rfl
      exact h.not_processed (List.mem_map_of_mem hi) hk
    simp [statements_met, hne]

/-- The file that an import statement of the file at hand inlines is next. -/
theorem Along.next {importer file : Path} {above : List Path} {r : Script.Reference}
    (hact : s.active = above ++ [importer])
    (htarget : (t.meet w.project importer r).1.target? = some file) :
    Next w (s.meet w.project importer r t) (t.meet w.project importer r).2 file := by
  have hact' : (s.meet w.project importer r t).active = above ++ [importer] := hact
  refine ⟨fun last hlast => ?_, fun hnil => ?_⟩
  · rw [hact', List.getLast?_concat] at hlast
    cases hlast
    exact inlines_of_target htarget
  · rw [hact'] at hnil
    exact absurd hnil (by simp)

end Along

/-! ## What a walk does next -/

/-- What happens at an import statement of the file at hand: it is refused, it is noted, or the file
that it inlines is followed. -/
inductive AtStatement (w : Start) (follow : Path → State → Except Failure State)
    (explore : Path → Survey → Survey) (importer : Path) (r : Script.Reference)
    (more : List Script.Reference) (s : State) (t : Survey) : Prop where
  | refused {f : Failure} (answer : (t.meet w.project importer r).1.answer = .error f)
    (walk : takeImports w.project follow importer (r :: more) s = .error f)
    (notes : surveyImports w.project explore importer (r :: more) t =
      surveyImports w.project explore importer more (t.meet w.project importer r).2)
  | noted {found : Outcome} (answer : (t.meet w.project importer r).1.answer = .ok found)
    (target : (t.meet w.project importer r).1.target? = none)
    (along : Along w (s.meet w.project importer r t) (t.meet w.project importer r).2)
    (walk : takeImports w.project follow importer (r :: more) s =
      takeImports w.project follow importer more (s.meet w.project importer r t))
    (notes : surveyImports w.project explore importer (r :: more) t =
      surveyImports w.project explore importer more (t.meet w.project importer r).2)
  | followed {file : Path} (target : (t.meet w.project importer r).1.target? = some file)
    (along : Along w (s.meet w.project importer r t) (t.meet w.project importer r).2)
    (next : Next w (s.meet w.project importer r t) (t.meet w.project importer r).2 file)
    (walk : takeImports w.project follow importer (r :: more) s =
      match follow file (s.meet w.project importer r t) with
      | .error f => .error f
      | .ok s₂ => takeImports w.project follow importer more s₂)
    (notes : surveyImports w.project explore importer (r :: more) t =
      surveyImports w.project explore importer more (explore file (t.meet w.project importer r).2))

/-- What happens at a file: it is done, the chain comes back to it, it cannot be loaded, or it is
taken up and its import statements are taken. -/
inductive AtFile (w : Start) (levels : Nat) (file : Path) (s : State) (t : Survey) : Prop where
  | done (processed : file.components ∈ s.processed.map Path.components)
    (walk : process w.project (levels + 1) file s = .ok s)
    (notes : survey w.project (levels + 1) file t = t)
  | back (active : file.components ∈ s.active.map Path.components)
    (walk : process w.project (levels + 1) file s =
      .error (.circularDependency (cycleChain w.project s.active file)))
    (notes : survey w.project (levels + 1) file t = t)
  | unloaded {f : Failure} (new : file.components ∉ enteredKeys t.events)
    (load : loadFile w.project file = .error f)
    (walk : process w.project (levels + 1) file s = .error f)
    (notes : survey w.project (levels + 1) file t = t.enter file (.error f))
  | loaded {l : Loaded} (new : file.components ∉ enteredKeys t.events)
    (load : loadFile w.project file = .ok l)
    (walk : process w.project (levels + 1) file s =
      (takeImports w.project (process w.project levels) file l.summary.imports
        { s.enter file with draft := record w.project file l s.draft }).map fun s => s.leave file)
    (notes : survey w.project (levels + 1) file t =
      surveyImports w.project (survey w.project levels) file l.summary.imports
        (t.enter file (.ok l)))

section Steps

variable {w : Start} {s : State} {t : Survey}

theorem Along.atStatement (h : Along w s t) (follow : Path → State → Except Failure State)
    (explore : Path → Survey → Survey) {importer : Path} {above : List Path}
    (hact : s.active = above ++ [importer]) (r : Script.Reference) (more : List Script.Reference) :
    AtStatement w follow explore importer r more s t := by
  have hi : importer ∈ s.active := by rw [hact]; simp
  cases htarget : (t.meet w.project importer r).1.target? with
  | some file =>
    have hans := Met.target?_eq_some_iff.mp htarget
    exact .followed htarget (h.meet hi r (by rw [Event.failure?, hans])) (Along.next hact htarget)
      (takeImports_followed more h.cache htarget) (surveyImports_explored more htarget)
  | none =>
    cases hans : (t.meet w.project importer r).1.answer with
    | error f =>
      exact .refused hans (takeImports_refused more h.cache hans) (surveyImports_noted more htarget)
    | ok found =>
      exact .noted hans htarget (h.meet hi r (by rw [Event.failure?, hans]))
        (takeImports_noted more h.cache hans htarget) (surveyImports_noted more htarget)

theorem Along.atFile (h : Along w s t) (levels : Nat) (file : Path) : AtFile w levels file s t := by
  by_cases hold : file.components ∈ enteredKeys t.events
  · -- what was taken up is on the chain or done
    have hnotes : survey w.project (levels + 1) file t = t := by
      rw [survey, if_pos (isAmong_iff.mpr hold)]
    rcases h.mem_entered.mp hold with hactive | hdone
    · have hundone : ¬ file.isAmong s.processed = true := fun hk =>
        h.not_processed hactive (isAmong_iff.mp hk)
      exact .back hactive (by rw [process, if_neg hundone, if_pos (isAmong_iff.mpr hactive)]) hnotes
    · exact .done hdone (by rw [process, if_pos (isAmong_iff.mpr hdone)]) hnotes
  · have hproc : ¬ file.isAmong s.processed = true := fun hk =>
      hold (h.mem_entered.mpr (Or.inr (isAmong_iff.mp hk)))
    have hact : ¬ file.isAmong s.active = true := fun hk =>
      hold (h.mem_entered.mpr (Or.inl (isAmong_iff.mp hk)))
    have hvis : ¬ file.isAmong s.visited = true := fun hk =>
      hold (h.mem_visited.mp (isAmong_iff.mp hk))
    have hnotes := @survey_new w.project levels file t hold
    cases hload : loadFile w.project file with
    | error f =>
      rw [hload] at hnotes
      refine .unloaded hold hload ?_ hnotes
      rw [process, if_neg hproc, if_neg hact, if_neg hvis, hload]
    | ok l =>
      rw [hload] at hnotes
      refine .loaded hold hload ?_ hnotes
      rw [process, if_neg hproc, if_neg hact, if_neg hvis, hload]
      simp only [State.enter]
      cases takeImports w.project (process w.project levels) file l.summary.imports _ <;> rfl

end Steps

/-! ## Walks that succeed -/

section Success

variable {w : Start}

/-- A walk has come back from `file` with the state `s'`. -/
structure Returned (w : Start) (file : Path) (s s' : State) (t' : Survey) : Prop where
  along : Along w s' t'
  active : s'.active = s.active
  processed : s.processed <:+ s'.processed
  done : file.components ∈ s'.processed.map Path.components

theorem mem_processed_of_suffix {s s' : State} (h : s.processed <:+ s'.processed) {k : FileKey}
    (hk : k ∈ s.processed.map Path.components) : k ∈ s'.processed.map Path.components :=
  ((List.IsSuffix.map Path.components h).subset) hk

/-- All targets of the statements that the file at hand has met are done. -/
def TargetsDone (importer : Path) (s : State) (t : Survey) : Prop :=
  ∀ k, Inlines t.events importer.components k → k ∈ s.processed.map Path.components

/-- Of a new file no statement was met. -/
theorem targetsDone_enter {file : Path} {t : Survey} (h : Orderly t.events)
    (hnew : file.components ∉ enteredKeys t.events) (s : State) (found : Except Failure Loaded) :
    TargetsDone file s (t.enter file found) := by
  rintro k ⟨m, hm, -⟩
  rw [Survey.enter_events, statements_append, h.statements_eq_nil hnew] at hm
  cases hm

/-- The last statement's target is done, and so are those of the statements before it. -/
theorem TargetsDone.concat {importer : Path} {s s₂ : State} {t t₂ : Survey} {m : Met}
    (h : TargetsDone importer s t) (hsuf : s.processed <:+ s₂.processed)
    (hst : statements t₂.events importer.components =
      statements t.events importer.components ++ [m])
    (hm : ∀ file, m.target? = some file → file.components ∈ s₂.processed.map Path.components) :
    TargetsDone importer s₂ t₂ := by
  rintro k ⟨m', hm', file, hfile, rfl⟩
  rw [hst] at hm'
  rcases List.mem_append.mp hm' with hm' | hm'
  · exact mem_processed_of_suffix hsuf (h _ ⟨m', hm', file, hfile, rfl⟩)
  · cases List.mem_singleton.mp hm'
    exact hm file hfile

/-- What following a file and exploring it have to do with each other. -/
structure Tracks (w : Start) (follow : Path → State → Except Failure State)
    (explore : Path → Survey → Survey) : Prop where
  adds : ∀ file t, Orderly t.events → Adds w.project none t.events (explore file t).events
  returned : ∀ file s t s', Along w s t → Next w s t file → follow file s = .ok s' →
    Returned w file s s' (explore file t)

/-- Taking the import statements of the file at hand leaves all its targets done. -/
theorem takeImports_ok {follow : Path → State → Except Failure State}
    {explore : Path → Survey → Survey} (htracks : Tracks w follow explore)
    {importer : Path} {above : List Path} (refs : List Script.Reference) {s s' : State} {t : Survey}
    (h : Along w s t) (hact : s.active = above ++ [importer]) (hdone : TargetsDone importer s t)
    (hr : takeImports w.project follow importer refs s = .ok s') :
    Along w s' (surveyImports w.project explore importer refs t) ∧ s'.active = s.active ∧
      s.processed <:+ s'.processed ∧
      TargetsDone importer s' (surveyImports w.project explore importer refs t) := by
  induction refs generalizing s t with
  | nil =>
    cases hr
    exact ⟨h, rfl, List.suffix_rfl, hdone⟩
  | cons r more ih =>
    have hst₁ := Survey.statements_meet (p := w.project) t importer r
    cases h.atStatement follow explore hact r more with
    | refused _ walk _ => rw [walk] at hr; cases hr
    | noted _ target along walk notes =>
      rw [walk] at hr
      rw [notes]
      have hdone₁ : TargetsDone importer (s.meet w.project importer r t)
          (t.meet w.project importer r).2 :=
        hdone.concat List.suffix_rfl hst₁ fun file hfile => by rw [target] at hfile; cases hfile
      have hrest := ih along hact hdone₁ hr
      exact hrest
    | @followed file target along next walk notes =>
      rw [walk] at hr
      rw [notes]
      cases hcall : follow file (s.meet w.project importer r t) with
      | error f => rw [hcall] at hr; cases hr
      | ok s₂ =>
        rw [hcall] at hr
        have hback := htracks.returned file _ _ s₂ along next hcall
        -- what is met below the followed file are no statements of the importer
        have hkey : importer.components ∈ s.active.map Path.components := by simp [hact]
        have hst₂ := (htracks.adds file _ along.orderly).kept _
          (along.mem_entered.mpr (Or.inl hkey)) (by simp)
        have hdone₂ : TargetsDone importer s₂ (explore file (t.meet w.project importer r).2) :=
          hdone.concat hback.processed (hst₂.trans hst₁) fun file' hfile' => by
            rw [target] at hfile'
            cases hfile'
            exact hback.done
        obtain ⟨hal, hact', hsuf, hdone'⟩ := ih hback.along (hback.active.trans hact) hdone₂ hr
        exact ⟨hal, hact'.trans hback.active, hback.processed.trans hsuf, hdone'⟩

/-- **A walk that succeeds stays along its survey**, and the file it was called on is done. -/
theorem process_ok (levels : Nat) {file : Path} {s s' : State} {t : Survey} (h : Along w s t)
    (hn : Next w s t file) (hr : process w.project levels file s = .ok s') :
    Returned w file s s' (survey w.project levels file t) := by
  induction levels generalizing file s t s' with
  | zero => cases hr
  | succ levels ih =>
    have htracks : Tracks w (process w.project levels) (survey w.project levels) :=
      ⟨survey_adds levels, fun file s t s' h hn hr => ih h hn hr⟩
    cases h.atFile levels file with
    | done hdone walk notes =>
      rw [walk] at hr
      cases hr
      rw [notes]
      exact ⟨h, rfl, List.suffix_rfl, hdone⟩
    | back _ walk _ => rw [walk] at hr; cases hr
    | unloaded _ _ walk _ => rw [walk] at hr; cases hr
    | @loaded l new _ walk notes =>
      rw [walk] at hr
      rw [notes]
      cases htake : takeImports w.project (process w.project levels) file l.summary.imports
          { s.enter file with draft := record w.project file l s.draft } with
      | error f => rw [htake] at hr; cases hr
      | ok s₂ =>
        rw [htake] at hr
        cases hr
        obtain ⟨hal, hact₂, hsuf, hdone⟩ := takeImports_ok htracks l.summary.imports
          (h.enter hn new l) rfl (targetsDone_enter h.orderly new _ _) htake
        have hback : (s₂.leave file).active = s.active := by
          show s₂.active.dropLast = s.active
          rw [hact₂]
          exact List.dropLast_concat
        exact ⟨hal.leave hact₂ hdone, hback, hsuf.trans (List.suffix_cons _ _), by simp [State.leave]⟩

/-- A walk tracks its survey, whatever levels it has. -/
theorem process_tracks (w : Start) (levels : Nat) :
    Tracks w (process w.project levels) (survey w.project levels) :=
  ⟨survey_adds levels, fun _ _ _ _ h hn hr => process_ok levels h hn hr⟩

end Success

end ComponentRegistry.Walk
