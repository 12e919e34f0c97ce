import ComponentRegistry.Proofs.Disk.Canonical
import ComponentRegistry.Proofs.Walk.Cycles
import ComponentRegistry.Proofs.Walk.Resolutions

/-!
# The failure that is reported

A traversal passes its events in order, and an event may raise a failure: a file that is come back
to from below, one that cannot be read, parsed or classified, an import statement that nothing
answers to.  A walk fails exactly with what the first such event raises (`walk_fails_first`); a
survey would go on behind it.

Whether a file is come back to is read off the notes: an import statement belongs to the last file
of the trail from the entry, so the files behind its importer are done (`trail`).
-/

namespace ComponentRegistry.Walk

/-! ## Trails -/

/-- The files up to the one of this key. -/
def upTo (k : FileKey) : List Path → List Path
  | [] => []
  | file :: more => if file.components = k then [file] else file :: upTo k more

/-- The trail after an event: a file is entered behind the one at hand, and before an import
statement is met, all files below its importer are done. -/
def follows (files : List Path) : Event → List Path
  | .entered file _ => files ++ [file]
  | .met m => upTo m.importer.components files

/-- The files between the entry and the one at hand, as the notes say. -/
def trail (es : List Event) : List Path := es.foldl follows []

@[simp] theorem trail_entered (es : List Event) (file : Path) (found : Except Failure Loaded) :
    trail (es ++ [.entered file found]) = trail es ++ [file] := by
  simp [trail, follows]

theorem trail_met (es : List Event) (m : Met) :
    trail (es ++ [.met m]) = upTo m.importer.components (trail es) := by
  simp [trail, follows]

theorem upTo_of_isPrefix {above files : List Path} {importer : Path}
    (hnew : importer.components ∉ above.map Path.components) (h : above ++ [importer] <+: files) :
    upTo importer.components files = above ++ [importer] := by
  obtain ⟨below, rfl⟩ := h
  induction above with
  | nil => simp [upTo]
  | cons file above ih =>
    rw [List.map_cons, List.mem_cons, not_or] at hnew
    have hne : file.components ≠ importer.components := fun he => hnew.1 he.symm
    rw [List.cons_append, List.cons_append, upTo, if_neg hne, ih hnew.2]

/-! ## What events raise -/

/-- What an event behind these notes raises.  A file that is entered is read, then parsed, then
classified; before that it must not be on the trail already. -/
inductive Raises (p : Project) (es : List Event) : Event → Failure → Prop where
  | refused {m : Met} {f : Failure} : m.answer = .error f → Raises p es (.met m) f
  | cycle {m : Met} {file : Path} : m.target? = some file →
    file.isAmong (trail (es ++ [.met m])) = true →
    Raises p es (.met m) (.circularDependency (cycleChain p (trail (es ++ [.met m])) file))
  | unread {file : Path} {found : Except Failure Loaded} {cause : IoFault} :
    p.disk.readText file = .error cause → Raises p es (.entered file found) (.ofRead file cause)
  | unparsed {file : Path} {found : Except Failure Loaded} {text : String} {f : Failure} :
    p.disk.readText file = .ok text → SourceSummary.ofText file text = .error f →
    Raises p es (.entered file found) f
  | unclassified {file : Path} {found : Except Failure Loaded} {text : String} {s : SourceSummary}
    {f : Failure} :
    p.disk.readText file = .ok text → SourceSummary.ofText file text = .ok s →
    Classification.classify file p.root (some s) = .error f → Raises p es (.entered file found) f

/-- No event raises a failure. -/
def Quiet (p : Project) (es : List Event) : Prop :=
  ∀ before e after, es = before ++ e :: after → ∀ f, ¬ Raises p before e f

/-- The first failure of a traversal: an event raises it, and no event before that one raises any. -/
def FirstRaised (p : Project) (es : List Event) (f : Failure) : Prop :=
  ∃ before e after, es = before ++ e :: after ∧ Quiet p before ∧ Raises p before e f

section Raised

variable {p : Project} {es fs : List Event} {e : Event} {f g : Failure}

/-- What entering a file raises is the failure to load it. -/
theorem raises_entered_iff {file : Path} {found : Except Failure Loaded} :
    Raises p es (.entered file found) f ↔ loadFile p file = .error f := by
  unfold loadFile SourceSummary.ofFile
  constructor
  · intro h
    cases h with
    | unread hread => simp [hread, bind, Except.bind]
    | unparsed hread hparse => simp [hread, hparse, bind, Except.bind]
    | unclassified hread hparse htype => simp [hread, hparse, htype, bind, Except.bind]
  · intro h
    cases hread : p.disk.readText file with
    | error cause =>
      simp only [hread, bind, Except.bind] at h
      cases h
      exact .unread hread
    | ok text =>
      cases hparse : SourceSummary.ofText file text with
      | error g =>
        simp only [hread, hparse, bind, Except.bind] at h
        cases h
        exact .unparsed hread hparse
      | ok s =>
        cases htype : Classification.classify file p.root (some s) with
        | error g =>
          simp only [hread, hparse, htype, bind, Except.bind] at h
          cases h
          exact .unclassified hread hparse htype
        | ok type =>
          simp only [hread, hparse, htype, bind, Except.bind, pure, Except.pure] at h
          cases h

/-- An import statement that is answered raises a failure only if it leads back to the trail. -/
theorem not_raises_met {m : Met} {found : Outcome} (hans : m.answer = .ok found)
    (hfree : ∀ file, m.target? = some file → file.isAmong (trail (es ++ [.met m])) = false) :
    ¬ Raises p es (.met m) f := by
  intro h
  cases h with
  | refused herr => rw [hans] at herr; cases herr
  | cycle htarget hback => rw [hfree _ htarget] at hback; cases hback

/-- An event raises one failure. -/
theorem Raises.unique (h : Raises p es e f) (h' : Raises p es e g) : f = g := by
  cases e with
  | entered file found =>
    rw [raises_entered_iff] at h h'
    exact Except.error.inj (h.symm.trans h')
  | met m =>
    cases h with
    | refused herr =>
      cases h' with
      | refused herr' => exact Except.error.inj (herr.symm.trans herr')
      | cycle htarget _ => rw [Met.target?_eq_some_iff.mp htarget] at herr; cases herr
    | cycle htarget _ =>
      cases h' with
      | refused herr => rw [Met.target?_eq_some_iff.mp htarget] at herr; cases herr
      | cycle htarget' _ => rw [Option.some.inj (htarget.symm.trans htarget')]

theorem quiet_nil : Quiet p [] := by
  intro before e after h
  exact absurd h.symm (by simp)

theorem Quiet.concat (h : Quiet p es) (he : ∀ f, ¬ Raises p es e f) : Quiet p (es ++ [e]) := by
  intro before e' after heq
  rcases List.eq_nil_or_concat after with rfl | ⟨after, last, rfl⟩
  · obtain ⟨hbefore, hlast⟩ := List.append_inj' heq rfl
    cases hlast
    exact hbefore ▸ he
  · rw [List.concat_eq_append, ← List.cons_append, ← List.append_assoc] at heq
    exact h before e' after (List.append_inj' heq rfl).1

theorem FirstRaised.last (h : Quiet p es) (he : Raises p es e f) : FirstRaised p (es ++ [e]) f :=
  ⟨es, e, [], rfl, h, he⟩

theorem FirstRaised.mono (h : FirstRaised p es f) (hp : es <+: fs) : FirstRaised p fs f := by
  obtain ⟨before, e, after, rfl, hquiet, hraises⟩ := h
  obtain ⟨more, rfl⟩ := hp
  exact ⟨before, e, after ++ more, by simp, hquiet, hraises⟩

theorem FirstRaised.not_quiet (h : FirstRaised p es f) : ¬ Quiet p es := by
  obtain ⟨before, e, after, heq, -, hraises⟩ := h
  exact fun hquiet => hquiet before e after heq f hraises

/-- There is one first failure. -/
theorem FirstRaised.unique (h : FirstRaised p es f) (h' : FirstRaised p es g) : f = g := by
  obtain ⟨before, e, after, rfl, hquiet, hraises⟩ := h
  obtain ⟨before', e', after', heq, hquiet', hraises'⟩ := h'
  rcases List.append_eq_append_iff.mp heq with ⟨more, rfl, hmore⟩ | ⟨more, rfl, hmore⟩
  · cases more with
    | nil => cases hmore; rw [List.append_nil] at hraises'; exact hraises.unique hraises'
    | cons e'' more => cases hmore; exact absurd hraises (hquiet' before e more rfl f)
  · cases more with
    | nil => cases hmore; rw [List.append_nil] at hraises; exact hraises.unique hraises'
    | cons e'' more => cases hmore; exact absurd hraises' (hquiet before' e' more rfl g)

end Raised

/-! ## Walks -/

/-- What the notes have to say about the end of a walk that came from these files: nothing went
wrong and the files are still on the trail, or the walk has failed with the first failure. -/
def Told (p : Project) (active : List Path) (es : List Event) : Except Failure State → Prop
  | .ok _ => Quiet p es ∧ active <+: trail es
  | .error f => FirstRaised p es f

section Walks

variable {w : Start}

/-- While the statements of the file at hand are met, the trail is the chain of the walk. -/
theorem Along.trail_meet {s : State} {t : Survey} {importer : Path} {above : List Path}
    (h : Along w s t) (hact : s.active = above ++ [importer]) (htrail : s.active <+: trail t.events)
    (r : Script.Reference) :
    trail (t.events ++ [.met (t.meet w.project importer r).1]) = s.active := by
  have hnodup := (List.nodup_append.mp h.nodup).1
  rw [hact, List.map_append, List.map_singleton] at hnodup
  have hnew : importer.components ∉ above.map Path.components := fun hk =>
    (List.nodup_append.mp hnodup).2.2 _ hk _ (List.mem_singleton_self _) rfl
  rw [trail_met, Survey.meet_importer, hact]
  exact upTo_of_isPrefix hnew (hact ▸ htrail)

/-- An import statement that leads back to the chain raises a failure. -/
theorem Along.raises_back {s : State} {t : Survey} {importer file : Path} {above : List Path}
    (h : Along w s t) (hact : s.active = above ++ [importer]) (htrail : s.active <+: trail t.events)
    {r : Script.Reference} (htarget : (t.meet w.project importer r).1.target? = some file)
    (hamong : file.isAmong s.active = true) :
    Raises w.project t.events (.met (t.meet w.project importer r).1)
      (.circularDependency (cycleChain w.project s.active file)) := by
  have hnow := h.trail_meet hact htrail r
  rw [← hnow]
  exact .cycle htarget (hnow ▸ hamong)

/-- An import statement that is answered and does not lead back to the chain raises none. -/
theorem Along.quiet_meet {s : State} {t : Survey} {importer : Path} {above : List Path}
    (h : Along w s t) (hact : s.active = above ++ [importer]) (htrail : s.active <+: trail t.events)
    (hq : Quiet w.project t.events) {r : Script.Reference} {found : Outcome}
    (hans : (t.meet w.project importer r).1.answer = .ok found)
    (hfree : ∀ file, (t.meet w.project importer r).1.target? = some file →
      file.isAmong s.active = false) :
    Quiet w.project (t.meet w.project importer r).2.events := by
  rw [Survey.meet_events]
  refine hq.concat fun f => not_raises_met hans fun file hfile => ?_
  rw [h.trail_meet hact htrail r]
  exact hfree file hfile

/-- Where nothing went wrong, leaving the file at hand goes back up the trail. -/
theorem Told.leave {active : List Path} {file : Path} {es : List Event} {r : Except Failure State}
    (h : Told w.project (active ++ [file]) es r) :
    Told w.project active es (r.map fun s => s.leave file) := by
  cases r with
  | error f => exact h
  | ok s => exact ⟨h.1, (List.prefix_append active [file]).trans h.2⟩

theorem takeImports_told {n : Nat} {follow : Path → State → Except Failure State}
    {explore : Path → Survey → Survey} (htracks : Tracks w follow explore)
    (hroom : ∀ file t, Loadable w.project file → Room w.project n t.events →
      Room w.project n (explore file t).events)
    (hback : ∀ file s t, Along w s t → file.isAmong s.active = true →
      follow file s = .error (.circularDependency (cycleChain w.project s.active file)))
    (htold : ∀ file s t, Along w s t → Next w s t file → Loadable w.project file →
      Room w.project n t.events → Quiet w.project t.events → trail t.events = s.active →
      file.isAmong s.active = false →
      Told w.project s.active (explore file t).events (follow file s))
    {importer : Path} {above : List Path} (refs : List Script.Reference) {s : State} {t : Survey}
    (h : Along w s t) (hact : s.active = above ++ [importer]) (hr : Room w.project n t.events)
    (hq : Quiet w.project t.events) (htrail : s.active <+: trail t.events) :
    Told w.project s.active (surveyImports w.project explore importer refs t).events
      (takeImports w.project follow importer refs s) := by
  induction refs generalizing s t with
  | nil => exact ⟨hq, htrail⟩
  | cons r more ih =>
    have hent : importer.components ∈ enteredKeys t.events :=
      h.mem_entered.mpr (Or.inl (by simp [hact]))
    have hadd₁ := Survey.meet_adds (p := w.project) r h.orderly hent
    have hr₁ : Room w.project n (t.meet w.project importer r).2.events := hr.met _
    have htrail₁ : trail (t.meet w.project importer r).2.events = s.active :=
      h.trail_meet hact htrail r
    cases h.atStatement follow explore hact r more with
    | refused answer walk notes =>
      rw [walk, notes]
      exact (FirstRaised.last hq (.refused answer)).mono
        (surveyImports_adds htracks.adds more hadd₁.orderly (hadd₁.entered hent)).1.isPrefix
    | noted answer target along walk notes =>
      have hq₁ := h.quiet_meet hact htrail hq answer fun file hfile => by
        rw [target] at hfile; cases hfile
      rw [walk, notes]
      exact ih along hact hr₁ hq₁ (htrail₁ ▸ List.prefix_rfl)
    | @followed file target along next walk notes =>
      have hload : Loadable w.project file := Survey.loadable_target target
      have hadd₂ := htracks.adds file _ hadd₁.orderly
      have hlater := (surveyImports_adds htracks.adds more hadd₂.orderly
        (hadd₂.entered (hadd₁.entered hent))).1.isPrefix
      rw [walk, notes]
      cases hamong : file.isAmong s.active with
      | true =>
        rw [hback file _ _ along hamong]
        exact ((FirstRaised.last hq (h.raises_back hact htrail target hamong)).mono
          hadd₂.isPrefix).mono hlater
      | false =>
        have hq₁ := h.quiet_meet hact htrail hq (Met.target?_eq_some_iff.mp target)
          fun file' hfile' => by rw [target] at hfile'; cases hfile'; exact hamong
        have hcall := htold file _ _ along next hload hr₁ hq₁ htrail₁ hamong
        cases hfollow : follow file (s.meet w.project importer r t) with
        | error g =>
          rw [hfollow] at hcall
          exact FirstRaised.mono hcall hlater
        | ok s₂ =>
          rw [hfollow] at hcall
          have hreturned := htracks.returned file _ _ s₂ along next hfollow
          have hsame : s₂.active = s.active := hreturned.active
          have hrest := ih hreturned.along (hsame.trans hact) (hroom file _ hload hr₁) hcall.1
            (hsame ▸ hcall.2)
          rw [hsame] at hrest
          exact hrest

/-- A walk that is called on a file of its chain reports the chain. -/
theorem process_back (levels : Nat) {file : Path} {s : State} {t : Survey} (h : Along w s t)
    (hamong : file.isAmong s.active = true) :
    process w.project levels file s =
      .error (.circularDependency (cycleChain w.project s.active file)) := by
  have hkey := isAmong_iff.mp hamong
  have hold := h.mem_entered.mpr (Or.inl hkey)
  cases levels with
  | zero => rfl
  | succ levels =>
    cases h.atFile levels file with
    | done processed _ _ => exact absurd processed (h.not_processed hkey)
    | back _ walk _ => exact walk
    | unloaded new _ _ _ => exact absurd hold new
    | loaded new _ _ _ => exact absurd hold new

/-- **A walk from a file ends as the first failing event of its survey says.** -/
theorem process_told (levels : Nat) {file : Path} {s : State} {t : Survey} (h : Along w s t)
    (hn : Next w s t file) (hl : Loadable w.project file) (hr : Room w.project levels t.events)
    (hq : Quiet w.project t.events) (htrail : trail t.events = s.active)
    (hfree : file.isAmong s.active = false) :
    Told w.project s.active (survey w.project levels file t).events
      (process w.project levels file s) := by
  induction levels generalizing file s t with
  | zero => exact absurd (hr.pos h.orderly) (lt_irrefl 0)
  | succ levels ih =>
    cases h.atFile levels file with
    | done _ walk notes =>
      rw [walk, notes]
      exact ⟨hq, htrail ▸ List.prefix_rfl⟩
    | back active _ _ =>
      rw [isAmong_iff.mpr active] at hfree
      cases hfree
    | unloaded _ load walk notes =>
      rw [walk, notes]
      exact FirstRaised.last hq (raises_entered_iff.mpr load)
    | @loaded l new load walk notes =>
      have hroom := hr.descend hl load
      rw [load] at hroom
      have hq₁ : Quiet w.project (t.enter file (.ok l)).events := hq.concat fun f hraises => by
        rw [raises_entered_iff, load] at hraises
        cases hraises
      have htrail₁ : trail (t.enter file (.ok l)).events = s.active ++ [file] := by
        rw [Survey.enter_events, trail_entered, htrail]
      have htake := takeImports_told (process_tracks w levels) (survey_room levels)
        (fun _ _ _ h => process_back levels h)
        (fun _ _ _ h hn hl hr hq ht hf => ih h hn hl hr hq ht hf) l.summary.imports
        (h.enter hn new l) rfl hroom hq₁ (htrail₁ ▸ List.prefix_rfl)
      rw [walk, notes]
      exact Told.leave htake

theorem Start.told (hl : Loadable w.project w.entry) :
    Told w.project [] w.survey.events
      (process w.project (levels w.project.disk) w.entry (.start w.name)) :=
  process_told _ (along_start w) (next_entry w) hl room_nil quiet_nil rfl rfl

/-- A walk fails exactly with the first failure of its survey. -/
theorem Start.run_eq_error_iff (hl : Loadable w.project w.entry) {f : Failure} :
    w.run = .error f ↔ FirstRaised w.project w.survey.events f := by
  have htold := w.told hl
  unfold Start.run
  cases hp : process w.project (levels w.project.disk) w.entry (.start w.name) with
  | error g =>
    rw [hp] at htold
    constructor
    · intro h
      cases h
      exact htold
    · intro h
      exact congrArg Except.error (FirstRaised.unique htold h)
  | ok s =>
    rw [hp] at htold
    exact ⟨nofun, fun h => absurd htold.1 h.not_quiet⟩

end Walks

/-! ## Imports that are reported -/

/-- The specifier is marked as the project's own: by a dot, by `@/`, or by what the key of a path
mapping has before its star. -/
def Marked (r : Resolver) (specifier : String) : Prop :=
  ".".toList <+: specifier.toList ∨ "@/".toList <+: specifier.toList ∨
    ∃ mapping ∈ r.mappings,
      (∃ after, mapping.after? = some after ∧ mapping.before ≠ "" ∧
        mapping.before.toList <+: specifier.toList) ∨
      mapping.after? = none ∧ specifier = mapping.before

/-- What the resolver of a walk remembers behind these notes. -/
def memory (p : Project) (es : List Event) : Cache :=
  (Resolver.resolveAll p.disk (Cache.lookups p.disk) p.resolver (calls es) .empty).2

/-- An import statement of a file that the entry reaches, marked as the project's own, to which the
resolver of the walk finds no file behind the notes `before`, and none on the disk unless it was
asked for a file by a spelling that no file has. -/
structure Unanswered (w : Start) (before : List Event) (m : Met) : Prop where
  reached : Reaches w.survey.events w.entry.components m.importer.components
  statement : ∃ loaded, loadFile w.project m.importer = .ok loaded ∧
    m.reference ∈ loaded.summary.imports
  missing : (Resolver.resolve w.project.disk (Cache.lookups w.project.disk) w.project.resolver
    m.reference.specifier m.importer (memory w.project before)).1 = none
  nowhere : Resolver.SpelledAsFiles w.project.disk w.asked → w.project.target? m = none
  marked : Marked w.project.resolver m.reference.specifier

section Reported

variable {p : Project} {w : Start} {f : Failure} {m : Met}

theorem isLocal_iff {r : Resolver} {specifier : String} :
    r.isLocal specifier = true ↔ Marked r specifier := by
  unfold Resolver.isLocal Resolver.isAlias Marked
  rw [Bool.or_eq_true, Bool.or_eq_true, Text.startsWith_iff, Text.startsWith_iff, List.any_eq_true]
  refine or_congr Iff.rfl (or_congr Iff.rfl (exists_congr fun mapping => and_congr Iff.rfl ?_))
  cases mapping.after? with
  | none => simp
  | some after => simp [Text.startsWith_iff]

/-- Only a specifier that is marked and that nothing answers to is refused. -/
theorem of_outcome_error {specifier : String} {importer : Path} {file? : Option Path}
    (h : outcome p specifier importer file? = .error f) :
    file? = none ∧ p.resolver.isLocal specifier = true ∧
      f = .unresolvedImport specifier (importer.relative p.root) := by
  cases file? with
  | none =>
    simp only [outcome] at h
    split_ifs at h with hlocal
    cases h
    exact ⟨rfl, hlocal, rfl⟩
  | some file =>
    by_cases howns : p.Owns file
    · rw [outcome_of_owns howns] at h
      cases h
    · rcases outcome_of_not_owns specifier importer howns with hout | hout
      · rw [hout] at h; cases h
      · rw [hout] at h; cases h

/-- An import statement is answered with what the resolver remembers of those before it. -/
theorem Traversal.answer_behind {seen : List FileKey} {c : Cache} {todo : List Pending}
    {before after : List Event} (h : Traversal p seen c todo (before ++ .met m :: after)) :
    m.answer = (resolveImport p m.reference.specifier m.importer
      (Resolver.resolveAll p.disk (Cache.lookups p.disk) p.resolver (calls before) c).2).1 := by
  generalize hes : before ++ .met m :: after = es at h
  induction h generalizing before with
  | done => simp at hes
  | again _ _ ih => exact ih hes
  | enter _ _ ih =>
    cases before with
    | nil => cases hes
    | cons e before =>
      cases hes
      have hrest := @ih before rfl
      exact hrest
  | @meet seen c c' m' todo es hres _ ih =>
    cases before with
    | nil =>
      cases hes
      show m.answer = (resolveImport p m.reference.specifier m.importer c).1
      rw [hres]
    | cons e before =>
      cases hes
      have hrun : (Resolver.resolveAll p.disk (Cache.lookups p.disk) p.resolver
          (calls (.met m' :: before)) c).2 =
            (Resolver.resolveAll p.disk (Cache.lookups p.disk) p.resolver (calls before)
              (resolveImport p m'.reference.specifier m'.importer c).2).2 := by
        show (Resolver.resolveAll p.disk (Cache.lookups p.disk) p.resolver (m'.call :: calls before)
          c).2 = _
        unfold Resolver.resolveAll
        rw [List.mapM_cons]
        rfl
      rw [hrun, hres]
      exact @ih before rfl

/-- An import statement that is refused is unanswered. -/
theorem unanswered_of_refused (hl : Loadable w.project w.entry) {before after : List Event}
    (hes : w.survey.events = before ++ .met m :: after) (hans : m.answer = .error f) :
    Unanswered w before m ∧
      f = .unresolvedImport m.reference.specifier (m.importer.relative w.project.root) := by
  have htraversal := w.survey_traversal hl
  have hmem : Event.met m ∈ w.survey.events := by rw [hes]; simp
  have hbehind : m.answer = (resolveImport w.project m.reference.specifier m.importer
      (memory w.project before)).1 := by
    rw [hes] at htraversal
    exact htraversal.answer_behind
  obtain ⟨hmissing, hlocal, rfl⟩ := of_outcome_error (hbehind.symm.trans hans)
  obtain ⟨r, hr, rfl⟩ := exists_resolution w.project .empty hmem
  refine ⟨⟨?_, ?_, hmissing, fun hs => ?_, isLocal_iff.mp hlocal⟩, rfl⟩
  · exact w.survey_reached _ (w.survey_adds.orderly.importer _ hmem)
  · have hentries : r.met.importer ∈ entries w.survey.events := by
      rcases htraversal.importer_mem hmem with hpending | hentries
      · simp at hpending
      · exact hentries
    obtain ⟨found, hentered⟩ := mem_entries.mp hentries
    obtain ⟨hload, hrefs⟩ := w.survey_answered hentered
    have href : r.met.reference ∈ importsOf found := by
      rw [← hrefs]
      exact List.mem_map_of_mem (mem_statements.mpr ⟨hmem, rfl⟩)
    cases found with
    | error g => cases href
    | ok loaded => exact ⟨loaded, hload.symm, href⟩
  · rw [← w.file?_eq hs hr]
    exact (of_outcome_error ((w.answer_eq hl hr).symm.trans hans)).1

/-- The failure of an event is not that of an import statement, unless the statement is refused. -/
theorem refused_of_raises {es : List Event} {e : Event} {specifier : String} {importer : Path}
    (h : Raises p es e (.unresolvedImport specifier importer)) :
    ∃ m, e = .met m ∧ m.answer = .error (.unresolvedImport specifier importer) := by
  cases e with
  | met m =>
    cases h with
    | refused hans => exact ⟨m, rfl, hans⟩
  | entered file found =>
    rcases of_loadFile_error (raises_entered_iff.mp h) with ⟨cause, hcause⟩ | ⟨_, hreason⟩ | ⟨_, hreason⟩
    · have hroot : (Failure.unresolvedImport specifier importer).rootCause =
          (Failure.ofRead file cause).rootCause := congrArg Failure.rootCause hcause
      rcases rootCause_ofRead file cause with hr | hr <;> rw [hr] at hroot <;> cases hroot
    · cases hreason
    · cases hreason

/-- What an event raises has no other cause. -/
theorem rootCause_of_raises (hl : Loadable w.project w.entry) {before after : List Event} {e : Event}
    (hes : w.survey.events = before ++ e :: after) (h : Raises w.project before e f) :
    f.rootCause = f := by
  cases e with
  | met m =>
    cases h with
    | refused hans => rw [(unanswered_of_refused hl hes hans).2]; rfl
    | cycle _ _ => rfl
  | entered file found =>
    rcases of_loadFile_error (raises_entered_iff.mp h) with ⟨cause, rfl⟩ | ⟨_, rfl⟩ | ⟨_, rfl⟩
    · unfold Failure.ofRead
      split_ifs <;> rfl
    · rfl
    · rfl

/-- **The failure that is reported is the first one.**  The events of a walk are those of the
depth-first traversal from the entry; the walk fails exactly with what the first event raises that
raises anything, and that is the root cause of the failure to generate.  Where it is an import, it
is an import statement of a file that the entry reaches, and nothing answers to it. -/
theorem walk_fails_first {d : Disk} {config : Config} {entry : Path}
    (h : prepare d config entry = .ok w) :
    Traversal w.project [] .empty [.file w.entry] w.survey.events ∧
      (∀ f, w.run = .error f ↔ FirstRaised w.project w.survey.events f) ∧
      (∀ f, w.run = .error f →
        generate d config entry = .error (.generation entry f) ∧
          (Failure.generation entry f).rootCause = f) ∧
      ∀ specifier importer, w.run = .error (.unresolvedImport specifier importer) →
        ∃ before m after, w.survey.events = before ++ .met m :: after ∧
          Quiet w.project before ∧ Unanswered w before m ∧
          specifier = m.reference.specifier ∧ importer = m.importer.relative w.project.root := by
  have hl := loadable_of_prepare h
  refine ⟨w.survey_traversal hl, fun f => Start.run_eq_error_iff hl, fun f hrun => ⟨?_, ?_⟩,
    fun specifier importer hrun => ?_⟩
  · have hhas : d.has entry = true := Disk.has_of_canonical (of_prepare h).2.2
    simp [generate, hhas, h, hrun, bind, Except.bind]
  · obtain ⟨before, e, after, hes, -, hraises⟩ := (Start.run_eq_error_iff hl).mp hrun
    exact rootCause_of_raises hl hes hraises
  · obtain ⟨before, e, after, hes, hquiet, hraises⟩ := (Start.run_eq_error_iff hl).mp hrun
    obtain ⟨m, rfl, hans⟩ := refused_of_raises hraises
    obtain ⟨hunanswered, heq⟩ := unanswered_of_refused hl hes hans
    obtain ⟨rfl, rfl⟩ := Failure.unresolvedImport.inj heq
    exact ⟨before, m, after, hes, hquiet, hunanswered, rfl, rfl⟩

/-- A statement with a slip stands behind files that are in order, and before one that is not. -/
def slip : Disk := .ofTexts [
  ("p/package.json", "\x7b\x7d"),
  ("p/main.js", "import './left';\nimport './right';\nimport './torn';"),
  ("p/left.js", "import './base';"),
  ("p/right.js", "import './base';\nimport './tpyo';"),
  ("p/base.js", "export * from './main';"),
  ("p/torn.js", "import from;")]

theorem slip_fails_first : ∃ w, prepare slip .unset (Path.ofString "/p/main.js") = .ok w ∧
    FirstRaised w.project w.survey.events (.unresolvedImport "./tpyo" (Path.ofString "right.js")) ∧
    ∃ before m after, w.survey.events = before ++ .met m :: after ∧ Quiet w.project before ∧
      Unanswered w before m ∧ m.reference.specifier = "./tpyo" := by
  have hgen : generate slip .unset (Path.ofString "/p/main.js") =
      .error (.generation (Path.ofString "/p/main.js")
        (.unresolvedImport "./tpyo" (Path.ofString "right.js"))) := by
    decide +kernel
  have hok : (prepare slip .unset (Path.ofString "/p/main.js")).isOk = true := by decide +kernel
  obtain ⟨w, hw⟩ := exists_ok hok
  obtain ⟨-, hfirst, -, himport⟩ := walk_fails_first hw
  have hrun : w.run = .error (.unresolvedImport "./tpyo" (Path.ofString "right.js")) := by
    rcases of_generate_error hgen with hentry | ⟨g, hg, hprep | ⟨w', hw', hrun⟩⟩
    · cases hentry
    · rw [hw] at hprep; cases hprep
    · cases hg
      rw [hw] at hw'
      cases hw'
      exact hrun
  obtain ⟨before, m, after, hes, hquiet, hunanswered, hname, -⟩ := himport _ _ hrun
  exact ⟨w, hw, (hfirst _).mp hrun, before, m, after, hes, hquiet, hunanswered, hname.symm⟩

end Reported

end ComponentRegistry.Walk
