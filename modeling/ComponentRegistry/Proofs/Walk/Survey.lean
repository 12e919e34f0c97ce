import ComponentRegistry.Walk
import Mathlib.Data.List.Infix
import Mathlib.Data.List.Nodup
import Mathlib.Logic.Relation

/-!
# The survey of a walk

A survey goes the way of a walk and never gives up: it takes the files in the same order, resolves
their import statements with the same cache, and notes what it meets.  Where a walk fails, the
survey goes on.  Its notes are the import graph that the walk is about: which files are reached,
what they hold, and what became of each of their import statements (`Inlines`, `statements`).

The lemmas here are about surveys alone: every noted file is noted once, is reached from the entry,
and has an answer for each of its import statements.
-/

namespace ComponentRegistry.Walk

/-- What tells files apart: two paths with the same components are one file. -/
abbrev FileKey := List Path.Component

/-- An import statement that was resolved, with what became of it. -/
structure Met where
  importer : Path
  reference : Script.Reference
  answer : Except Failure Outcome

/-- The file that an import statement has inlined. -/
def Met.target? (m : Met) : Option Path :=
  match m.answer with
  | .ok (.inlined file) => some file
  | _ => none

theorem Met.target?_eq_some_iff {m : Met} {file : Path} :
    m.target? = some file ↔ m.answer = .ok (.inlined file) := by
  unfold Met.target?
  split
  · next found heq => simp [heq]
  · next hother => exact ⟨nofun, fun h => absurd h (hother file)⟩

/-- What a walk comes across. -/
inductive Event where
  /-- A file is taken up for the first time. -/
  | entered (file : Path) (found : Except Failure Loaded)
  | met (m : Met)

def Event.file? : Event → Option Path
  | .entered file _ => some file
  | .met _ => none

/-- The import statement, if its importer is the file of this key. -/
def Event.statementOf? (k : FileKey) : Event → Option Met
  | .entered _ _ => none
  | .met m => if m.importer.components = k then some m else none

/-- The files that were taken up, in order. -/
def entries (es : List Event) : List Path := es.filterMap Event.file?

/-- The keys of the files that were taken up. -/
def enteredKeys (es : List Event) : List FileKey := (entries es).map Path.components

/-- The import statements of a file, in order. -/
def statements (es : List Event) (k : FileKey) : List Met := es.filterMap (Event.statementOf? k)

/-- The file of `k` has an import statement that inlines the file of `k'`. -/
def Inlines (es : List Event) (k k' : FileKey) : Prop :=
  ∃ m ∈ statements es k, ∃ file, m.target? = some file ∧ file.components = k'

/-- The import statements of what could be loaded; there are none in what could not. -/
def importsOf : Except Failure Loaded → List Script.Reference
  | .ok loaded => loaded.summary.imports
  | .error _ => []

structure Survey where
  events : List Event
  cache : Cache

namespace Survey

def start : Survey := ⟨[], .empty⟩

/-- Take up a file. -/
def enter (t : Survey) (file : Path) (found : Except Failure Loaded) : Survey :=
  { t with events := t.events ++ [.entered file found] }

/-- Resolve an import statement. -/
def meet (t : Survey) (p : Project) (importer : Path) (reference : Script.Reference) :
    Met × Survey :=
  let (answer, cache) := resolveImport p reference.specifier importer t.cache
  (⟨importer, reference, answer⟩, ⟨t.events ++ [.met ⟨importer, reference, answer⟩], cache⟩)

end Survey

/-- Take the import statements of a file in order; `explore` continues in an inlined file. -/
def surveyImports (p : Project) (explore : Path → Survey → Survey) (importer : Path) :
    List Script.Reference → Survey → Survey
  | [], t => t
  | reference :: more, t =>
    let (m, t) := t.meet p importer reference
    surveyImports p explore importer more (m.target?.elim t fun file => explore file t)

/-- Survey the files from one on that were not taken up before. -/
def survey (p : Project) : Nat → Path → Survey → Survey
  | 0, _, t => t
  | levels + 1, file, t =>
    if file.isAmong (entries t.events) then t
    else
      let found := loadFile p file
      surveyImports p (survey p levels) file (importsOf found) (t.enter file found)

/-- The survey of the walk that begins here. -/
def Start.survey (w : Start) : Survey :=
  Walk.survey w.project (levels w.project.disk) w.entry .start

/-! ## Notes -/

theorem isAmong_iff {file : Path} {files : List Path} :
    file.isAmong files = true ↔ file.components ∈ files.map Path.components := by
  simp [Path.isAmong]

@[simp] theorem entries_append (es fs : List Event) : entries (es ++ fs) = entries es ++ entries fs := by
  simp [entries]

@[simp] theorem enteredKeys_append (es fs : List Event) :
    enteredKeys (es ++ fs) = enteredKeys es ++ enteredKeys fs := by
  simp [enteredKeys]

@[simp] theorem enteredKeys_entered (file : Path) (found : Except Failure Loaded) :
    enteredKeys [.entered file found] = [file.components] := rfl

@[simp] theorem enteredKeys_met (m : Met) : enteredKeys [.met m] = [] := rfl

@[simp] theorem statements_append (es fs : List Event) (k : FileKey) :
    statements (es ++ fs) k = statements es k ++ statements fs k := by
  simp [statements]

@[simp] theorem statements_entered (file : Path) (found : Except Failure Loaded) (k : FileKey) :
    statements [.entered file found] k = [] := rfl

theorem statements_met (m : Met) (k : FileKey) :
    statements [.met m] k = if m.importer.components = k then [m] else [] := by
  by_cases h : m.importer.components = k
  · simp [statements, Event.statementOf?, h]
  · simp [statements, Event.statementOf?, h]

theorem mem_statements {es : List Event} {k : FileKey} {m : Met} :
    m ∈ statements es k ↔ Event.met m ∈ es ∧ m.importer.components = k := by
  simp only [statements, List.mem_filterMap]
  constructor
  · rintro ⟨e, he, hm⟩
    cases e with
    | entered file found => cases hm
    | met m' =>
      simp only [Event.statementOf?] at hm
      split_ifs at hm with hk
      cases hm
      exact ⟨he, hk⟩
  · rintro ⟨he, hk⟩
    exact ⟨.met m, he, by simp [Event.statementOf?, hk]⟩

theorem mem_entries {es : List Event} {file : Path} :
    file ∈ entries es ↔ ∃ found, Event.entered file found ∈ es := by
  unfold entries
  rw [List.mem_filterMap]
  constructor
  · rintro ⟨e, he, hf⟩
    cases e with
    | entered file' found => cases hf; exact ⟨found, he⟩
    | met m => cases hf
  · rintro ⟨found, he⟩
    exact ⟨_, he, rfl⟩

theorem mem_enteredKeys {es : List Event} {k : FileKey} :
    k ∈ enteredKeys es ↔ ∃ file found, Event.entered file found ∈ es ∧ file.components = k := by
  unfold enteredKeys
  rw [List.mem_map]
  constructor
  · rintro ⟨file, hfile, hk⟩
    obtain ⟨found, he⟩ := mem_entries.mp hfile
    exact ⟨file, found, he, hk⟩
  · rintro ⟨file, found, he, hk⟩
    exact ⟨file, mem_entries.mpr ⟨found, he⟩, hk⟩

theorem Inlines.of_subset {es fs : List Event} (h : es ⊆ fs) {k k' : FileKey} (hi : Inlines es k k') :
    Inlines fs k k' := by
  obtain ⟨m, hm, hfile⟩ := hi
  obtain ⟨he, hk⟩ := mem_statements.mp hm
  exact ⟨m, mem_statements.mpr ⟨h he, hk⟩, hfile⟩

theorem Inlines.mono {es fs : List Event} (h : es <+: fs) {k k' : FileKey} (hi : Inlines es k k') :
    Inlines fs k k' :=
  hi.of_subset h.subset

/-- Only the statements of a file say what it inlines. -/
theorem Inlines.of_statements_eq {es fs : List Event} {k k' : FileKey}
    (h : statements fs k = statements es k) (hi : Inlines fs k k') : Inlines es k k' := by
  unfold Inlines at hi ⊢
  rwa [h] at hi

/-- A file is reached from another one over any number of import statements. -/
abbrev Reaches (es : List Event) : FileKey → FileKey → Prop := Relation.ReflTransGen (Inlines es)

theorem Reaches.mono {es fs : List Event} (h : es <+: fs) {k k' : FileKey} (hr : Reaches es k k') :
    Reaches fs k k' :=
  Relation.ReflTransGen.mono (fun _ _ => Inlines.mono h) _ _ hr

theorem mem_enteredKeys_enter (t : Survey) (file : Path) (found : Except Failure Loaded) :
    file.components ∈ enteredKeys (t.enter file found).events := by
  simp [Survey.enter]

/-! ## What a survey adds -/

/-- Every importer was taken up, and every file once. -/
structure Orderly (es : List Event) : Prop where
  importer : ∀ m, Event.met m ∈ es → m.importer.components ∈ enteredKeys es
  once : (enteredKeys es).Nodup

theorem orderly_nil : Orderly [] := ⟨by simp, by simp [enteredKeys, entries]⟩

theorem Orderly.statements_eq_nil {es : List Event} (h : Orderly es) {k : FileKey}
    (hk : k ∉ enteredKeys es) : statements es k = [] := by
  refine List.eq_nil_iff_forall_not_mem.mpr fun m hm => ?_
  obtain ⟨he, rfl⟩ := mem_statements.mp hm
  exact hk (h.importer m he)

theorem Orderly.enter {es : List Event} (h : Orderly es) {file : Path} {found : Except Failure Loaded}
    (hf : file.components ∉ enteredKeys es) : Orderly (es ++ [.entered file found]) := by
  refine ⟨fun m hm => ?_, ?_⟩
  · rw [enteredKeys_append]
    rcases List.mem_append.mp hm with hm | hm
    · exact List.mem_append_left _ (h.importer m hm)
    · simp at hm
  · rw [enteredKeys_append, enteredKeys_entered]
    refine h.once.append (List.nodup_singleton _) ?_
    simpa [List.disjoint_singleton] using hf

theorem Orderly.meet {es : List Event} (h : Orderly es) {m : Met}
    (hm : m.importer.components ∈ enteredKeys es) : Orderly (es ++ [.met m]) := by
  refine ⟨fun m' hm' => ?_, by simpa using h.once⟩
  rw [enteredKeys_append, enteredKeys_met, List.append_nil]
  rcases List.mem_append.mp hm' with hm' | hm'
  · exact h.importer m' hm'
  · cases List.mem_singleton.mp hm'; exact hm

/-- What was taken up is what loading gives, and all its import statements were resolved. -/
def Answered (p : Project) (es : List Event) : Event → Prop
  | .entered file found =>
    found = loadFile p file ∧ (statements es file.components).map Met.reference = importsOf found
  | .met _ => True

/-- What a piece of a survey adds to its notes: the files that were taken up before keep their
statements, the one being read apart, and all new ones are answered. -/
structure Adds (p : Project) (reading : Option FileKey) (es fs : List Event) : Prop where
  news : ∃ new, fs = es ++ new ∧ ∀ e ∈ new, Answered p fs e
  orderly : Orderly fs
  kept : ∀ k ∈ enteredKeys es, reading ≠ some k → statements fs k = statements es k

section Adds

variable {p : Project} {reading : Option FileKey} {es fs gs : List Event}

theorem Adds.isPrefix (h : Adds p reading es fs) : es <+: fs := by
  obtain ⟨new, rfl, -⟩ := h.news
  exact List.prefix_append es new

theorem Adds.refl (h : Orderly es) : Adds p reading es es :=
  ⟨⟨[], by simp, by simp⟩, h, fun _ _ _ => rfl⟩

theorem Adds.entered (h : Adds p reading es fs) {k : FileKey} (hk : k ∈ enteredKeys es) :
    k ∈ enteredKeys fs := by
  obtain ⟨new, rfl, -⟩ := h.news
  rw [enteredKeys_append]
  exact List.mem_append_left _ hk

/-- Pieces add up; what was answered stays answered, for the file being read is an old one. -/
theorem Adds.trans (h : Adds p reading es fs) (h' : Adds p reading fs gs)
    (hold : ∀ k, reading = some k → k ∈ enteredKeys es) : Adds p reading es gs := by
  obtain ⟨new, rfl, hnew⟩ := h.news
  obtain ⟨new', rfl, hnew'⟩ := h'.news
  refine ⟨⟨new ++ new', by simp, fun e he => ?_⟩, h'.orderly, fun k hk hne => ?_⟩
  · rcases List.mem_append.mp he with he | he
    · cases e with
      | met m => trivial
      | entered file found =>
        obtain ⟨hload, hrefs⟩ := hnew _ he
        refine ⟨hload, ?_⟩
        have hfile : file.components ∈ enteredKeys new := mem_enteredKeys.mpr ⟨_, _, he, rfl⟩
        have hne : reading ≠ some file.components := by
          intro hr
          have hnd := h.orderly.once
          rw [enteredKeys_append] at hnd
          exact (List.nodup_append.mp hnd).2.2 _ (hold _ hr) _ hfile rfl
        rw [h'.kept _ (by rw [enteredKeys_append]; exact List.mem_append_right _ hfile) hne]
        exact hrefs
    · exact hnew' e he
  · rw [h'.kept k (h.entered hk) hne, h.kept k hk hne]

theorem Adds.whileReading (h : Adds p none es fs) (k : FileKey) : Adds p (some k) es fs :=
  ⟨h.news, h.orderly, fun k' hk' _ => h.kept k' hk' (by simp)⟩

theorem adds_met (h : Orderly es) {m : Met} (hm : m.importer.components ∈ enteredKeys es) :
    Adds p (some m.importer.components) es (es ++ [.met m]) := by
  refine ⟨⟨[.met m], rfl, by simp [Answered]⟩, h.meet hm, fun k _ hne => ?_⟩
  rw [statements_append, statements_met, if_neg (fun he => hne (by rw [he])), List.append_nil]

/-- Taking up a file and reading its import statements. -/
theorem adds_entered {file : Path} (hf : file.components ∉ enteredKeys es)
    (hr : Adds p (some file.components) (es ++ [.entered file (loadFile p file)]) fs)
    (hrefs : (statements fs file.components).map Met.reference = importsOf (loadFile p file)) :
    Adds p none es fs := by
  obtain ⟨new, rfl, hnew⟩ := hr.news
  refine ⟨⟨.entered file (loadFile p file) :: new, by simp, fun e he => ?_⟩, hr.orderly,
    fun k hk _ => ?_⟩
  · rcases List.mem_cons.mp he with rfl | he
    · exact ⟨rfl, hrefs⟩
    · exact hnew e he
  · have hne : some file.components ≠ some k := by
      rintro he
      cases he
      exact hf hk
    rw [hr.kept k (by simp [hk]) hne, statements_append, statements_entered, List.append_nil]

end Adds

/-! ## Surveys -/

section Surveys

variable {p : Project}

@[simp] theorem Survey.meet_reference (t : Survey) (importer : Path) (r : Script.Reference) :
    (t.meet p importer r).1.reference = r := rfl

@[simp] theorem Survey.meet_importer (t : Survey) (importer : Path) (r : Script.Reference) :
    (t.meet p importer r).1.importer = importer := rfl

@[simp] theorem Survey.meet_events (t : Survey) (importer : Path) (r : Script.Reference) :
    (t.meet p importer r).2.events = t.events ++ [.met (t.meet p importer r).1] := rfl

theorem Survey.statements_meet (t : Survey) (importer : Path) (r : Script.Reference) :
    statements (t.meet p importer r).2.events importer.components =
      statements t.events importer.components ++ [(t.meet p importer r).1] := by
  simp [statements_met]

theorem Survey.enter_events (t : Survey) (file : Path) (found : Except Failure Loaded) :
    (t.enter file found).events = t.events ++ [.entered file found] := rfl

/-- An import statement that inlines nothing is passed. -/
theorem surveyImports_noted {explore : Path → Survey → Survey} {importer : Path}
    {r : Script.Reference} (more : List Script.Reference) {t : Survey}
    (h : (t.meet p importer r).1.target? = none) :
    surveyImports p explore importer (r :: more) t =
      surveyImports p explore importer more (t.meet p importer r).2 := by
  show surveyImports p explore importer more ((t.meet p importer r).1.target?.elim _ _) = _
  rw [h]
  rfl

/-- A file that is inlined is explored. -/
theorem surveyImports_explored {explore : Path → Survey → Survey} {importer file : Path}
    {r : Script.Reference} (more : List Script.Reference) {t : Survey}
    (h : (t.meet p importer r).1.target? = some file) :
    surveyImports p explore importer (r :: more) t =
      surveyImports p explore importer more (explore file (t.meet p importer r).2) := by
  show surveyImports p explore importer more ((t.meet p importer r).1.target?.elim _ _) = _
  rw [h]
  rfl

/-- What meeting a statement and exploring its target preserve, reading import statements preserves. -/
theorem surveyImports_invariant {I : Survey → Prop} {explore : Path → Survey → Survey} {importer : Path}
    (hmeet : ∀ r t, I t → I (t.meet p importer r).2)
    (hexplore : ∀ r t file, I t → (t.meet p importer r).1.target? = some file →
      I (explore file (t.meet p importer r).2))
    (refs : List Script.Reference) {t : Survey} (h : I t) :
    I (surveyImports p explore importer refs t) := by
  induction refs generalizing t with
  | nil => exact h
  | cons r more ih =>
    cases htarget : (t.meet p importer r).1.target? with
    | none =>
      rw [surveyImports_noted more htarget]
      exact ih (hmeet r t h)
    | some file =>
      rw [surveyImports_explored more htarget]
      exact ih (hexplore r t file h htarget)

/-- Import statements are read one after the other. -/
theorem surveyImports_append {explore : Path → Survey → Survey} {importer : Path}
    (before after : List Script.Reference) (t : Survey) :
    surveyImports p explore importer (before ++ after) t =
      surveyImports p explore importer after (surveyImports p explore importer before t) := by
  induction before generalizing t with
  | nil => rfl
  | cons r more ih => exact ih _

/-- The survey from a new file on takes the file up and reads its import statements. -/
theorem survey_new {levels : Nat} {file : Path} {t : Survey}
    (hnew : file.components ∉ enteredKeys t.events) :
    survey p (levels + 1) file t = surveyImports p (survey p levels) file
      (importsOf (loadFile p file)) (t.enter file (loadFile p file)) := by
  have hunseen : ¬ file.isAmong (entries t.events) = true := fun hk => hnew (isAmong_iff.mp hk)
  rw [survey, if_neg hunseen]

theorem Survey.meet_adds {t : Survey} {importer : Path} (r : Script.Reference)
    (h : Orderly t.events) (hi : importer.components ∈ enteredKeys t.events) :
    Adds p (some importer.components) t.events (t.meet p importer r).2.events :=
  adds_met (m := (t.meet p importer r).1) h hi

theorem surveyImports_adds {explore : Path → Survey → Survey}
    (hexp : ∀ file t, Orderly t.events → Adds p none t.events (explore file t).events)
    {importer : Path} (refs : List Script.Reference) {t : Survey} (h : Orderly t.events)
    (hi : importer.components ∈ enteredKeys t.events) :
    Adds p (some importer.components) t.events (surveyImports p explore importer refs t).events ∧
      (statements (surveyImports p explore importer refs t).events importer.components).map
        Met.reference = (statements t.events importer.components).map Met.reference ++ refs := by
  induction refs generalizing t with
  | nil => exact ⟨.refl h, by simp [surveyImports]⟩
  | cons r more ih =>
    set m := (t.meet p importer r).1 with hm
    set t₁ := (t.meet p importer r).2 with ht₁
    have hadd₁ : Adds p (some importer.components) t.events t₁.events := Survey.meet_adds r h hi
    have hst₁ : statements t₁.events importer.components =
        statements t.events importer.components ++ [m] := Survey.statements_meet t importer r
    -- the inlined file's own survey leaves the importer's statements as they are
    obtain ⟨t₂, ht₂, hadd₂, hst₂⟩ : ∃ t₂, m.target?.elim t₁ (fun file => explore file t₁) = t₂ ∧
        Adds p (some importer.components) t.events t₂.events ∧
        statements t₂.events importer.components = statements t₁.events importer.components := by
      cases htarget : m.target? with
      | none => exact ⟨t₁, rfl, hadd₁, rfl⟩
      | some file =>
        have hex := hexp file t₁ hadd₁.orderly
        refine ⟨explore file t₁, rfl, hadd₁.trans (hex.whileReading _) ?_, ?_⟩
        · rintro k hk
          cases hk
          exact hi
        · exact hex.kept _ (hadd₁.entered hi) (by simp)
    have hstep : surveyImports p explore importer (r :: more) t =
        surveyImports p explore importer more t₂ := by rw [← ht₂]; rfl
    obtain ⟨hadd₃, hrefs⟩ := ih hadd₂.orderly (hadd₂.entered hi)
    rw [hstep]
    refine ⟨hadd₂.trans hadd₃ ?_, ?_⟩
    · rintro k hk
      cases hk
      exact hi
    · rw [hrefs, hst₂, hst₁]
      simp [hm]

/-- **Surveys are orderly**: each new file is noted once, as loading gives it, and all its import
statements are resolved. -/
theorem survey_adds (levels : Nat) (file : Path) (t : Survey) (h : Orderly t.events) :
    Adds p none t.events (survey p levels file t).events := by
  induction levels generalizing file t with
  | zero => exact .refl h
  | succ levels ih =>
    unfold survey
    split_ifs with hseen
    · exact .refl h
    · have hnew : file.components ∉ enteredKeys t.events := fun hk => hseen (isAmong_iff.mpr hk)
      have henter : Orderly (t.enter file (loadFile p file)).events := h.enter hnew
      obtain ⟨hadd, hrefs⟩ := surveyImports_adds ih (importsOf (loadFile p file)) henter
        (mem_enteredKeys_enter t file _)
      refine adds_entered hnew hadd ?_
      rw [hrefs, Survey.enter_events, statements_append, h.statements_eq_nil hnew]
      rfl

/-! ## Reaching what was surveyed -/

/-- Every file that was taken up is reached from `a`. -/
def AllReached (a : FileKey) (es : List Event) : Prop := ∀ k ∈ enteredKeys es, Reaches es a k

theorem AllReached.met {a : FileKey} {es : List Event} (h : AllReached a es) (m : Met) :
    AllReached a (es ++ [.met m]) := by
  intro k hk
  rw [enteredKeys_append, enteredKeys_met, List.append_nil] at hk
  exact (h k hk).mono (List.prefix_append _ _)

theorem AllReached.enter {a : FileKey} {es : List Event} (h : AllReached a es) {file : Path}
    (hf : Reaches es a file.components) (found : Except Failure Loaded) :
    AllReached a (es ++ [.entered file found]) := by
  intro k hk
  rw [enteredKeys_append, enteredKeys_entered] at hk
  rcases List.mem_append.mp hk with hk | hk
  · exact (h k hk).mono (List.prefix_append _ _)
  · cases List.mem_singleton.mp hk
    exact hf.mono (List.prefix_append _ _)

/-- The statement that is met last leads to its target. -/
theorem inlines_of_target {es : List Event} {m : Met} {file : Path} (h : m.target? = some file) :
    Inlines (es ++ [.met m]) m.importer.components file.components :=
  ⟨m, by simp [statements_met], file, h, rfl⟩

/-- While the import statements of a file are read, it was taken up itself, and like all others it
is reached from `a`. -/
structure ReadingReached (a : FileKey) (importer : Path) (t : Survey) : Prop where
  orderly : Orderly t.events
  importer : importer.components ∈ enteredKeys t.events
  reached : AllReached a t.events

theorem ReadingReached.meet {a : FileKey} {importer : Path} {t : Survey} (h : ReadingReached a importer t)
    (r : Script.Reference) : ReadingReached a importer (t.meet p importer r).2 := by
  have hadd := Survey.meet_adds (p := p) r h.orderly h.importer
  exact ⟨hadd.orderly, hadd.entered h.importer, h.reached.met _⟩

theorem surveyImports_reached {explore : Path → Survey → Survey} {a : FileKey}
    (hadd : ∀ file t, Orderly t.events → Adds p none t.events (explore file t).events)
    (hexp : ∀ file t, Orderly t.events → AllReached a t.events → Reaches t.events a file.components →
      AllReached a (explore file t).events)
    {importer : Path} (refs : List Script.Reference) {t : Survey} (h : ReadingReached a importer t) :
    ReadingReached a importer (surveyImports p explore importer refs t) := by
  refine surveyImports_invariant (fun r t h => h.meet r) (fun r t file h htarget => ?_) refs h
  have h₁ : ReadingReached a importer (t.meet p importer r).2 := h.meet r
  have hedge : Inlines (t.meet p importer r).2.events importer.components file.components :=
    inlines_of_target htarget
  have hadd₁ := hadd file _ h₁.orderly
  exact ⟨hadd₁.orderly, hadd₁.entered h₁.importer,
    hexp file _ h₁.orderly h₁.reached ((h₁.reached _ h₁.importer).tail hedge)⟩

theorem survey_reached {a : FileKey} (levels : Nat) (file : Path) (t : Survey) (h : Orderly t.events)
    (ha : AllReached a t.events) (hf : Reaches t.events a file.components) :
    AllReached a (survey p levels file t).events := by
  induction levels generalizing file t with
  | zero => exact ha
  | succ levels ih =>
    unfold survey
    split_ifs with hseen
    · exact ha
    · have hnew : file.components ∉ enteredKeys t.events := fun hk => hseen (isAmong_iff.mpr hk)
      have hreading : ReadingReached a file (t.enter file (loadFile p file)) :=
        ⟨h.enter hnew, mem_enteredKeys_enter t file _, ha.enter hf _⟩
      exact (surveyImports_reached (survey_adds levels) ih _ hreading).reached

end Surveys

/-! ## The survey of a walk -/

section Whole

variable (w : Start)

theorem Start.survey_adds : Adds w.project none [] w.survey.events :=
  Walk.survey_adds _ w.entry .start orderly_nil

/-- Only files that the entry reaches are taken up. -/
theorem Start.survey_reached : AllReached w.entry.components w.survey.events :=
  Walk.survey_reached _ w.entry .start orderly_nil (by simp [AllReached, Survey.start, enteredKeys, entries])
    .refl

theorem Start.survey_answered {e : Event} (he : e ∈ w.survey.events) :
    Answered w.project w.survey.events e := by
  obtain ⟨new, hnew, h⟩ := w.survey_adds.news
  exact h e (by rw [List.nil_append] at hnew; rwa [hnew] at he)

end Whole

end ComponentRegistry.Walk
