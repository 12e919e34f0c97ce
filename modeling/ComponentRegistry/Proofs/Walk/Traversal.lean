import ComponentRegistry.Proofs.Walk.Levels

/-!
# Depth-first order

A traversal is described without recursion, by what is still to be done: the file or the import
statement on top is dealt with first.  A file that is new is taken up and its import statements are
put on top, in their order; an import statement is resolved and puts the file that it inlines on
top.  The notes of a survey are the traversal from the entry (`Start.survey_traversal`), so their
files stand in depth-first order of first visits and their import statements in the order they are
met, and what was taken up is all that the entry reaches (`Start.mem_enteredKeys_iff`).
-/

namespace ComponentRegistry.Walk

/-- What a traversal still has to do. -/
inductive Pending where
  | file (file : Path)
  | statement (importer : Path) (reference : Script.Reference)

/-- `Traversal p seen c todo es`: with the files of `seen` behind it, the cache `c` at hand and
`todo` before it, a traversal comes across `es`. -/
inductive Traversal (p : Project) : List FileKey → Cache → List Pending → List Event → Prop where
  | done {seen : List FileKey} {c : Cache} : Traversal p seen c [] []
  /-- A file that was taken up before is passed over. -/
  | again {seen : List FileKey} {c : Cache} {file : Path} {todo : List Pending} {es : List Event} :
    file.components ∈ seen → Traversal p seen c todo es →
    Traversal p seen c (.file file :: todo) es
  /-- A new file is taken up, and its import statements are next. -/
  | enter {seen : List FileKey} {c : Cache} {file : Path} {todo : List Pending} {es : List Event} :
    file.components ∉ seen →
    Traversal p (seen ++ [file.components]) c
      ((importsOf (loadFile p file)).map (.statement file) ++ todo) es →
    Traversal p seen c (.file file :: todo) (.entered file (loadFile p file) :: es)
  /-- The file that an import statement inlines is next. -/
  | meet {seen : List FileKey} {c c' : Cache} {m : Met} {todo : List Pending} {es : List Event} :
    resolveImport p m.reference.specifier m.importer c = (m.answer, c') →
    Traversal p seen c' (m.target?.toList.map .file ++ todo) es →
    Traversal p seen c (.statement m.importer m.reference :: todo) (.met m :: es)

/-! ## Surveys are traversals -/

section Deals

variable {p : Project}

/-- A survey piece that deals with `todo` first, whatever is to be done after it. -/
def Deals (p : Project) (todo : List Pending) (t t' : Survey) : Prop :=
  ∃ new, t'.events = t.events ++ new ∧ ∀ later rest,
    Traversal p (enteredKeys t'.events) t'.cache later rest →
    Traversal p (enteredKeys t.events) t.cache (todo ++ later) (new ++ rest)

theorem Deals.nothing (t : Survey) : Deals p [] t t :=
  ⟨[], by simp, fun _ _ h => h⟩

theorem Deals.trans {todo todo' : List Pending} {t t' t'' : Survey} (h : Deals p todo t t')
    (h' : Deals p todo' t' t'') : Deals p (todo ++ todo') t t'' := by
  obtain ⟨new, hev, hnew⟩ := h
  obtain ⟨new', hev', hnew'⟩ := h'
  refine ⟨new ++ new', by rw [hev', hev, List.append_assoc], fun later rest ht => ?_⟩
  rw [List.append_assoc, List.append_assoc]
  exact hnew _ _ (hnew' _ _ ht)

/-- An import statement is dealt with when its target is. -/
theorem Deals.statement {t t' : Survey} {importer : Path} {r : Script.Reference}
    (h : Deals p ((t.meet p importer r).1.target?.toList.map .file) (t.meet p importer r).2 t') :
    Deals p [.statement importer r] t t' := by
  obtain ⟨new, hev, hnew⟩ := h
  rw [Survey.meet_events] at hev hnew
  refine ⟨.met (t.meet p importer r).1 :: new, by rw [hev]; simp, fun later rest ht => ?_⟩
  have hrest := hnew later rest ht
  rw [enteredKeys_append, enteredKeys_met, List.append_nil] at hrest
  exact .meet (m := (t.meet p importer r).1) rfl hrest

/-- A new file is dealt with when its import statements are. -/
theorem Deals.file {file : Path} {t t' : Survey} (hf : file.components ∉ enteredKeys t.events)
    (h : Deals p ((importsOf (loadFile p file)).map (.statement file))
      (t.enter file (loadFile p file)) t') :
    Deals p [.file file] t t' := by
  obtain ⟨new, hev, hnew⟩ := h
  rw [Survey.enter_events] at hev hnew
  refine ⟨.entered file (loadFile p file) :: new, by rw [hev]; simp,
    fun later rest ht => .enter hf ?_⟩
  have hrest := hnew later rest ht
  rwa [enteredKeys_append, enteredKeys_entered] at hrest

theorem surveyImports_deals {n : Nat} {explore : Path → Survey → Survey}
    (hadd : ∀ file t, Orderly t.events → Adds p none t.events (explore file t).events)
    (hroom : ∀ file t, Loadable p file → Room p n t.events → Room p n (explore file t).events)
    (hexp : ∀ file t, Orderly t.events → Loadable p file → Room p n t.events →
      Deals p [.file file] t (explore file t))
    {importer : Path} (refs : List Script.Reference) {t : Survey} (h : Orderly t.events)
    (hi : importer.components ∈ enteredKeys t.events) (hr : Room p n t.events) :
    Deals p (refs.map (.statement importer)) t (surveyImports p explore importer refs t) := by
  induction refs generalizing t with
  | nil => exact .nothing _
  | cons r more ih =>
    have hadd₁ := Survey.meet_adds (p := p) r h hi
    have hr₁ : Room p n (t.meet p importer r).2.events := hr.met _
    cases htarget : (t.meet p importer r).1.target? with
    | none =>
      rw [surveyImports_noted more htarget]
      have hone : Deals p [.statement importer r] t (t.meet p importer r).2 :=
        Deals.statement (by rw [htarget]; exact .nothing _)
      exact hone.trans (ih hadd₁.orderly (hadd₁.entered hi) hr₁)
    | some file =>
      rw [surveyImports_explored more htarget]
      have hload : Loadable p file := Survey.loadable_target htarget
      have hadd₂ := hadd file _ hadd₁.orderly
      have hone : Deals p [.statement importer r] t (explore file (t.meet p importer r).2) :=
        Deals.statement (by rw [htarget]; exact hexp file _ hadd₁.orderly hload hr₁)
      exact hone.trans
        (ih hadd₂.orderly (hadd₂.entered (hadd₁.entered hi)) (hroom file _ hload hr₁))

/-- A survey with levels left deals with its file. -/
theorem survey_deals (levels : Nat) (file : Path) (t : Survey) (h : Orderly t.events)
    (hf : Loadable p file) (hr : Room p levels t.events) :
    Deals p [.file file] t (survey p levels file t) := by
  induction levels generalizing file t with
  | zero => exact absurd (hr.pos h) (lt_irrefl 0)
  | succ levels ih =>
    unfold survey
    split_ifs with hseen
    · have hold : file.components ∈ enteredKeys t.events := isAmong_iff.mp hseen
      exact ⟨[], by simp, fun later rest ht => .again hold ht⟩
    · have hnew : file.components ∉ enteredKeys t.events := fun hk => hseen (isAmong_iff.mpr hk)
      refine Deals.file hnew ?_
      cases hload : loadFile p file with
      | error f => exact .nothing _
      | ok loaded =>
        -- only a file that could be loaded uses up a level
        have hroom := hr.descend hf hload
        rw [hload] at hroom
        exact surveyImports_deals (survey_adds levels) (fun file t => survey_room levels file t) ih
          loaded.summary.imports (h.enter hnew) (mem_enteredKeys_enter t file _) hroom

end Deals

/-- **The survey of a walk is the depth-first traversal from its entry.** -/
theorem Start.survey_traversal (w : Start) (h : Loadable w.project w.entry) :
    Traversal w.project [] .empty [.file w.entry] w.survey.events := by
  obtain ⟨new, hnew, hdeal⟩ := survey_deals (p := w.project) _ w.entry .start orderly_nil h room_nil
  have hevents : w.survey.events = new := hnew
  have htraversal := hdeal [] [] .done
  rw [List.append_nil, List.append_nil] at htraversal
  rw [hevents]
  exact htraversal

/-! ## A traversal leaves nothing out -/

section Closed

variable {p : Project} {seen : List FileKey} {c : Cache} {todo : List Pending} {es : List Event}

/-- What comes after a file was taken up is part of the notes, that file included. -/
theorem seen_or_entered {file : Path} {found : Except Failure Loaded} {k : FileKey}
    (h : k ∈ seen ++ [file.components] ∨ k ∈ enteredKeys es) :
    k ∈ seen ∨ k ∈ enteredKeys (.entered file found :: es) := by
  have hkeys : enteredKeys (.entered file found :: es) = file.components :: enteredKeys es := rfl
  rw [hkeys, List.mem_cons]
  rcases h with hs | he
  · rcases List.mem_append.mp hs with hs | hs
    · exact Or.inl hs
    · exact Or.inr (Or.inl (List.mem_singleton.mp hs))
  · exact Or.inr (Or.inr he)

/-- Every file that is to be done is taken up, if it was not before. -/
theorem Traversal.mem_of_pending (h : Traversal p seen c todo es) {file : Path}
    (hf : Pending.file file ∈ todo) : file.components ∈ seen ∨ file.components ∈ enteredKeys es := by
  induction h with
  | done => cases hf
  | again hseen _ ih =>
    rcases List.mem_cons.mp hf with heq | hf
    · cases heq; exact Or.inl hseen
    · exact ih hf
  | @enter seen c file' todo es _ _ ih =>
    rcases List.mem_cons.mp hf with heq | hf
    · cases heq; exact Or.inr (List.mem_cons_self ..)
    · exact seen_or_entered (ih (List.mem_append_right _ hf))
  | @meet seen c c' m todo es _ _ ih =>
    rcases List.mem_cons.mp hf with heq | hf
    · cases heq
    · exact ih (List.mem_append_right _ hf)

/-- The target of every import statement that is met is taken up, if it was not before. -/
theorem Traversal.mem_of_target (h : Traversal p seen c todo es) {m : Met} {file : Path}
    (hm : Event.met m ∈ es) (htarget : m.target? = some file) :
    file.components ∈ seen ∨ file.components ∈ enteredKeys es := by
  induction h with
  | done => cases hm
  | again _ _ ih => exact ih hm
  | @enter seen c file' todo es _ _ ih =>
    rcases List.mem_cons.mp hm with heq | hm
    · cases heq
    · exact seen_or_entered (ih hm)
  | @meet seen c c' m' todo es _ hrest ih =>
    rcases List.mem_cons.mp hm with heq | hm
    · cases heq
      exact hrest.mem_of_pending (by simp [htarget])
    · exact ih hm

/-- The importer of every import statement is taken up, if the statement was not to be done. -/
theorem Traversal.importer_mem (h : Traversal p seen c todo es) {m : Met} (hm : Event.met m ∈ es) :
    Pending.statement m.importer m.reference ∈ todo ∨ m.importer ∈ entries es := by
  induction h with
  | done => cases hm
  | again _ _ ih => exact (ih hm).imp_left (List.mem_cons_of_mem _)
  | @enter seen c file todo es _ _ ih =>
    have hentries : entries (.entered file (loadFile p file) :: es) = file :: entries es := rfl
    rw [hentries]
    rcases List.mem_cons.mp hm with heq | hm
    · cases heq
    · rcases ih hm with htodo | hes
      · rcases List.mem_append.mp htodo with hown | hlater
        · obtain ⟨r, -, heq⟩ := List.mem_map.mp hown
          cases heq
          exact Or.inr (List.mem_cons_self ..)
        · exact Or.inl (List.mem_cons_of_mem _ hlater)
      · exact Or.inr (List.mem_cons_of_mem _ hes)
  | @meet seen c c' m' todo es _ _ ih =>
    have hentries : entries (.met m' :: es) = entries es := rfl
    rw [hentries]
    rcases List.mem_cons.mp hm with heq | hm
    · cases heq
      exact Or.inl (List.mem_cons_self ..)
    · refine (ih hm).imp_left fun htodo => List.mem_cons_of_mem _ ?_
      rcases List.mem_append.mp htodo with htarget | hlater
      · obtain ⟨file, -, heq⟩ := List.mem_map.mp htarget
        cases heq
      · exact hlater

/-- Every answer is that of resolving the import statement. -/
theorem Traversal.resolved (h : Traversal p seen c todo es) {m : Met} (hm : Event.met m ∈ es) :
    ∃ c', m.answer = (resolveImport p m.reference.specifier m.importer c').1 := by
  induction h with
  | done => cases hm
  | again _ _ ih => exact ih hm
  | enter _ _ ih =>
    rcases List.mem_cons.mp hm with heq | hm
    · cases heq
    · exact ih hm
  | @meet seen c c' m' todo es hres _ ih =>
    rcases List.mem_cons.mp hm with heq | hm
    · cases heq; exact ⟨c, by rw [hres]⟩
    · exact ih hm

end Closed

/-- **What is taken up is what the entry reaches.** -/
theorem Start.mem_enteredKeys_iff (w : Start) (h : Loadable w.project w.entry) {k : FileKey} :
    k ∈ enteredKeys w.survey.events ↔ Reaches w.survey.events w.entry.components k := by
  have htraversal := w.survey_traversal h
  refine ⟨w.survey_reached k, fun hr => ?_⟩
  induction hr with
  | refl =>
    rcases htraversal.mem_of_pending (List.mem_singleton_self _) with hnil | he
    · cases hnil
    · exact he
  | tail _ hstep _ =>
    obtain ⟨m, hm, file, hfile, rfl⟩ := hstep
    rcases htraversal.mem_of_target (mem_statements.mp hm).1 hfile with hnil | he
    · cases hnil
    · exact he

end ComponentRegistry.Walk
