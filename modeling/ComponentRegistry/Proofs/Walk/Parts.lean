import ComponentRegistry.Proofs.Disk.Canonical
import ComponentRegistry.Proofs.Resolver.Finding
import ComponentRegistry.Proofs.Walk.Resolutions

/-!
# Walks from recorded files

The manifest of a recorded file is part of the manifest that records it (`generate_part`).  The
order of first visits is another one when the walk begins at that file, and so is what the resolver
remembers; but the notes of a walk that succeeds have everything that a walk from one of its files
comes across (`Traversal.subset_of_complete`).  This needs a resolver that answers as the disk does
whatever it remembers, so one that asks for files only by spellings that a file can have.
-/

namespace ComponentRegistry

/-- What one manifest lists is listed in the other one. -/
structure Manifest.PartOf (part whole : Manifest) : Prop where
  files : part.files ⊆ whole.files
  dependencies : part.dependencies ⊆ whole.dependencies
  devDependencies : part.devDependencies ⊆ whole.devDependencies
  registryDependencies : part.registryDependencies ⊆ whole.registryDependencies

namespace Walk

/-- The notes have what is pending. -/
def Within (es : List Event) : Pending → Prop
  | .file file => file ∈ entries es
  | .statement importer reference =>
    ∃ m, Event.met m ∈ es ∧ m.importer = importer ∧ m.reference = reference

/-- So the resolver was asked about a statement that is pending. -/
theorem Within.mem_calls {es : List Event} {met : Met}
    (h : Within es (.statement met.importer met.reference)) : met.call ∈ calls es := by
  obtain ⟨met', hmet', himporter, hreference⟩ := h
  have hsame : met'.call = met.call := by
    unfold Met.call
    rw [himporter, hreference]
  exact hsame ▸ List.mem_map_of_mem (mem_mets.mpr hmet')

/-- The notes have all that is behind the files that were taken up. -/
structure Complete (p : Project) (es : List Event) : Prop where
  loaded : ∀ file ∈ entries es, Event.entered file (loadFile p file) ∈ es
  read : ∀ file ∈ entries es, ∀ reference ∈ importsOf (loadFile p file),
    Within es (.statement file reference)
  /-- What became of a statement is what the disk says of it. -/
  answered : ∀ m, Event.met m ∈ es →
    m.answer = outcome p m.reference.specifier m.importer (p.target? m)
  followed : ∀ m, Event.met m ∈ es → ∀ file, m.target? = some file → Within es (.file file)

/-- The same project with other settings. -/
def Project.under (p : Project) (c : Config) : Project := { p with config := c }

/-- Under the settings `c` nothing is inlined that is not inlined in the project as it is. -/
def Project.InlinesUnder (p : Project) (c : Config) : Prop :=
  ∀ specifier importer file? file,
    outcome (p.under c) specifier importer file? = .ok (.inlined file) →
      outcome p specifier importer file? = .ok (.inlined file)

/-! ## Staying within notes -/

section Complete

variable {p : Project} {w : Start} {m : Manifest} {es fs : List Event} {paths : List Path}

/-- The notes of a walk that succeeds are complete. -/
theorem Closure.complete (h : Closure w w.survey.events m) (hl : Loadable w.project w.entry)
    (hs : Resolver.SpelledAsFiles w.project.disk w.asked) : Complete w.project w.survey.events := by
  have hanswered : ∀ met, Event.met met ∈ w.survey.events →
      met.answer = outcome w.project met.reference.specifier met.importer (w.project.target? met) := by
    intro met hmet
    obtain ⟨r, hr, rfl⟩ := exists_resolution w.project .empty hmet
    rw [w.answer_eq hl hr, w.file?_eq hs hr]
  refine ⟨fun file hfile => ?_, fun file hfile reference hreference => ?_, hanswered,
    fun met hmet file htarget => ?_⟩
  · obtain ⟨found, he⟩ := mem_entries.mp hfile
    rwa [← (w.survey_answered he).1]
  · obtain ⟨found, he⟩ := mem_entries.mp hfile
    obtain ⟨rfl, hreferences⟩ := w.survey_answered he
    rw [← hreferences] at hreference
    obtain ⟨met, hmet, hname⟩ := List.mem_map.mp hreference
    obtain ⟨hmet, hkey⟩ := mem_statements.mp hmet
    rcases h.traversal.importer_mem hmet with htodo | himporter
    · cases List.mem_singleton.mp htodo
    · exact ⟨met, hmet, List.inj_on_of_nodup_map h.once himporter hfile hkey, hname⟩
  · -- both the target and the file that was taken up for it are named by canonical paths
    have hinlined := (hanswered met hmet).symm.trans (Met.target?_eq_some_iff.mp htarget)
    obtain ⟨hfound, -, -⟩ := of_outcome_inlined hinlined
    obtain ⟨path, hpath⟩ := Resolver.canonical_of_resolve hfound
    rcases h.traversal.mem_of_target hmet htarget with hnil | hmem
    · cases hnil
    · obtain ⟨source, hsource, hkey⟩ := List.mem_map.mp hmem
      obtain ⟨path', hpath'⟩ := h.canonical source hsource
      exact Disk.eq_of_canonical hpath hpath' hkey.symm ▸ hsource

/-- A statement that the disk answers is in the notes as it is, if it is there at all. -/
theorem Complete.mem_of_answer (hes : Complete p es) {met : Met}
    (hmet : Within es (.statement met.importer met.reference))
    (hanswer : met.answer = outcome p met.reference.specifier met.importer (p.target? met)) :
    Event.met met ∈ es := by
  obtain ⟨⟨importer, reference, answer⟩, hnoted, rfl, rfl⟩ := hmet
  have hsame : answer = met.answer := (hes.answered _ hnoted).trans hanswer.symm
  rwa [hsame] at hnoted

/-- A statement whose file is inlined is in the notes with this answer. -/
theorem Complete.of_inlined (hes : Complete p es) {met : Met} {file : Path}
    (hmet : Within es (.statement met.importer met.reference))
    (h : outcome p met.reference.specifier met.importer (p.target? met) = .ok (.inlined file)) :
    ∃ met₀, Event.met met₀ ∈ es ∧ met₀.target? = some file := by
  have hmem : Event.met ⟨met.importer, met.reference, .ok (.inlined file)⟩ ∈ es :=
    hes.mem_of_answer hmet h.symm
  exact ⟨_, hmem, rfl⟩

/-- The notes foresee an event of a walk under the settings `c`: they have it, or they have its import
statement, to which the settings give the answer. -/
def Foreseen (p : Project) (c : Config) (es : List Event) : Event → Prop
  | .entered file found => Event.entered file found ∈ es
  | .met m => Within es (.statement m.importer m.reference) ∧
      m.answer = outcome (p.under c) m.reference.specifier m.importer (p.target? m)

/-- **Complete notes foresee a traversal of what they have**, whatever it remembers, under all settings
that inline no more. -/
theorem Traversal.foreseen {c : Config} (hes : Complete p es) (hc : p.InlinesUnder c)
    (hs : Resolver.SpelledAsFiles p.disk paths)
    (hsub : Resolver.asked p.disk p.resolver (calls es) ⊆ paths) {seen : List FileKey} {cache : Cache}
    {todo : List Pending} (h : Traversal (p.under c) seen cache todo fs)
    (hknows : Resolver.Knows p.disk paths cache) (htodo : ∀ x ∈ todo, Within es x) :
    ∀ e ∈ fs, Foreseen p c es e := by
  induction h with
  | done => simp
  | again _ _ ih => exact ih hknows fun x hx => htodo x (List.mem_cons_of_mem _ hx)
  | @enter seen cache file todo fs _ _ ih =>
    have hfile : file ∈ entries es := htodo _ (List.mem_cons_self ..)
    refine List.forall_mem_cons.mpr ⟨hes.loaded file hfile, ih hknows fun x hx => ?_⟩
    rcases List.mem_append.mp hx with hx | hx
    · obtain ⟨reference, hreference, rfl⟩ := List.mem_map.mp hx
      exact hes.read file hfile reference hreference
    · exact htodo x (List.mem_cons_of_mem _ hx)
  | @meet seen cache cache' met todo fs hresolve _ ih =>
    have hnoted : Within es (.statement met.importer met.reference) := htodo _ (List.mem_cons_self ..)
    obtain ⟨hanswer, hafter⟩ := resolveImport_eq (p := p.under c) hs hsub hknows hnoted.mem_calls
    rw [hresolve] at hanswer hafter
    refine List.forall_mem_cons.mpr ⟨⟨hnoted, hanswer⟩, ih hafter fun x hx => ?_⟩
    rcases List.mem_append.mp hx with hx | hx
    · -- what is inlined now is inlined in the notes, so they follow it
      obtain ⟨file, hfile, rfl⟩ := List.mem_map.mp hx
      have htarget := Met.target?_eq_some_iff.mp (Option.mem_toList.mp hfile)
      obtain ⟨met₀, hmet₀, htarget₀⟩ := hes.of_inlined hnoted (hc _ _ _ _ (hanswer.symm.trans htarget))
      exact hes.followed met₀ hmet₀ file htarget₀
    · exact htodo x (List.mem_cons_of_mem _ hx)

/-- **A traversal of what complete notes have stays within them**, whatever it remembers. -/
theorem Traversal.subset_of_complete (hes : Complete p es) (hs : Resolver.SpelledAsFiles p.disk paths)
    (hsub : Resolver.asked p.disk p.resolver (calls es) ⊆ paths) {seen : List FileKey} {c : Cache}
    {todo : List Pending} (h : Traversal p seen c todo fs) (hknows : Resolver.Knows p.disk paths c)
    (htodo : ∀ x ∈ todo, Within es x) : fs ⊆ es := by
  have hforeseen := Traversal.foreseen (c := p.config) hes (fun _ _ _ _ h => h) hs hsub h hknows htodo
  intro e he
  cases e with
  | entered file found => exact hforeseen _ he
  | met met =>
    obtain ⟨hnoted, hanswer⟩ := hforeseen _ he
    exact hes.mem_of_answer hnoted hanswer

end Complete

/-! ## The walk from a part -/

section Part

variable {w w' : Start} {m : Manifest} {es fs : List Event}

/-- A walk succeeds in which nothing goes wrong, if it inlines no more than a walk that succeeds. -/
theorem exists_run_of_inlines (hrun : w.run = .ok m) (hl' : Loadable w'.project w'.entry)
    (hfine : ∀ e ∈ w'.survey.events, e.failure? = none)
    (hmono : Inlines w'.survey.events ≤ Inlines w.survey.events)
    (hreached : Reaches w.survey.events w.entry.components w'.entry.components) :
    ∃ m', w'.run = .ok m' := by
  cases hrun' : w'.run with
  | ok m' => exact ⟨m', rfl⟩
  | error f =>
    exfalso
    cases Start.fault_of_run hl' hrun' with
    | unloaded he => exact absurd (hfine _ he) (by simp [Event.failure?])
    | refused hmet hanswer => exact absurd (hfine _ hmet) (by simp [Event.failure?, hanswer])
    | cycle hcycle =>
      exact acyclic_of_run hrun _
        (hreached.trans (Relation.ReflTransGen.mono hmono _ _ hcycle.reached))
        (Relation.TransGen.mono hmono _ _ hcycle.loop)

/-- A walk succeeds whose notes are among those of a walk that succeeds. -/
theorem exists_run_of_subset (hrun : w.run = .ok m) (hl' : Loadable w'.project w'.entry)
    (hsub : w'.survey.events ⊆ w.survey.events)
    (hreached : Reaches w.survey.events w.entry.components w'.entry.components) :
    ∃ m', w'.run = .ok m' :=
  exists_run_of_inlines hrun hl' (fun _ he => fine_of_run hrun (hsub he))
    (fun _ _ => Inlines.of_subset hsub) hreached

/-- Fewer notes make a part of the manifest. -/
theorem manifestOf_partOf (hproject : w'.project = w.project) (hsub : fs ⊆ es) :
    (w'.manifestOf fs).PartOf (w.manifestOf es) := by
  have hpart := gathers_foldl w'.project w'.name fs
  have hwhole := gathers_foldl w.project w.name es
  have hlists : ∀ {f : Event → Option String} {a b : UniqueList}, a.Holds (fs.filterMap f) →
      b.Holds (es.filterMap f) → a.items ⊆ b.items := by
    intro f a b ha hb name hname
    exact hb.mem_items.mpr (List.filterMap_subset f hsub (ha.mem_items.mp hname))
  refine ⟨?_, hlists hpart.dependencies hwhole.dependencies, ?_,
    hlists hpart.registryDependencies hwhole.registryDependencies⟩
  · show Draft.files _ ⊆ Draft.files _
    rw [hpart.files, hwhole.files, hproject]
    exact List.filterMap_subset _ hsub
  · show UniqueList.items (Draft.devDependencies _) ⊆ UniqueList.items (Draft.devDependencies _)
    rw [hpart.devDependencies, hwhole.devDependencies]
    exact List.Subset.refl _

/-- The root and the resolver are all that depends on the entry. -/
theorem project_eq_of_prepare {d : Disk} {config : Config} {entry entry' : Path}
    (h : prepare d config entry = .ok w) (h' : prepare d config entry' = .ok w')
    (hroot : w'.project.root = w.project.root) (hresolver : w'.project.resolver = w.project.resolver) :
    w'.project = w.project := by
  obtain ⟨file, root, -, -, rfl⟩ := prepare_eq_ok_iff.mp h
  obtain ⟨file', root', -, -, rfl⟩ := prepare_eq_ok_iff.mp h'
  simp only at hroot hresolver
  subst hroot
  simp only [hresolver]

/-- **The manifest of a recorded file is part of the manifest.** -/
theorem generate_part {d : Disk} {config : Config} {entry file : Path}
    (h : generate d config entry = .ok m) (hw : prepare d config entry = .ok w)
    (hs : Resolver.SpelledAsFiles d w.asked) (hfile : file ∈ entries w.survey.events)
    (hw' : prepare d config file = .ok w') (hroot : w'.project.root = w.project.root)
    (hresolver : w'.project.resolver = w.project.resolver) :
    List.Forall₂ (Records w.project) (entries w.survey.events) m.files ∧
      ∃ m', generate d config file = .ok m' ∧ m'.PartOf m := by
  obtain ⟨w₀, hw₀, hl, hrun, hclosure⟩ := walk_of_generate h
  obtain rfl : w = w₀ := Except.ok.inj (hw.symm.trans hw₀)
  have hl' := loadable_of_prepare hw'
  obtain ⟨hdisk, -, -⟩ := of_prepare hw
  obtain ⟨-, -, hcanonical⟩ := of_prepare hw'
  have hproject := project_eq_of_prepare hw hw' hroot hresolver
  rw [← hdisk] at hs
  -- a recorded file is its own canonical path
  have hentry : w'.entry = file := by
    obtain ⟨path, hpath⟩ := hclosure.canonical file hfile
    exact Disk.canonical_unique (hdisk ▸ hpath) hcanonical
  have hsub : w'.survey.events ⊆ w.survey.events := by
    have htraversal := w'.survey_traversal hl'
    rw [hproject, hentry] at htraversal
    refine htraversal.subset_of_complete (hclosure.complete hl hs) hs (List.Subset.refl _)
      (Resolver.knows_empty _ _) fun x hx => ?_
    cases List.mem_singleton.mp hx
    exact hfile
  have hreached : Reaches w.survey.events w.entry.components w'.entry.components := by
    rw [hentry]
    exact (hclosure.reached _).mp (List.mem_map_of_mem hfile)
  obtain ⟨m', hrun'⟩ := exists_run_of_subset hrun hl' hsub hreached
  refine ⟨hclosure.files, m', generate_eq_ok_iff.mpr
    ⟨Disk.has_of_canonical hcanonical, w', hw', hrun'⟩, ?_⟩
  rw [← Start.manifestOf_survey hrun', ← Start.manifestOf_survey hrun]
  exact manifestOf_partOf hproject hsub

/-- A page whose card takes up the text that its list imports as well. -/
def page : Disk := .ofTexts [
  ("p/package.json", "\x7b\x7d"),
  ("p/page.ts", "import './card';\nimport './list';"),
  ("p/card.ts", "import './text';\nimport 'react';"),
  ("p/list.ts", "import 'clsx';\nimport './text';"),
  ("p/text.ts", "")]

theorem page_part : ∃ m w w', generate page .unset (Path.ofString "/p/page.ts") = .ok m ∧
    prepare page .unset (Path.ofString "/p/page.ts") = .ok w ∧
    Resolver.SpelledAsFiles page w.asked ∧ Path.ofString "/p/list.ts" ∈ entries w.survey.events ∧
    prepare page .unset (Path.ofString "/p/list.ts") = .ok w' ∧
    w'.project.root = w.project.root ∧ w'.project.resolver = w.project.resolver ∧
    List.Forall₂ (Records w.project) (entries w.survey.events) m.files ∧
      ∃ m', generate page .unset (Path.ofString "/p/list.ts") = .ok m' ∧ m'.PartOf m := by
  have hgen : (generate page .unset (Path.ofString "/p/page.ts")).isOk = true := by decide +kernel
  obtain ⟨m, hm⟩ := exists_ok hgen
  obtain ⟨w, hw, hspelled, hfile, hroot, hresolver⟩ : ∃ w,
      prepare page .unset (Path.ofString "/p/page.ts") = .ok w ∧
        (∀ q ∈ w.asked, q.EndsInName ∧ Disk.refusal? q = none) ∧
        Path.ofString "/p/list.ts" ∈ entries w.survey.events ∧
        w.project.root = Path.ofString "/p" ∧ w.project.resolver = ⟨none⟩ :=
    exists_ok_and (by decide +kernel)
  obtain ⟨w', hw', hroot', hresolver'⟩ : ∃ w',
      prepare page .unset (Path.ofString "/p/list.ts") = .ok w' ∧
        w'.project.root = Path.ofString "/p" ∧ w'.project.resolver = ⟨none⟩ :=
    exists_ok_and (by decide +kernel)
  have hs := Resolver.spelledAsFiles_of_all (d := page) hspelled
  have hroots := hroot'.trans hroot.symm
  have hresolvers := hresolver'.trans hresolver.symm
  exact ⟨m, w, w', hm, hw, hs, hfile, hw', hroots, hresolvers,
    generate_part hm hw hs hfile hw' hroots hresolvers⟩

/-- A component whose form spells the path of a module as that of a directory. -/
def slashed : Disk := .ofTexts [
  ("p/package.json", "\x7b\x7d"),
  ("p/tsconfig.json", "\x7b\"compilerOptions\":\x7b\"baseUrl\":\".\"\x7d\x7d"),
  ("p/main.ts", "import './base.ts';\nimport './form';"),
  ("p/form.ts", "import 'base.ts/';"),
  ("p/base.ts", "")]

/-- The form's own manifest declares what no file has for a path.  The component's manifest records
the form and declares nothing, since it is remembered that the module is there. -/
theorem slashed_apart : ∃ m m' w w', generate slashed .unset (Path.ofString "/p/main.ts") = .ok m ∧
    prepare slashed .unset (Path.ofString "/p/main.ts") = .ok w ∧
    List.Forall₂ (Records w.project) (entries w.survey.events) m.files ∧
    Path.ofString "/p/form.ts" ∈ entries w.survey.events ∧
    prepare slashed .unset (Path.ofString "/p/form.ts") = .ok w' ∧
    w'.project.root = w.project.root ∧ w'.project.resolver = w.project.resolver ∧
    generate slashed .unset (Path.ofString "/p/form.ts") = .ok m' ∧ ¬ m'.PartOf m := by
  obtain ⟨m, hm, hnothing⟩ : ∃ m, generate slashed .unset (Path.ofString "/p/main.ts") = .ok m ∧
      m.dependencies = [] :=
    exists_ok_and (by decide +kernel)
  obtain ⟨m', hm', hdeclared⟩ : ∃ m', generate slashed .unset (Path.ofString "/p/form.ts") = .ok m' ∧
      m'.dependencies = ["base.ts/"] :=
    exists_ok_and (by decide +kernel)
  obtain ⟨w, hw, hfile, hroot, hresolver⟩ : ∃ w,
      prepare slashed .unset (Path.ofString "/p/main.ts") = .ok w ∧
        Path.ofString "/p/form.ts" ∈ entries w.survey.events ∧
        w.project.root = Path.ofString "/p" ∧
        w.project.resolver = .around slashed (Path.ofString "/p") :=
    exists_ok_and (by decide +kernel)
  obtain ⟨w', hw', hroot', hresolver'⟩ : ∃ w',
      prepare slashed .unset (Path.ofString "/p/form.ts") = .ok w' ∧
        w'.project.root = Path.ofString "/p" ∧
        w'.project.resolver = .around slashed (Path.ofString "/p") :=
    exists_ok_and (by decide +kernel)
  obtain ⟨w₀, hw₀, -, hrecords⟩ := records_of_generate hm
  obtain rfl : w = w₀ := Except.ok.inj (hw.symm.trans hw₀)
  refine ⟨m, m', w, w', hm, hw, hrecords, hfile, hw', hroot'.trans hroot.symm,
    hresolver'.trans hresolver.symm, hm', fun hpart => ?_⟩
  have hmem := hpart.dependencies (hdeclared ▸ List.mem_singleton_self _)
  rw [hnothing] at hmem
  cases hmem

end Part

end Walk

end ComponentRegistry
