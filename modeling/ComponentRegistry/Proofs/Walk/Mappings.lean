import ComponentRegistry.Proofs.Walk.Accounting
import ComponentRegistry.Proofs.Walk.Parts

/-!
# Walks under more mappings

To map a further module to a remote registry cuts a walk and adds nothing to it (`generate_cut`): what
names it is redirected, and all other imports have the answers that they had.  The walk that is cut
takes its files in an order of its own, so it is not followed step by step; the notes of the walk
under fewer mappings foresee whatever it comes across (`Traversal.foreseen`).
-/

namespace ComponentRegistry

/-- `more` maps every module that `less` maps, to the same address; all else is set alike. -/
structure Config.MapsMore (less more : Config) : Prop where
  name : more.name = less.name
  version : more.version = less.version
  outputDir : more.outputDir = less.outputDir
  basePath : more.basePathField = less.basePathField
  mapped : ∀ module url, less.registryUrl? module = some url → more.registryUrl? module = some url

namespace Walk

/-- The same walk under other settings. -/
def Start.under (w : Start) (c : Config) : Start := { w with project := w.project.under c }

section Mappings

variable {p : Project} {w : Start} {more : Config} {es fs : List Event} {m m' : Manifest}

/-- **What becomes of an import statement under more mappings**: the same, or what was inlined is
redirected. -/
theorem outcome_under (h : p.config.MapsMore more) (specifier : String) (importer : Path)
    (file? : Option Path) :
    outcome (p.under more) specifier importer file? = outcome p specifier importer file? ∨
      ∃ file url, outcome p specifier importer file? = .ok (.inlined file) ∧
        outcome (p.under more) specifier importer file? = .ok (.registry url) := by
  cases file? with
  | none => exact Or.inl rfl
  | some file =>
    by_cases howns : p.Owns file
    · have howns' : (p.under more).Owns file := ⟨howns.notInstalled, howns.inside⟩
      rw [outcome_of_owns howns, outcome_of_owns howns']
      cases hurl : p.urlOf? file with
      | some url =>
        have hurl' : (p.under more).urlOf? file = some url := h.mapped _ _ hurl
        rw [hurl']
        exact Or.inl rfl
      | none =>
        cases (p.under more).urlOf? file with
        | none => exact Or.inl rfl
        | some url => exact Or.inr ⟨file, url, rfl, rfl⟩
    · -- the mappings are not asked about a file of others
      left
      by_cases hinside : file.startsWith p.root = true
      · have hinstalled : file.isInstalled = true := by
          by_contra hnot
          exact howns ⟨by simpa using hnot, hinside⟩
        simp [outcome, hinstalled]
      · simp [outcome, Project.under, hinside]

theorem inlinesUnder_of_mapsMore (h : p.config.MapsMore more) : p.InlinesUnder more := by
  intro specifier importer file? file hinlined
  rcases outcome_under h specifier importer file? with hsame | ⟨-, url, -, hurl⟩
  · exact hsame.symm.trans hinlined
  · rw [hurl] at hinlined
    cases hinlined

/-- A statement that was foreseen is in the notes with its answer there, which is the same or that it
is inlined. -/
theorem Foreseen.of_met (hes : Complete p es) (h : p.config.MapsMore more) {met : Met}
    (hmet : Foreseen p more es (.met met)) :
    ∃ met₀, Event.met met₀ ∈ es ∧ met₀.importer = met.importer ∧ met₀.reference = met.reference ∧
      (met.answer = met₀.answer ∨ ∃ url, met.answer = .ok (.registry url)) := by
  obtain ⟨hnoted, hanswer⟩ := hmet
  refine ⟨⟨met.importer, met.reference,
      outcome p met.reference.specifier met.importer (p.target? met)⟩,
    hes.mem_of_answer hnoted rfl, rfl, rfl, ?_⟩
  rcases outcome_under h met.reference.specifier met.importer (p.target? met) with
    hsame | ⟨-, url, -, hurl⟩
  · exact Or.inl (hanswer.trans hsame)
  · exact Or.inr ⟨url, hanswer.trans hurl⟩

/-- So nothing goes wrong with what was foreseen, where nothing went wrong before. -/
theorem Foreseen.fine (hes : Complete p es) (h : p.config.MapsMore more)
    (hfine : ∀ e ∈ es, e.failure? = none) {e : Event} (he : Foreseen p more es e) :
    e.failure? = none := by
  cases e with
  | entered file found => exact hfine _ he
  | met met =>
    obtain ⟨met₀, hmet₀, -, -, hsame | ⟨url, hurl⟩⟩ := he.of_met hes h
    · have hfine₀ := hfine _ hmet₀
      rw [Event.failure?] at hfine₀ ⊢
      rwa [hsame]
    · simp [Event.failure?, hurl]

/-- And what inlines a file has inlined it before. -/
theorem Foreseen.inlines (hes : Complete p es) (h : p.config.MapsMore more)
    (hfs : ∀ e ∈ fs, Foreseen p more es e) : Inlines fs ≤ Inlines es := by
  rintro k k' ⟨met, hmet, file, htarget, hkey⟩
  obtain ⟨he, himporter⟩ := mem_statements.mp hmet
  obtain ⟨met₀, hmet₀, hsame, -, hanswer | ⟨url, hurl⟩⟩ := (hfs _ he).of_met hes h
  · refine ⟨met₀, mem_statements.mpr ⟨hmet₀, by rw [hsame, himporter]⟩, file, ?_, hkey⟩
    rw [Met.target?_eq_some_iff] at htarget ⊢
    exact hanswer.symm.trans htarget
  · rw [Met.target?_eq_some_iff, hurl] at htarget
    cases htarget

/-! ## The walk that is cut -/

theorem prepare_under {d : Disk} {config : Config} {entry : Path}
    (h : prepare d config entry = .ok w) (more : Config) :
    prepare d more entry = .ok (w.under more) := by
  obtain ⟨file, root, hfile, hroot, rfl⟩ := prepare_eq_ok_iff.mp h
  exact prepare_eq_ok_iff.mpr ⟨file, root, hfile, hroot, rfl⟩

/-- A record of what was foreseen is a record of the notes. -/
theorem Foreseen.recorded? (h : p.config.MapsMore more) {e : Event} {f : RegistryFile}
    (he : Foreseen p more es e) (hf : e.recorded? (p.under more) = some f) :
    e ∈ es ∧ e.recorded? p = some f := by
  cases e with
  | met met => cases hf
  | entered file found =>
    refine ⟨he, ?_⟩
    have hpath : recordPath (p.under more) file = recordPath p file := by
      simp only [recordPath, Project.under, Config.basePath?, h.basePath]
    cases found with
    | error f => cases hf
    | ok loaded =>
      simp only [Event.recorded?, hpath] at hf ⊢
      exact hf

/-- The walk under more mappings comes across nothing but what was foreseen. -/
theorem foreseen_of_closure (hclosure : Closure w w.survey.events m)
    (hes : Complete w.project w.survey.events) (h : w.project.config.MapsMore more)
    (hl : Loadable (w.under more).project (w.under more).entry)
    (hs : Resolver.SpelledAsFiles w.project.disk w.asked) :
    ∀ e ∈ (w.under more).survey.events, Foreseen w.project more w.survey.events e := by
  refine ((w.under more).survey_traversal hl).foreseen hes (inlinesUnder_of_mapsMore h) hs
    (List.Subset.refl _) (Resolver.knows_empty _ _) fun x hx => ?_
  cases List.mem_singleton.mp hx
  exact List.mem_of_mem_head? hclosure.first

/-- What was foreseen has no other records. -/
theorem files_subset_of_foreseen (h : w.project.config.MapsMore more)
    (hforeseen : ∀ e ∈ fs, Foreseen w.project more es e) :
    ((w.under more).manifestOf fs).files ⊆ (w.manifestOf es).files := by
  show Draft.files _ ⊆ Draft.files _
  rw [(gathers_foldl _ _ _).files, (gathers_foldl _ _ _).files]
  intro f hf
  obtain ⟨e, he, hrecord⟩ := List.mem_filterMap.mp hf
  exact List.mem_filterMap.mpr ⟨e, (hforeseen e he).recorded? h hrecord⟩

/-- And it declares no other packages. -/
theorem packages_subset_of_foreseen (hes : Complete p es) (h : p.config.MapsMore more)
    (hforeseen : ∀ e ∈ fs, Foreseen p more es e) :
    fs.filterMap Event.package? ⊆ es.filterMap Event.package? := by
  intro name hname
  obtain ⟨met, hmet, hanswer, rfl⟩ := mem_packages.mp hname
  obtain ⟨met₀, hmet₀, -, hreference, hsame | ⟨url, hurl⟩⟩ := (hforeseen _ hmet).of_met hes h
  · exact mem_packages.mpr ⟨met₀, hmet₀, hsame.symm.trans hanswer, by rw [hreference]⟩
  · rw [hurl] at hanswer
    cases hanswer

/-- **To map more modules cuts a walk and adds nothing to it.** -/
theorem generate_cut {d : Disk} {config : Config} {entry : Path}
    (h : generate d config entry = .ok m) (hw : prepare d config entry = .ok w)
    (hs : Resolver.SpelledAsFiles d w.asked) (hmore : config.MapsMore more) :
    ∃ m', generate d more entry = .ok m' ∧ m'.files ⊆ m.files ∧ m'.dependencies ⊆ m.dependencies := by
  obtain ⟨w₀, hw₀, hl, hrun, hclosure⟩ := walk_of_generate h
  obtain rfl : w = w₀ := Except.ok.inj (hw.symm.trans hw₀)
  obtain ⟨hdisk, hconfig, hentry⟩ := of_prepare hw
  have hw' := prepare_under hw more
  have hl' := loadable_of_prepare hw'
  rw [← hdisk] at hs
  rw [← hconfig] at hmore
  have hes := hclosure.complete hl hs
  have hforeseen := foreseen_of_closure hclosure hes hmore hl' hs
  obtain ⟨m', hrun'⟩ := exists_run_of_inlines hrun hl'
    (fun e he => (hforeseen e he).fine hes hmore fun _ he => fine_of_run hrun he)
    (Foreseen.inlines hes hmore hforeseen) .refl
  have hclosure' := closure_of_run hl' hrun'
  refine ⟨m', generate_eq_ok_iff.mpr ⟨Disk.has_of_canonical hentry, _, hw', hrun'⟩, ?_, ?_⟩
  · rw [← Start.manifestOf_survey hrun, ← Start.manifestOf_survey hrun']
    exact files_subset_of_foreseen hmore hforeseen
  · rw [hclosure.dependencies, hclosure'.dependencies]
    intro name hname
    rw [List.mem_eraseDups] at hname ⊢
    exact packages_subset_of_foreseen hes hmore hforeseen hname

/-- The text of the page has a remote registry that stands for it. -/
def textMapped : Config :=
  { Config.unset with registryDependencies := some (.ofList [("text", "r/text.json")]) }

/-- So has its card. -/
def cardMapped : Config :=
  { Config.unset with
    registryDependencies := some (.ofList [("text", "r/text.json"), ("card", "r/card.json")]) }

theorem mapsMore_cardMapped : textMapped.MapsMore cardMapped := by
  refine ⟨rfl, rfl, rfl, rfl, fun module url h => ?_⟩
  have hfew : (if "text" = module then some "r/text.json" else none) = some url := h
  show (KeyMap.insert (.insert .empty "text" "r/text.json") "card" "r/card.json").find? module = _
  split_ifs at hfew with htext
  subst htext
  rw [KeyMap.find?_insert, if_neg (by decide), KeyMap.find?_insert, if_pos rfl, hfew]

theorem page_cut : ∃ m w, generate page textMapped (Path.ofString "/p/page.ts") = .ok m ∧
    prepare page textMapped (Path.ofString "/p/page.ts") = .ok w ∧
    Resolver.SpelledAsFiles page w.asked ∧ textMapped.MapsMore cardMapped ∧
    ∃ m', generate page cardMapped (Path.ofString "/p/page.ts") = .ok m' ∧
      m'.files ⊆ m.files ∧ m'.dependencies ⊆ m.dependencies := by
  have hgen : (generate page textMapped (Path.ofString "/p/page.ts")).isOk = true := by
    decide +kernel
  obtain ⟨m, hm⟩ := exists_ok hgen
  obtain ⟨w, hw, hspelled⟩ : ∃ w, prepare page textMapped (Path.ofString "/p/page.ts") = .ok w ∧
      ∀ q ∈ w.asked, q.EndsInName ∧ Disk.refusal? q = none :=
    exists_ok_and (by decide +kernel)
  have hs := Resolver.spelledAsFiles_of_all (d := page) hspelled
  exact ⟨m, w, hm, hw, hs, mapsMore_cardMapped, generate_cut hm hw hs mapsMore_cardMapped⟩

/-- The base is imported by way of a part, and its path is spelled as that of a directory in the
form. -/
def bypassed : Disk := .ofTexts [
  ("p/package.json", "\x7b\x7d"),
  ("p/tsconfig.json", "\x7b\"compilerOptions\":\x7b\"baseUrl\":\".\"\x7d\x7d"),
  ("p/main.ts", "import './part';\nimport './form';"),
  ("p/part.ts", "import './base.ts';"),
  ("p/form.ts", "import 'base.ts/';"),
  ("p/base.ts", "")]

/-- A remote registry stands for the part. -/
def partMapped : Config :=
  { Config.unset with registryDependencies := some (.ofList [("part", "r/part.json")]) }

/-- If the part is redirected nothing is remembered of the base when the form is read, and a package
is declared that was not declared before. -/
theorem bypassed_declared : Config.unset.MapsMore partMapped ∧
    ∃ m m', generate bypassed .unset (Path.ofString "/p/main.ts") = .ok m ∧
      generate bypassed partMapped (Path.ofString "/p/main.ts") = .ok m' ∧
      ¬ m'.dependencies ⊆ m.dependencies := by
  refine ⟨⟨rfl, rfl, rfl, rfl, fun _ _ h => by cases h⟩, ?_⟩
  obtain ⟨m, hm, hnothing⟩ : ∃ m, generate bypassed .unset (Path.ofString "/p/main.ts") = .ok m ∧
      m.dependencies = [] :=
    exists_ok_and (by decide +kernel)
  obtain ⟨m', hm', hdeclared⟩ : ∃ m',
      generate bypassed partMapped (Path.ofString "/p/main.ts") = .ok m' ∧
        m'.dependencies = ["base.ts/"] :=
    exists_ok_and (by decide +kernel)
  refine ⟨m, m', hm, hm', ?_⟩
  rw [hnothing, hdeclared]
  decide

end Mappings

end Walk

end ComponentRegistry
