import ComponentRegistry.Proofs.Walk.Resolutions

/-!
# Where import statements end up

A manifest accounts for every import statement of the files that it records (`generate_accounts`):
each has one outcome, which the manifest shows, and what the manifest shows beside the entry comes
from such a statement.  Statements that are resolved to one file have one fate.

So a recorded file is not redirected as well, unless it is the entry: that is recorded without asking
whether a remote registry stands for it (`generate_redirected_iff`).  And what is declared under a
name is not what is inlined under that name in another directory (`generate_declared_apart`).
-/

namespace ComponentRegistry.Walk

/-! ## What the manifest shows -/

section Shown

variable {w : Start} {m : Manifest} {es before after : List Event} {r r' : Resolution}
  {source : Path}

theorem mem_urls {url : String} : url ∈ es.filterMap Event.url? ↔
    ∃ met, Event.met met ∈ es ∧ met.answer = .ok (.registry url) := by
  rw [List.mem_filterMap]
  constructor
  · rintro ⟨e, he, hurl⟩
    unfold Event.url? at hurl
    split at hurl
    · cases hurl; exact ⟨_, he, rfl⟩
    · cases hurl
  · rintro ⟨⟨importer, reference, answer⟩, he, rfl⟩
    exact ⟨_, he, rfl⟩

theorem mem_packages {name : String} : name ∈ es.filterMap Event.package? ↔
    ∃ met, Event.met met ∈ es ∧ met.answer = .ok .external ∧ met.reference.specifier = name := by
  rw [List.mem_filterMap]
  constructor
  · rintro ⟨e, he, hname⟩
    unfold Event.package? at hname
    split at hname
    · cases hname; exact ⟨_, he, rfl, rfl⟩
    · cases hname
  · rintro ⟨⟨importer, reference, answer⟩, he, rfl, rfl⟩
    exact ⟨_, he, rfl⟩

/-- The addresses of a manifest are those of the redirected statements. -/
theorem Closure.mem_registryDependencies_iff (h : Closure w w.survey.events m) {url : String} :
    url ∈ m.registryDependencies ↔ ∃ r ∈ w.resolutions, r.met.answer = .ok (.registry url) := by
  rw [h.registryDependencies, List.mem_eraseDups, mem_urls]
  constructor
  · rintro ⟨met, he, hanswer⟩
    obtain ⟨r, hr, rfl⟩ := exists_resolution w.project .empty he
    exact ⟨r, hr, hanswer⟩
  · rintro ⟨r, hr, hanswer⟩
    exact ⟨r.met, met_of_mem_resolutions hr, hanswer⟩

/-- Its packages are the specifiers of the statements that leave the project. -/
theorem Closure.mem_dependencies_iff (h : Closure w w.survey.events m) {name : String} :
    name ∈ m.dependencies ↔
      ∃ r ∈ w.resolutions, r.met.answer = .ok .external ∧ r.met.reference.specifier = name := by
  rw [h.dependencies, List.mem_eraseDups, mem_packages]
  constructor
  · rintro ⟨met, he, hanswer, hname⟩
    obtain ⟨r, hr, rfl⟩ := exists_resolution w.project .empty he
    exact ⟨r, hr, hanswer, hname⟩
  · rintro ⟨r, hr, hanswer, hname⟩
    exact ⟨r.met, met_of_mem_resolutions hr, hanswer, hname⟩

/-- A statement that concerns another package of the workspace leaves no trace. -/
theorem manifestOf_without {met : Met} (h : met.answer = .ok .workspace) :
    w.manifestOf (before ++ .met met :: after) = w.manifestOf (before ++ after) := by
  have hnote : ∀ d, Event.note w.project d (.met met) = d := by
    intro d
    unfold Event.note
    simp only [h]
  unfold Start.manifestOf
  rw [List.foldl_append, List.foldl_cons, hnote, List.foldl_append]

end Shown

/-! ## Accounts -/

/-- The resolved import statements of a file. -/
def Start.resolutionsOf (w : Start) (source : Path) : List Resolution :=
  w.resolutions.filter fun r => r.met.importer.components = source.components

/-- The outcome of an import statement, with what the manifest shows of it. -/
inductive Accounted (w : Start) (m : Manifest) (r : Resolution) : Prop where
  /-- The file that was found has a record. -/
  | inlined {file : Path} : r.met.answer = .ok (.inlined file) → r.file? = some file →
    file.components ∈ enteredKeys w.survey.events → Accounted w m r
  /-- The address that is configured for the file is listed. -/
  | registry {file : Path} {url : String} : r.met.answer = .ok (.registry url) →
    r.file? = some file → w.project.urlOf? file = some url → url ∈ m.registryDependencies →
    Accounted w m r
  /-- The specifier is listed. -/
  | external : r.met.answer = .ok .external → r.met.reference.specifier ∈ m.dependencies →
    Accounted w m r
  /-- The manifest would be the same without the statement. -/
  | workspace : r.met.answer = .ok .workspace →
    (∀ before after, w.survey.events = before ++ .met r.met :: after →
      m = w.manifestOf (before ++ after)) → Accounted w m r

/-- A manifest accounts for the import statements of the files that it records. -/
structure Accounts (w : Start) (m : Manifest) : Prop where
  /-- Each file that was taken up has one record. -/
  records : List.Forall₂ (Records w.project) (entries w.survey.events) m.files
  once : (enteredKeys w.survey.events).Nodup
  /-- Each import statement of such a file is resolved once, in its place. -/
  statements : ∀ source ∈ entries w.survey.events, ∃ loaded,
    loadFile w.project source = .ok loaded ∧
      (w.resolutionsOf source).map (·.met.reference) = loaded.summary.imports
  importers : ∀ r ∈ w.resolutions, ∃ source ∈ entries w.survey.events, r ∈ w.resolutionsOf source
  accounted : ∀ r ∈ w.resolutions, Accounted w m r
  inlined : ∀ source ∈ entries w.survey.events, source ≠ w.entry → ∃ r ∈ w.resolutions, ∃ file,
    r.met.answer = .ok (.inlined file) ∧ r.file? = some file ∧ file.components = source.components
  redirected : ∀ url ∈ m.registryDependencies, ∃ r ∈ w.resolutions,
    r.met.answer = .ok (.registry url)
  declared : ∀ name ∈ m.dependencies, ∃ r ∈ w.resolutions,
    r.met.answer = .ok .external ∧ r.met.reference.specifier = name
  /-- Statements that are resolved to one file have one fate. -/
  consistent : ∀ r ∈ w.resolutions, ∀ r' ∈ w.resolutions, ∀ file file',
    r.file? = some file → r'.file? = some file' → file.components = file'.components →
      SameFate r.met.answer r'.met.answer
  /-- Wherever a recorded file other than the entry is imported, it is inlined. -/
  undeclared : ∀ r ∈ w.resolutions, ∀ file, r.file? = some file →
    file.components ∈ enteredKeys w.survey.events → file.components ≠ w.entry.components →
      r.met.answer = .ok (.inlined file)

section Accounts

variable {w : Start} {m : Manifest} {r r' : Resolution} {source file file' : Path}

theorem statements_eq_filter (es : List Event) (k : FileKey) :
    statements es k = (mets es).filter fun met => met.importer.components = k := by
  unfold statements mets
  rw [List.filter_filterMap]
  congr 1
  funext e
  cases e with
  | entered file found => rfl
  | met met =>
    unfold Event.statementOf? Event.met?
    by_cases hk : met.importer.components = k <;> simp [hk, Option.filter]

/-- The resolutions of a file are those of its import statements. -/
theorem map_met_resolutionsOf (w : Start) (source : Path) :
    (w.resolutionsOf source).map Resolution.met =
      statements w.survey.events source.components := by
  rw [statements_eq_filter, ← map_met_resolutions w.project .empty, List.filter_map]
  rfl

theorem references_eq (hrun : w.run = .ok m) (hsource : source ∈ entries w.survey.events) :
    ∃ loaded, loadFile w.project source = .ok loaded ∧
      (w.resolutionsOf source).map (·.met.reference) = loaded.summary.imports := by
  obtain ⟨found, he⟩ := mem_entries.mp hsource
  obtain ⟨loaded, rfl, hload⟩ := allLoaded_of_run hrun source found he
  refine ⟨loaded, hload, ?_⟩
  have hrefs := (w.survey_answered he).2
  rw [← map_met_resolutionsOf, List.map_map] at hrefs
  exact hrefs

theorem exists_importer (hr : r ∈ w.resolutions) :
    ∃ source ∈ entries w.survey.events, r ∈ w.resolutionsOf source := by
  have hkey := w.survey_adds.orderly.importer r.met (met_of_mem_resolutions hr)
  obtain ⟨source, hsource, hcomponents⟩ := List.mem_map.mp hkey
  refine ⟨source, hsource, List.mem_filter.mpr ⟨hr, ?_⟩⟩
  simpa using hcomponents.symm

/-- Every resolved statement of a walk that succeeds is accounted for. -/
theorem accounted_of_mem (hl : Loadable w.project w.entry) (hrun : w.run = .ok m)
    (hr : r ∈ w.resolutions) : Accounted w m r := by
  have hclosure := closure_of_run hl hrun
  have hmet := met_of_mem_resolutions hr
  have hanswer := w.answer_eq hl hr
  cases hfound : r.met.answer with
  | error f =>
    have hfine := fine_of_run hrun hmet
    rw [Event.failure?, hfound] at hfine
    cases hfine
  | ok found =>
    rw [hfound] at hanswer
    cases found with
    | inlined file =>
      obtain ⟨hfile, -, -⟩ := of_outcome_inlined hanswer.symm
      refine .inlined hfound hfile ?_
      rcases hclosure.traversal.mem_of_target hmet (Met.target?_eq_some_iff.mpr hfound) with hnil | hkey
      · cases hnil
      · exact hkey
    | registry url =>
      obtain ⟨file, hfile, -, hurl⟩ := of_outcome_registry hanswer.symm
      exact .registry hfound hfile hurl (hclosure.mem_registryDependencies_iff.mpr ⟨r, hr, hfound⟩)
    | external =>
      exact .external hfound (hclosure.mem_dependencies_iff.mpr ⟨r, hr, hfound, rfl⟩)
    | workspace =>
      refine .workspace hfound fun before after hevents => ?_
      rw [← manifestOf_without hfound, ← hevents, Start.manifestOf_survey hrun]

theorem consistent_of_mem (hl : Loadable w.project w.entry) (hr : r ∈ w.resolutions)
    (hr' : r' ∈ w.resolutions) (hfile : r.file? = some file) (hfile' : r'.file? = some file')
    (hkey : file.components = file'.components) : SameFate r.met.answer r'.met.answer := by
  rw [w.answer_eq hl hr, w.answer_eq hl hr', hfile, hfile']
  exact sameFate_outcome hkey

/-- A recorded file other than the entry belongs to the project, and no remote registry stands for
it. -/
theorem Closure.owns_of_mem (h : Closure w w.survey.events m) (hl : Loadable w.project w.entry)
    (hsource : source ∈ entries w.survey.events) (hne : source ≠ w.entry) :
    w.project.Owns source ∧ w.project.urlOf? source = none := by
  obtain ⟨met, file, hmet, hanswer, hkey⟩ := h.inlined_of_mem hsource hne
  obtain ⟨r, hr, rfl⟩ := exists_resolution w.project .empty hmet
  obtain ⟨-, howns, hurl⟩ := of_outcome_inlined ((w.answer_eq hl hr).symm.trans hanswer)
  exact ⟨howns.of_components hkey, (Project.urlOf?_congr hkey).symm.trans hurl⟩

/-- So an import of it is inlined. -/
theorem Closure.answer_of_mem (h : Closure w w.survey.events m) (hl : Loadable w.project w.entry)
    (hr : r ∈ w.resolutions) (hfile : r.file? = some file)
    (hmem : file.components ∈ enteredKeys w.survey.events)
    (hne : file.components ≠ w.entry.components) : r.met.answer = .ok (.inlined file) := by
  obtain ⟨source, hsource, hkey⟩ := List.mem_map.mp hmem
  have hother : source ≠ w.entry := by
    rintro rfl
    exact hne hkey.symm
  obtain ⟨howns, hurl⟩ := h.owns_of_mem hl hsource hother
  rw [w.answer_eq hl hr, hfile, outcome_of_owns (howns.of_components hkey),
    ← Project.urlOf?_congr hkey, hurl]
  rfl

end Accounts

/-- **Every import statement is accounted for once, and in one way for each file.** -/
theorem generate_accounts {d : Disk} {config : Config} {entry : Path} {m : Manifest}
    (h : generate d config entry = .ok m) :
    ∃ w, prepare d config entry = .ok w ∧ Accounts w m := by
  obtain ⟨w, hw, hl, hrun, hclosure⟩ := walk_of_generate h
  refine ⟨w, hw, ?_⟩
  exact {
    records := hclosure.files
    once := hclosure.once
    statements := fun source hsource => references_eq hrun hsource
    importers := fun r hr => exists_importer hr
    accounted := fun r hr => accounted_of_mem hl hrun hr
    inlined := by
      intro source hsource hne
      obtain ⟨met, file, hmet, hanswer, hkey⟩ := hclosure.inlined_of_mem hsource hne
      obtain ⟨r, hr, rfl⟩ := exists_resolution w.project .empty hmet
      have hfile := (of_outcome_inlined ((w.answer_eq hl hr).symm.trans hanswer)).1
      exact ⟨r, hr, file, hanswer, hfile, hkey⟩
    redirected := fun url hurl => hclosure.mem_registryDependencies_iff.mp hurl
    declared := fun name hname => hclosure.mem_dependencies_iff.mp hname
    consistent := fun r hr r' hr' file file' hfile hfile' hkey =>
      consistent_of_mem hl hr hr' hfile hfile' hkey
    undeclared := fun r hr file hfile hmem hne => hclosure.answer_of_mem hl hr hfile hmem hne }

/-- A component of a workspace, with an import of each kind. -/
def dialog : Disk where
  nodes := [
    (Disk.locationOf "w", .directory),
    (Disk.locationOf "w/ui", .directory),
    (Disk.locationOf "w/kit", .directory),
    (Disk.locationOf "w/ui/node_modules", .directory),
    (Disk.locationOf "w/ui/node_modules/kit", .link (Path.ofString "../../kit")),
    (Disk.locationOf "w/ui/package.json",
      .file (.text "\x7b\"dependencies\":\x7b\"kit\":\"workspace:*\"\x7d\x7d")),
    (Disk.locationOf "w/ui/dialog.ts",
      .file (.text "import './text';\nimport 'kit';\nimport './button';\nimport 'react';")),
    (Disk.locationOf "w/ui/text.ts", .file (.text "import './icon';")),
    (Disk.locationOf "w/ui/icon.ts", .file (.text "")),
    (Disk.locationOf "w/ui/button.ts", .file (.text "")),
    (Disk.locationOf "w/kit/index.ts", .file (.text ""))]
  workingDirectory := Path.ofString "/"

theorem dialog_accounts : ∃ m w,
    generate dialog cardSettings (Path.ofString "/w/ui/dialog.ts") = .ok m ∧
    prepare dialog cardSettings (Path.ofString "/w/ui/dialog.ts") = .ok w ∧ Accounts w m := by
  have hgen : (generate dialog cardSettings (Path.ofString "/w/ui/dialog.ts")).isOk = true := by
    decide +kernel
  obtain ⟨m, hm⟩ := exists_ok hgen
  obtain ⟨w, hw, haccounts⟩ := generate_accounts hm
  exact ⟨m, w, hm, hw, haccounts⟩

/-! ## Records and redirections -/

/-- **Only the entry can be recorded and redirected as well.**  An import of a recorded file is
redirected exactly if the file is the entry and a remote registry stands for it. -/
theorem generate_redirected_iff {d : Disk} {config : Config} {entry : Path} {m : Manifest}
    (h : generate d config entry = .ok m) :
    ∃ w, prepare d config entry = .ok w ∧
      List.Forall₂ (Records w.project) (entries w.survey.events) m.files ∧
      (∀ url, url ∈ m.registryDependencies ↔
        ∃ r ∈ w.resolutions, r.met.answer = .ok (.registry url)) ∧
      ∀ source ∈ entries w.survey.events, ∀ r ∈ w.resolutions, ∀ target, r.file? = some target →
        target.components = source.components → ∀ url,
          (r.met.answer = .ok (.registry url) ↔
            source = w.entry ∧ w.project.Owns w.entry ∧ w.project.urlOf? w.entry = some url) := by
  obtain ⟨w, hw, hl, -, hclosure⟩ := walk_of_generate h
  refine ⟨w, hw, hclosure.files, fun url => hclosure.mem_registryDependencies_iff, ?_⟩
  intro source hsource r hr target htarget hkey url
  have hanswer := w.answer_eq hl hr
  rw [htarget] at hanswer
  constructor
  · intro hregistry
    obtain ⟨file, hfile, howns, hurl⟩ := of_outcome_registry (hanswer.symm.trans hregistry)
    cases hfile
    have hurl' : w.project.urlOf? source = some url := (Project.urlOf?_congr hkey).symm.trans hurl
    have hentry : source = w.entry := by
      by_contra hne
      rw [(hclosure.owns_of_mem hl hsource hne).2] at hurl'
      cases hurl'
    subst hentry
    exact ⟨rfl, howns.of_components hkey, hurl'⟩
  · rintro ⟨rfl, howns, hurl⟩
    rw [hanswer, outcome_of_owns (howns.of_components hkey.symm), Project.urlOf?_congr hkey, hurl]
    rfl

/-- A button whose icon imports the button again. -/
def iconButton : Disk := .ofTexts [
  ("p/package.json", "\x7b\x7d"),
  ("p/button.ts", "import './icon';"),
  ("p/icon.ts", "import './button';")]

def iconButtonManifest : Manifest where
  name := "button"
  type := some .lib
  dependencies := []
  devDependencies := []
  registryDependencies := ["r/button.json"]
  files := [⟨"button.ts", "import './icon';", .lib⟩, ⟨"icon.ts", "import './button';", .lib⟩]

theorem iconButton_generated :
    generate iconButton cardSettings (Path.ofString "/p/button.ts") = .ok iconButtonManifest := by
  decide +kernel

theorem iconButton_redirected_iff : ∃ w,
    prepare iconButton cardSettings (Path.ofString "/p/button.ts") = .ok w ∧
      List.Forall₂ (Records w.project) (entries w.survey.events) iconButtonManifest.files ∧
      (∀ url, url ∈ iconButtonManifest.registryDependencies ↔
        ∃ r ∈ w.resolutions, r.met.answer = .ok (.registry url)) ∧
      ∀ source ∈ entries w.survey.events, ∀ r ∈ w.resolutions, ∀ target, r.file? = some target →
        target.components = source.components → ∀ url,
          (r.met.answer = .ok (.registry url) ↔
            source = w.entry ∧ w.project.Owns w.entry ∧ w.project.urlOf? w.entry = some url) :=
  generate_redirected_iff iconButton_generated

/-- The button is recorded, and its own address is listed since the icon imports it. -/
theorem iconButton_redirected :
    generate iconButton cardSettings (Path.ofString "/p/button.ts") = .ok iconButtonManifest ∧
    ∃ w, prepare iconButton cardSettings (Path.ofString "/p/button.ts") = .ok w ∧
      ∃ source ∈ entries w.survey.events, ∃ r ∈ w.resolutions, ∃ url,
        r.file? = some source ∧ r.met.answer = .ok (.registry url) ∧
          url ∈ iconButtonManifest.registryDependencies := by
  refine ⟨iconButton_generated, ?_⟩
  obtain ⟨w, hw, hentries, hresolutions⟩ : ∃ w,
      prepare iconButton cardSettings (Path.ofString "/p/button.ts") = .ok w ∧
        entries w.survey.events = ["/p/button.ts", "/p/icon.ts"].map Path.ofString ∧
        w.resolutions.map (fun r => (r.file?, r.met.answer)) =
          [(some (Path.ofString "/p/icon.ts"), .ok (.inlined (Path.ofString "/p/icon.ts"))),
            (some (Path.ofString "/p/button.ts"), .ok (.registry "r/button.json"))] :=
    exists_ok_and (by decide +kernel)
  obtain ⟨r, hr, hfound⟩ := List.mem_map.mp
    (hresolutions ▸ List.mem_cons_of_mem _ (List.mem_singleton_self _))
  obtain ⟨hfile, hanswer⟩ := Prod.mk.inj hfound
  exact ⟨w, hw, _, hentries ▸ List.mem_cons_self .., r, hr, _, hfile, hanswer, by decide⟩

/-! ## Records and packages -/

/-- **What is declared under a name is not what is inlined under it.**  An import statement that is
declared is resolved to nothing or to another file than one of the same specifier that is inlined:
to one that has no record, unless it is the entry.  The two stand in different directories, where
the resolver asks for files only by spellings that a file can have. -/
theorem generate_declared_apart {d : Disk} {config : Config} {entry : Path} {m : Manifest}
    (h : generate d config entry = .ok m) :
    ∃ w, prepare d config entry = .ok w ∧
      List.Forall₂ (Records w.project) (entries w.survey.events) m.files ∧
      (∀ name, name ∈ m.dependencies ↔
        ∃ r ∈ w.resolutions, r.met.answer = .ok .external ∧ r.met.reference.specifier = name) ∧
      ∀ r ∈ w.resolutions, ∀ r' ∈ w.resolutions, ∀ file, r.met.answer = .ok .external →
        r'.met.answer = .ok (.inlined file) →
        r.met.reference.specifier = r'.met.reference.specifier →
          r'.file? = some file ∧
          (∀ target, r.file? = some target → target.components ≠ file.components ∧
            (target.components ∈ enteredKeys w.survey.events →
              target.components = w.entry.components)) ∧
          (Resolver.SpelledAsFiles w.project.disk w.asked →
            ∀ dir, r.met.importer.parent? = some dir → r'.met.importer.parent? ≠ some dir) := by
  obtain ⟨w, hw, hl, -, hclosure⟩ := walk_of_generate h
  refine ⟨w, hw, hclosure.files, fun name => hclosure.mem_dependencies_iff, ?_⟩
  intro r hr r' hr' file hexternal hinlined hname
  have hfile : r'.file? = some file :=
    (of_outcome_inlined ((w.answer_eq hl hr').symm.trans hinlined)).1
  have hother : ∀ target, r.file? = some target → target.components ≠ file.components := by
    intro target htarget hkey
    have hfate := consistent_of_mem hl hr hr' htarget hfile hkey
    rw [hexternal, hinlined] at hfate
    cases hfate with
    | left _ hleft => simp at hleft
  refine ⟨hfile, fun target htarget => ⟨hother target htarget, fun hmem => ?_⟩, ?_⟩
  · by_contra hne
    have hanswer := hclosure.answer_of_mem hl hr htarget hmem hne
    rw [hexternal] at hanswer
    cases hanswer
  · intro hs dir hdir hdir'
    have hsame := w.file?_eq_of_directory hs hr hr' hdir hdir' hname
    exact hother file (hsame.trans hfile) rfl

/-- A project that has installed a theme, and a component of it that is linked to another one. -/
def themed : Disk where
  nodes := [
    (Disk.locationOf "p", .directory),
    (Disk.locationOf "p/ui", .directory),
    (Disk.locationOf "p/theme", .directory),
    (Disk.locationOf "p/node_modules", .directory),
    (Disk.locationOf "p/node_modules/theme", .directory),
    (Disk.locationOf "p/ui/node_modules", .directory),
    (Disk.locationOf "p/ui/node_modules/theme", .link (Path.ofString "../../theme")),
    (Disk.locationOf "p/package.json", .file (.text "\x7b\x7d")),
    (Disk.locationOf "p/page.ts", .file (.text "import './ui/card';\nimport 'theme';")),
    (Disk.locationOf "p/ui/card.ts", .file (.text "import 'theme';")),
    (Disk.locationOf "p/theme/index.ts", .file (.text "")),
    (Disk.locationOf "p/node_modules/theme/index.ts", .file (.text ""))]
  workingDirectory := Path.ofString "/"

def themedManifest : Manifest where
  name := "page"
  type := some .lib
  dependencies := ["theme"]
  devDependencies := []
  registryDependencies := []
  files := [⟨"page.ts", "import './ui/card';\nimport 'theme';", .lib⟩,
    ⟨"ui/card.ts", "import 'theme';", .ui⟩, ⟨"theme/index.ts", "", .lib⟩]

theorem themed_generated :
    generate themed .unset (Path.ofString "/p/page.ts") = .ok themedManifest := by
  decide +kernel

/-- What the walk over the themed project meets. -/
theorem themed_prepared : ∃ w, prepare themed .unset (Path.ofString "/p/page.ts") = .ok w ∧
    Resolver.SpelledAsFiles w.project.disk w.asked ∧
    ∃ r ∈ w.resolutions, ∃ r' ∈ w.resolutions,
      r.met.answer = .ok .external ∧ r'.met.answer = .ok (.inlined (Path.ofString "/p/theme/index.ts")) ∧
      r.met.reference.specifier = "theme" ∧ r'.met.reference.specifier = "theme" ∧
      r.met.importer.parent? = some (Path.ofString "/p") := by
  obtain ⟨w, hw, hspelled, hresolutions⟩ : ∃ w,
      prepare themed .unset (Path.ofString "/p/page.ts") = .ok w ∧
        (∀ q ∈ w.asked, q.EndsInName ∧ Disk.refusal? q = none) ∧
        w.resolutions.map (fun r =>
          (r.met.reference.specifier, r.met.importer.parent?, r.met.answer)) = [
          ("./ui/card", some (Path.ofString "/p"), .ok (.inlined (Path.ofString "/p/ui/card.ts"))),
          ("theme", some (Path.ofString "/p/ui"), .ok (.inlined (Path.ofString "/p/theme/index.ts"))),
          ("theme", some (Path.ofString "/p"), .ok .external)] :=
    exists_ok_and (by decide +kernel)
  refine ⟨w, hw, Resolver.spelledAsFiles_of_all hspelled, ?_⟩
  obtain ⟨r, hr, hfound⟩ := List.mem_map.mp (hresolutions ▸
    List.mem_cons_of_mem _ (List.mem_cons_of_mem _ (List.mem_singleton_self _)))
  obtain ⟨r', hr', hfound'⟩ := List.mem_map.mp (hresolutions ▸
    List.mem_cons_of_mem _ (List.mem_cons_self ..))
  simp only [Prod.mk.injEq] at hfound hfound'
  exact ⟨r, hr, r', hr', hfound.2.2, hfound'.2.2, hfound.1, hfound'.1, hfound.2.1⟩

theorem themed_declared_apart : ∃ w, prepare themed .unset (Path.ofString "/p/page.ts") = .ok w ∧
    ∃ r ∈ w.resolutions, ∃ r' ∈ w.resolutions, ∃ file, r.met.answer = .ok .external ∧
      r'.met.answer = .ok (.inlined file) ∧ r'.file? = some file ∧
      (∀ target, r.file? = some target → target.components ≠ file.components ∧
        (target.components ∈ enteredKeys w.survey.events →
          target.components = w.entry.components)) ∧
      r'.met.importer.parent? ≠ some (Path.ofString "/p") := by
  obtain ⟨w, hw, hspelled, r, hr, r', hr', hexternal, hinlined, hname, hname', hdir⟩ := themed_prepared
  obtain ⟨w', hw', -, -, happart⟩ := generate_declared_apart themed_generated
  obtain rfl : w = w' := Except.ok.inj (hw.symm.trans hw')
  obtain ⟨hfile, htarget, hdirs⟩ :=
    happart r hr r' hr' _ hexternal hinlined (hname.trans hname'.symm)
  exact ⟨w, hw, r, hr, r', hr', _, hexternal, hinlined, hfile, htarget, hdirs hspelled _ hdir⟩

/-- The name of the installed theme is declared, and the other theme is inlined under it. -/
theorem themed_both :
    generate themed .unset (Path.ofString "/p/page.ts") = .ok themedManifest ∧
    ∃ w, prepare themed .unset (Path.ofString "/p/page.ts") = .ok w ∧
      ∃ name ∈ themedManifest.dependencies, ∃ r ∈ w.resolutions, ∃ file,
        r.met.reference.specifier = name ∧ r.met.answer = .ok (.inlined file) := by
  obtain ⟨w, hw, -, -, -, r', hr', -, hinlined, -, hname', -⟩ := themed_prepared
  exact ⟨themed_generated, w, hw, "theme", by decide, r', hr', _, hname', hinlined⟩

end ComponentRegistry.Walk
