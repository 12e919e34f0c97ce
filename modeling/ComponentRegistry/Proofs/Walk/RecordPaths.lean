import ComponentRegistry.Proofs.Disk.Canonical
import ComponentRegistry.Proofs.Walk.Contents

/-!
# The paths of records

Under a configured directory a record is named by the file name of its source alone, so two records
have one path where two sources have one file name (`generate_paths_under`).  Without one it is
named by what follows the project root in the path of its source: names with slashes between them,
which joined to the root give the source again (`generate_paths_below`).
-/

namespace ComponentRegistry

namespace Path

/-! ## Under a directory -/

theorem joinForward_injective (dir : String) : Function.Injective (joinForward dir) := by
  intro s t h
  simp only [joinForward] at h
  split_ifs at h
  · exact h
  · have hchars := congrArg String.toList h
    simp only [String.toList_ofList, List.append_cancel_left_eq, List.cons.injEq, true_and] at hchars
    exact String.toList_inj.mp hchars

/-! ## Behind the root -/

/-- What is recorded of a relative path whose names all lead down. -/
theorem forwardSlashes_eq {p : Path} (h : p.isAbsolute = false) (hup : dotDot ∉ p.names) :
    p.forwardSlashes = "/".intercalate (p.names.map Text.shown) := by
  have hstart : p.parts.1.components.filterMap Component.recorded? = [] := by
    cases hp : p.parts.1 with
    | root => simp [isAbsolute, hp] at h
    | current => rfl
    | none => rfl
  unfold forwardSlashes
  rw [components_eq, List.filterMap_append, hstart, List.nil_append]
  congr 1
  generalize p.names = names at hup
  induction names with
  | nil => rfl
  | cons s names ih =>
    obtain ⟨hs, hrest⟩ := not_or.mp (mt List.mem_cons.mpr hup)
    have hname : Component.ofName s = .normal s := if_neg (Ne.symm hs)
    rw [List.map_cons, List.filterMap_cons, hname, ih hrest]
    rfl

end Path

namespace Disk

variable {rest : Location}

/-- The recorded text of proper names, as a path. -/
theorem ofString_intercalate (htext : ∀ s ∈ rest, (Text.text? s).isSome) :
    Path.ofString ("/".intercalate (rest.map Text.shown)) =
      ⟨Text.joinWith Path.separator rest⟩ := by
  have hnames : (rest.map fun s => Text.ofChars (Text.shown s).toList) = rest := by
    conv_rhs => rw [← List.map_id rest]
    exact List.map_congr_left fun s hs => Text.ofChars_shown (htext s hs)
  have hslash : "/".toList = ['/'] := rfl
  unfold Path.ofString
  rw [String.toList_intercalate, hslash, Text.intercalate_eq_joinWith]
  unfold Text.ofChars
  rw [Text.map_joinWith, List.map_map, List.map_map]
  congr 2

/-- Between the slashes of the recorded text are the names. -/
theorem splitAt_intercalate (hne : rest ≠ []) (hproper : ∀ s ∈ rest, Proper s)
    (htext : ∀ s ∈ rest, (Text.text? s).isSome) :
    Text.splitAt '/' ("/".intercalate (rest.map Text.shown)).toList =
      rest.map fun s => (Text.shown s).toList := by
  have hslash : "/".toList = ['/'] := rfl
  rw [String.toList_intercalate, hslash, Text.intercalate_eq_joinWith, List.map_map]
  refine Text.splitAt_joinWith (by simpa using hne) fun cs hcs => ?_
  obtain ⟨s, hs, rfl⟩ := List.mem_map.mp hcs
  intro hmem
  refine (hproper s hs).free ?_
  rw [← Text.ofChars_shown (htext s hs)]
  exact List.mem_map_of_mem hmem

end Disk

namespace Walk

variable {d : Disk} {config : Config} {entry file dir root : Path} {m : Manifest} {p : Project}

/-- The records stand for the sources in order. -/
theorem map_path_eq {sources : List Path} {files : List RegistryFile}
    (h : List.Forall₂ (Records p) sources files) :
    files.map RegistryFile.path = sources.map (recordPath p) := by
  induction h with
  | nil => rfl
  | cons hrec _ ih => rw [List.map_cons, List.map_cons, hrec.path, ih]

theorem exists_record {source : Path} {sources : List Path} {files : List RegistryFile}
    (h : List.Forall₂ (Records p) sources files) (hsource : source ∈ sources) :
    ∃ f, Records p source f := by
  induction h with
  | nil => cases hsource
  | cons hrec _ ih =>
    rcases List.mem_cons.mp hsource with rfl | hsource
    · exact ⟨_, hrec⟩
    · exact ih hsource

/-! ## Under a configured directory -/

theorem recordPath_under {under : String} (h : p.config.basePath? = some under) (source : Path) :
    recordPath p source = Path.joinForward under source.fileNameShown := by
  unfold recordPath
  rw [h]

/-- Only files whose name is text are classified. -/
theorem fileName_of_classify {source root : Path} {summary : Option SourceSummary} {t : RegistryType}
    (h : Classification.classify source root summary = .ok t) :
    ∃ name, source.fileName? = some name ∧ (Text.text? name).isSome := by
  cases hnamed : Classification.nameOf source with
  | error f => simp [Classification.classify, hnamed, bind, Except.bind] at h
  | ok found =>
    unfold Classification.nameOf at hnamed
    cases hname : source.fileName? with
    | none => rw [hname] at hnamed; cases hnamed
    | some name =>
      cases htext : Text.text? name with
      | none => simp [hname, htext] at hnamed
      | some text => exact ⟨name, rfl, by rw [htext]; rfl⟩

theorem shown_injective {s t : Name} (hs : (Text.text? s).isSome) (ht : (Text.text? t).isSome)
    (h : Text.shown s = Text.shown t) : s = t := by
  rw [← Text.ofChars_shown hs, ← Text.ofChars_shown ht, h]

/-- **Under a configured directory the file name decides**: two records have one path exactly if
their sources have one file name. -/
theorem generate_paths_under {under : String} (hunder : config.basePath? = some under)
    (h : generate d config entry = .ok m) :
    ∃ w, prepare d config entry = .ok w ∧
      List.Forall₂ (Records w.project) (entries w.survey.events) m.files ∧
      (enteredKeys w.survey.events).Nodup ∧
      m.files.map RegistryFile.path = (entries w.survey.events).map (fun source =>
        Path.joinForward under source.fileNameShown) ∧
      (∀ source ∈ entries w.survey.events, ∀ other ∈ entries w.survey.events,
        recordPath w.project source = recordPath w.project other ↔
          source.fileName? = other.fileName?) ∧
      ((m.files.map RegistryFile.path).Nodup ↔
        ((entries w.survey.events).map Path.fileName?).Nodup) := by
  obtain ⟨-, w, hw, hrun⟩ := generate_eq_ok_iff.mp h
  have hclosure := closure_of_run (loadable_of_prepare hw) hrun
  obtain ⟨-, hconfig, -⟩ := of_prepare hw
  have hpath := recordPath_under (p := w.project) (hconfig ▸ hunder)
  have hname : ∀ source ∈ entries w.survey.events,
      ∃ name, source.fileName? = some name ∧ (Text.text? name).isSome := by
    intro source hsource
    obtain ⟨f, hrec⟩ := exists_record hclosure.files hsource
    obtain ⟨summary, -, hclass⟩ := hrec.type
    exact fileName_of_classify hclass
  have hiff : ∀ source ∈ entries w.survey.events, ∀ other ∈ entries w.survey.events,
      recordPath w.project source = recordPath w.project other ↔
        source.fileName? = other.fileName? := by
    intro source hsource other hother
    obtain ⟨name, hfile, htext⟩ := hname source hsource
    obtain ⟨name', hfile', htext'⟩ := hname other hother
    rw [hpath, hpath, (Path.joinForward_injective under).eq_iff]
    unfold Path.fileNameShown
    rw [hfile, hfile', Option.some_inj]
    exact ⟨shown_injective htext htext', congrArg Text.shown⟩
  refine ⟨w, hw, hclosure.files, hclosure.once, ?_, hiff, ?_⟩
  · rw [map_path_eq hclosure.files]
    exact List.map_congr_left fun source _ => hpath source
  · rw [map_path_eq hclosure.files]
    unfold List.Nodup
    rw [List.pairwise_map, List.pairwise_map]
    exact List.Pairwise.iff_of_mem fun hsource hother => not_congr (hiff _ hsource _ hother)

/-- A component that imports two modules of one name. -/
def twins : Disk := .ofTexts [
  ("p/package.json", "\x7b\x7d"),
  ("p/card.js", "import './a/index';\nimport './b/index';"),
  ("p/a/index.js", "a"),
  ("p/b/index.js", "b")]

def underUi : Config := { Config.unset with basePathField := some "components/ui" }

def twinsManifest : Manifest where
  name := "card"
  type := some .lib
  dependencies := []
  devDependencies := []
  registryDependencies := []
  files := [
    ⟨"components/ui/card.js", "import './a/index';\nimport './b/index';", .lib⟩,
    ⟨"components/ui/index.js", "a", .lib⟩,
    ⟨"components/ui/index.js", "b", .lib⟩]

theorem twins_generated :
    generate twins underUi (Path.ofString "/p/card.js") = .ok twinsManifest := by
  decide +kernel

theorem twins_paths : ∃ w, prepare twins underUi (Path.ofString "/p/card.js") = .ok w ∧
    List.Forall₂ (Records w.project) (entries w.survey.events) twinsManifest.files ∧
    (enteredKeys w.survey.events).Nodup ∧
    twinsManifest.files.map RegistryFile.path = (entries w.survey.events).map (fun source =>
      Path.joinForward "components/ui" source.fileNameShown) ∧
    (∀ source ∈ entries w.survey.events, ∀ other ∈ entries w.survey.events,
      recordPath w.project source = recordPath w.project other ↔
        source.fileName? = other.fileName?) ∧
    ((twinsManifest.files.map RegistryFile.path).Nodup ↔
      ((entries w.survey.events).map Path.fileName?).Nodup) :=
  generate_paths_under (by decide) twins_generated

/-- Two sources are recorded under one path. -/
theorem twins_collide : underUi.basePath? = some "components/ui" ∧
    generate twins underUi (Path.ofString "/p/card.js") = .ok twinsManifest ∧
    (∃ w, prepare twins underUi (Path.ofString "/p/card.js") = .ok w ∧
      entries w.survey.events =
        ["/p/card.js", "/p/a/index.js", "/p/b/index.js"].map Path.ofString) ∧
    ¬ (twinsManifest.files.map RegistryFile.path).Nodup := by
  refine ⟨by decide, twins_generated, ?_, by decide⟩
  have hentries : (prepare twins underUi (Path.ofString "/p/card.js")).toOption.map
      (fun w => entries w.survey.events) =
        some (["/p/card.js", "/p/a/index.js", "/p/b/index.js"].map Path.ofString) := by
    decide +kernel
  obtain ⟨w, hw, hsources⟩ := Option.map_eq_some_iff.mp hentries
  cases hprepare : prepare twins underUi (Path.ofString "/p/card.js") with
  | error f => rw [hprepare] at hw; cases hw
  | ok w' =>
    rw [hprepare] at hw
    cases hw
    exact ⟨w, rfl, hsources⟩

/-! ## Behind the root -/

/-- Where a package description stands above the entry, there is the root of the project. -/
theorem root_of_prepare {w : Start} (hentry : d.canonical entry = .ok file)
    (hdir : file.parent? = some dir) (hroot : d.ancestorWith? dir Package.fileName = some root)
    (hcanonical : d.canonical root = .ok root) (h : prepare d config entry = .ok w) :
    w.project.root = root := by
  have hproject : projectRoot d (file.parent?.getD file) = .ok root := by
    unfold projectRoot
    rw [hdir, Option.getD_some, hroot, Option.getD_some]
    dsimp only
    rw [hcanonical]
  obtain ⟨file', root', hfile, hroot', rfl⟩ := prepare_eq_ok_iff.mp h
  obtain rfl : file = file' := Except.ok.inj (hentry.symm.trans hfile)
  exact Except.ok.inj (hroot'.symm.trans hproject)

/-- What is taken up behind the entry belongs to the project. -/
theorem Closure.startsWith_root {w : Start} {es : List Event} (h : Closure w es m)
    (hentry : w.entry.startsWith w.project.root = true) {source : Path}
    (hsource : source ∈ entries es) : source.startsWith w.project.root = true := by
  by_cases hsame : source = w.entry
  · rw [hsame]
    exact hentry
  · obtain ⟨met, target, hmet, hinlined, hkey⟩ := h.inlined_of_mem hsource hsame
    obtain ⟨c, hanswer⟩ := h.traversal.resolved hmet
    have hin := (outcome_eq_inlined_iff.mp (hanswer.symm.trans hinlined)).2.2.1
    unfold Path.startsWith at hin ⊢
    rw [← hkey]
    exact hin

/-- The record of a source leads to it from the root, by names alone. -/
structure Below (root source : Path) (f : RegistryFile) : Prop where
  inside : source.startsWith root = true
  nonempty : f.path ≠ ""
  plain : ∀ s ∈ Text.splitAt '/' f.path.toList, s ≠ [] ∧ s ≠ ['.'] ∧ s ≠ ['.', '.']
  joined : root / f.path = source

theorem map_joined {sources : List Path} {files : List RegistryFile}
    (h : List.Forall₂ (Below root) sources files) :
    files.map (fun f => root / f.path) = sources := by
  induction h with
  | nil => rfl
  | cons hbelow _ ih => rw [List.map_cons, hbelow.joined, ih]

/-- What is recorded of a place behind the root: its names with slashes between them. -/
theorem recordPath_behind {r rest : Location} (hnone : p.config.basePath? = none)
    (hroot : p.root = Disk.pathOf r) (hproper : ∀ s ∈ r ++ rest, Disk.Proper s)
    (hinside : (Disk.pathOf (r ++ rest)).startsWith (Disk.pathOf r) = true) :
    recordPath p (Disk.pathOf (r ++ rest)) = "/".intercalate (rest.map Text.shown) := by
  have hr : ∀ s ∈ r, Disk.Proper s := fun s hs => hproper s (List.mem_append_left _ hs)
  obtain ⟨hrelative, hnames, -⟩ := Path.of_stripStart hinside (Path.components_ne_nil rfl)
  rw [(Disk.of_pathOf hproper).2, (Disk.of_pathOf hr).2, List.append_cancel_left_eq] at hnames
  have hup : Path.dotDot ∉ rest := fun h => (hproper _ (List.mem_append_right _ h)).notUp rfl
  unfold recordPath
  rw [hnone, hroot]
  show (Path.relative _ _).forwardSlashes = _
  rw [Path.forwardSlashes_eq hrelative (hnames ▸ hup), ← hnames]

/-- A source other than the root is recorded below it. -/
theorem below_of_places {r l : Location} {f : RegistryFile} (hnone : p.config.basePath? = none)
    (hroot : p.root = Disk.pathOf r) (hr : ∀ s ∈ r, Disk.Proper s) (hl : ∀ s ∈ l, Disk.Proper s)
    (htext : ∀ s ∈ l, (Text.text? s).isSome) (hne : r ≠ l)
    (hinside : (Disk.pathOf l).startsWith (Disk.pathOf r) = true)
    (hpath : f.path = recordPath p (Disk.pathOf l)) : Below (Disk.pathOf r) (Disk.pathOf l) f := by
  obtain ⟨rest, rfl⟩ := (Disk.startsWith_pathOf_iff hl hr).mp hinside
  have hrest : ∀ s ∈ rest, Disk.Proper s := fun s hs => hl s (List.mem_append_right _ hs)
  have hresttext : ∀ s ∈ rest, (Text.text? s).isSome :=
    fun s hs => htext s (List.mem_append_right _ hs)
  have hrestne : rest ≠ [] := by
    rintro rfl
    exact hne (List.append_nil r).symm
  rw [recordPath_behind hnone hroot hl hinside] at hpath
  have hpieces := Disk.splitAt_intercalate hrestne hrest hresttext
  rw [← hpath] at hpieces
  have hplain : ∀ cs ∈ Text.splitAt '/' f.path.toList, cs ≠ [] ∧ cs ≠ ['.'] ∧ cs ≠ ['.', '.'] := by
    intro cs hcs
    rw [hpieces] at hcs
    obtain ⟨s, hs, rfl⟩ := List.mem_map.mp hcs
    -- what is shown of the name would be the name
    have hname := Text.ofChars_shown (hresttext s hs)
    have hproper := hrest s hs
    refine ⟨fun h => hproper.ne_nil ?_, fun h => ?_, fun h => hproper.notUp ?_⟩
    · rw [← hname, h]; rfl
    · have hdot : s = Path.dot := by rw [← hname, h]; rfl
      have hstep := hproper.isStep
      rw [hdot, Path.isStep_dot] at hstep
      cases hstep
    · rw [← hname, h]; rfl
  refine ⟨hinside, ?_, hplain, ?_⟩
  · intro hempty
    rw [hempty] at hplain
    exact (hplain [] (List.mem_singleton_self _)).1 rfl
  · show (Disk.pathOf r).join (Path.ofString f.path) = _
    rw [hpath, Disk.ofString_intercalate hresttext, Disk.join_behind hr hrest hrestne]

/-- **Without a configured directory every record leads from the root to its source**, so no two
records have one path. -/
theorem generate_paths_below (htext : ∀ l ∈ d.locations, ∀ s ∈ l, (Text.text? s).isSome)
    (hnone : config.basePath? = none) (hentry : d.canonical entry = .ok file)
    (hdir : file.parent? = some dir) (hroot : d.ancestorWith? dir Package.fileName = some root)
    (h : generate d config entry = .ok m) :
    ∃ w, prepare d config entry = .ok w ∧
      List.Forall₂ (fun source f => Records w.project source f ∧ Below root source f)
        (entries w.survey.events) m.files ∧
      (m.files.map RegistryFile.path).Nodup := by
  obtain ⟨-, w, hw, hrun⟩ := generate_eq_ok_iff.mp h
  have hclosure := closure_of_run (loadable_of_prepare hw) hrun
  obtain ⟨hdisk, hconfig, hentry'⟩ := of_prepare hw
  obtain rfl : file = w.entry := Except.ok.inj (hentry.symm.trans hentry')
  -- the entry is a place below the root
  obtain ⟨e, -, hplace, hstanding, hproper⟩ := Disk.of_canonical hentry
  have hne : e ≠ [] := by
    rintro rfl
    rw [hplace] at hdir
    cases hdir
  rw [hplace] at hdir
  obtain ⟨r, habove, rfl, hdirectory, hlocate⟩ :=
    Disk.of_ancestorWith? hstanding hproper hne (by decide) hdir hroot
  have hr : ∀ s ∈ r, Disk.Proper s := fun s hs => hproper s (habove.subset hs)
  have hcanonical : d.canonical (Disk.pathOf r) = .ok (Disk.pathOf r) := by
    unfold Disk.canonical
    rw [hlocate]
    rfl
  have hwroot : w.project.root = Disk.pathOf r :=
    root_of_prepare hentry (hplace ▸ hdir) hroot hcanonical hw
  have hinside : w.entry.startsWith w.project.root = true := by
    rw [hwroot, hplace]
    exact (Disk.startsWith_pathOf_iff hproper hr).mpr habove
  have hfiles : List.Forall₂ (fun source f => Records w.project source f ∧
      Below (Disk.pathOf r) source f) (entries w.survey.events) m.files := by
    refine List.forall₂_iff_zip.mpr ⟨hclosure.files.length_eq, fun {source f} hmem => ?_⟩
    have hrec : Records w.project source f := List.forall₂_zip hclosure.files hmem
    have hsource := (List.of_mem_zip hmem).1
    obtain ⟨path, hpath⟩ := hclosure.canonical source hsource
    obtain ⟨l, -, rfl, hstands, hl⟩ := Disk.of_canonical hpath
    have hstarts := hclosure.startsWith_root hinside hsource
    rw [hwroot] at hstarts
    refine ⟨hrec, below_of_places (hconfig ▸ hnone) hwroot hr hl ?_ ?_ hstarts hrec.path⟩
    · intro s hs
      obtain ⟨n, hn, -⟩ := hstands.here
      exact htext l (hdisk ▸ Disk.mem_locations_of_node? (List.ne_nil_of_mem hs) hn) s hs
    · -- what is read is a file, and the root is a directory
      rintro rfl
      have hread := hrec.content
      unfold Disk.readText Disk.stat at hread
      simp [hdisk, hlocate, hdirectory] at hread
  refine ⟨w, hw, hfiles, List.Nodup.of_map (Disk.pathOf r / ·) ?_⟩
  rw [List.map_map]
  show (m.files.map fun f => Disk.pathOf r / f.path).Nodup
  rw [map_joined (hfiles.imp fun _ _ hboth => hboth.2)]
  exact List.Nodup.of_map Path.components hclosure.once

/-- A component below the root that imports a module beside its directory, over a link. -/
def panel : Disk where
  nodes := [
    (Disk.locationOf "p", .directory),
    (Disk.locationOf "p/src", .directory),
    (Disk.locationOf "p/shared", .directory),
    (Disk.locationOf "p/package.json", .file (.text "\x7b\x7d")),
    (Disk.locationOf "p/src/panel.js", .file (.text "import './text';")),
    (Disk.locationOf "p/src/text.js", .link (Path.ofString "../shared/text.js")),
    (Disk.locationOf "p/shared/text.js", .file (.text ""))]
  workingDirectory := Path.ofString "/"

def panelManifest : Manifest where
  name := "panel"
  type := some .lib
  dependencies := []
  devDependencies := []
  registryDependencies := []
  files := [⟨"src/panel.js", "import './text';", .lib⟩, ⟨"shared/text.js", "", .lib⟩]

theorem panel_paths : ∃ w, prepare panel .unset (Path.ofString "/p/src/panel.js") = .ok w ∧
    List.Forall₂ (fun source f => Records w.project source f ∧ Below (Path.ofString "/p") source f)
      (entries w.survey.events) panelManifest.files ∧
    (panelManifest.files.map RegistryFile.path).Nodup := by
  have hentry : panel.canonical (Path.ofString "/p/src/panel.js") =
      .ok (Path.ofString "/p/src/panel.js") := by decide +kernel
  have hdir : (Path.ofString "/p/src/panel.js").parent? = some (Path.ofString "/p/src") := by
    decide +kernel
  have hroot : panel.ancestorWith? (Path.ofString "/p/src") Package.fileName =
      some (Path.ofString "/p") := by decide +kernel
  have hgenerated : generate panel .unset (Path.ofString "/p/src/panel.js") = .ok panelManifest := by
    decide +kernel
  exact generate_paths_below (by decide +kernel) (by decide) hentry hdir hroot hgenerated

end Walk

end ComponentRegistry
