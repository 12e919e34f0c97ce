import ComponentRegistry.Proofs.Disk.Spelling
import ComponentRegistry.Proofs.Generate.Independence
import ComponentRegistry.Proofs.Generate.Listing
import Mathlib.Data.List.Nodup

/-!
# Components on their own

A component of a directory fares like the input of a run of its own.  Both runs walk it on the same
disk if manifests are handed back, and neither looks at the other components.  What differs is who
asks first whether the file is there: a run over a file asks it of its options.  The two can only
tell this apart where the path of the component is too long for the file system, although the one
of the directory is not.
-/

namespace ComponentRegistry

namespace Disk

theorem not_has_of_refused {d : Disk} {p : Path} (h : refusal? p ≠ none) : d.has p = false := by
  unfold has stat locate
  cases hr : refusal? p with
  | none => exact absurd hr h
  | some e => rfl

/-- What a directory lists stands in it. -/
theorem Listed.node?_of_mem_entries {d : Disk} (h : d.Listed) {place : Location} {name : Name}
    {n : Node} (hmem : (name, n) ∈ d.entries place) : d.node? (place ++ [name]) = some n := by
  obtain ⟨⟨l, n'⟩, he, hentry⟩ := List.mem_filterMap.mp hmem
  obtain rfl : l = place ++ [name] := place_of_entry (e := (l, n')) hentry
  obtain rfl : n' = n := by simpa using hentry
  have hfind : d.nodes.find? (fun e => e.1 = place ++ [name]) = some (place ++ [name], n') := by
    cases hfound : d.nodes.find? (fun e => e.1 = place ++ [name]) with
    | none => simpa using List.find?_eq_none.mp hfound _ he
    | some e =>
      have hsame : e.1 = place ++ [name] := by simpa using List.find?_some hfound
      rw [List.inj_on_of_nodup_map h.once (List.mem_of_find?_eq_some hfound) he hsame]
  rw [node?_of_ne_nil d (by simp), hfind, Option.map_some]

end Disk

namespace Generate

variable {d : Disk} {config : Config} {dir : Path} {o : Options} {schedule : Nat → List Nat}
  {files : List Path} {f : Path}

/-- The components of a directory are the files that it lists by the name of one. -/
theorem mem_listComponents_iff {place : Location} (hl : d.locate dir = .ok place)
    (h : listComponents d dir = .ok files) : f ∈ files ↔
      ∃ name content, (name, .file content) ∈ d.entries place ∧ f = dir.child name ∧
        isComponent f = true := by
  unfold listComponents at h
  rw [hl] at h
  cases h
  rw [(List.mergeSort_perm _ _).mem_iff, List.mem_filter, List.mem_filterMap]
  constructor
  · rintro ⟨⟨⟨name, n⟩, hmem, hfile⟩, hcomponent⟩
    cases n with
    | directory | link target => cases hfile
    | file content => exact ⟨name, content, hmem, (Option.some.inj hfile).symm, hcomponent⟩
  · rintro ⟨name, content, hmem, rfl, hcomponent⟩
    exact ⟨⟨_, hmem, rfl⟩, hcomponent⟩

/-- A component of a directory stands in it as a file by a proper name. -/
theorem of_mem_listComponents (hd : d.Listed) (h : listComponents d dir = .ok files) (hf : f ∈ files) :
    ∃ place name content, d.locate dir = .ok place ∧ f = dir.child name ∧ Disk.Proper name ∧
      d.node? (place ++ [name]) = some (.file content) ∧ isComponent f = true := by
  cases hl : d.locate dir with
  | error e =>
    unfold listComponents at h
    rw [hl] at h
    cases h
  | ok place =>
    obtain ⟨name, content, hmem, rfl, hcomponent⟩ := (mem_listComponents_iff hl h).mp hf
    exact ⟨place, name, content, rfl, rfl, hd.proper hmem, hd.node?_of_mem_entries hmem, hcomponent⟩

/-- A component of a directory is a file on the disk, unless its path is refused. -/
theorem isFile_of_mem_listComponents (hd : d.Listed) (hdir : d.isDirectory dir = true)
    (h : listComponents d dir = .ok files) (hf : f ∈ files) (hr : Disk.refusal? f = none) :
    d.isFile f = true := by
  obtain ⟨place, name, content, hl, rfl, hname, hn, -⟩ := of_mem_listComponents hd h hf
  obtain ⟨place', hl', hplace⟩ := Disk.of_isDirectory hdir
  obtain rfl : place = place' := Except.ok.inj (hl.symm.trans hl')
  have hleads : d.locate (dir.join (Path.ofName name)) = .ok (place ++ [name]) :=
    Disk.locate_in_directory hl hplace hname hr hn (by simp)
  exact Disk.isFile_iff.mpr ⟨_, content, hleads, hn⟩

theorem isAbsolute_of_mem_listComponents (hd : d.Listed) (hdir : dir.isAbsolute = true)
    (h : listComponents d dir = .ok files) (hf : f ∈ files) : f.isAbsolute = true := by
  obtain ⟨place, name, content, -, rfl, -⟩ := of_mem_listComponents hd h hf
  exact Path.isAbsolute_join_base _ hdir

/-- The options of a run over one file, whose manifest is handed back. -/
def Options.alone (f : Path) (jobs : Option Nat) : Options where
  name := none
  input := f
  rawJson := true
  jobs := jobs

/-- What becomes of a component whose manifest is handed back. -/
def handedBack (d : Disk) (config : Config) (f : Path) : Except Failure Generated :=
  (Walk.generate d config f).map fun m => ⟨f, m, none⟩

theorem source_of_handedBack {g : Generated} (h : handedBack d config f = .ok g) : g.source = f := by
  unfold handedBack at h
  cases hwalk : Walk.generate d config f with
  | error e => rw [hwalk] at h; cases h
  | ok m => rw [hwalk] at h; cases h; rfl

theorem handedBack_of_not_has (config : Config) (h : d.has f = false) :
    handedBack d config f = .error (.entryNotFound f) := by
  simp [handedBack, Walk.generate, h, Except.map]

theorem told_of_rawJson {s : Setting} (hraw : s.rawJson = true) (t : Task) (m : Manifest) :
    told s t m = ⟨t.file, m, none⟩ := by
  unfold told
  rw [if_pos hraw]

theorem generateOne_of_rawJson {s : Setting} (hraw : s.rawJson = true) (t : Task) (d : Disk) :
    generateOne s t d = (handedBack d s.config t.file, d) := by
  unfold generateOne handedBack
  cases Walk.generate d s.config t.file with
  | error e => rfl
  | ok m => exact (keep_of_rawJson hraw).trans (by rw [told_of_rawJson hraw]; rfl)

/-! ## A run over one file -/

theorem validate_alone (hf : f.isAbsolute = true) (hfile : d.isFile f = true)
    (hcomponent : isComponent f = true) (jobs : Option Nat) :
    (Options.alone f jobs).validate d dir = .ok () := by
  obtain ⟨l, content, hl, hn⟩ := Disk.isFile_iff.mp hfile
  have hhas : d.has f = true := by simp [Disk.has, Disk.stat, hl, hn, Except.isOk, Except.toBool]
  simp [Options.validate, Options.alone, Path.join_of_isAbsolute dir hf, hhas, hcomponent]

theorem isDirectory_of_isFile (h : d.isFile f = true) : d.isDirectory f = false := by
  obtain ⟨l, content, hl, hn⟩ := Disk.isFile_iff.mp h
  simp [Disk.isDirectory, Disk.stat, hl, hn]

/-- A run over a file that hands its manifest back does what the walk of the file does. -/
theorem result_alone (hf : f.isAbsolute = true) (hfile : d.isFile f = true)
    (hcomponent : isComponent f = true) (jobs : Option Nat) :
    (runScheduled schedule d config dir (.alone f jobs)).result =
      (handedBack d config f).map fun g => ⟨.file, [g], []⟩ := by
  have hinput : dir.join (Options.alone f jobs).input = f := Path.join_of_isAbsolute dir hf
  have hdirectory : d.isDirectory (dir.join (Options.alone f jobs).input) = false := by
    rw [hinput]
    exact isDirectory_of_isFile hfile
  have hone : generateOne (fileSetting config dir (.alone f jobs)) (fileTask dir (.alone f jobs)) d =
      (handedBack d config f, d) := by
    rw [generateOne_of_rawJson rfl, show (fileTask dir (.alone f jobs)).file = f from hinput]
    rfl
  rw [runScheduled_file (validate_alone hf hfile hcomponent jobs) hdirectory, runFile_eq, hone]
  cases handedBack d config f <;> rfl

/-- A file with a path that is too long is refused before it is walked. -/
theorem result_alone_of_refused (hf : f.isAbsolute = true) (hrefused : Disk.refusal? f ≠ none)
    (jobs : Option Nat) : (runScheduled schedule d config dir (.alone f jobs)).result =
      .error (.invalidOption s!"Path must exist: {f.shown}") := by
  have hvalid : (Options.alone f jobs).validate d dir =
      .error (.invalidOption s!"Path must exist: {f.shown}") := by
    simp [Options.validate, Options.alone, Path.join_of_isAbsolute dir hf,
      Disk.not_has_of_refused hrefused]
  simp only [runScheduled, hvalid]

/-! ## A run over the directory -/

/-- Without saving all components are walked on one disk. -/
theorem reportedOf_of_rawJson {s : Setting} (hraw : s.rawJson = true) (d : Disk) (tasks : List Task)
    (σ : List Nat) (i : Nat) (t : Task) :
    reportedOf s d tasks σ i t = handedBack d s.config t.file := by
  have hwalk : walkDisk s (Batch.start d tasks) σ i = d :=
    (((Batch.start d tasks).chain_saves s _).of_rawJson hraw).2
  unfold reportedOf handedBack
  rw [hwalk]
  exact congrArg (Except.map · _) (funext (told_of_rawJson hraw t))

/-- A run over a directory that hands manifests back reports what the walks of its components do. -/
theorem report_of_rawJson (config : Config) (hvalid : o.validate d dir = .ok ())
    (hdir : d.isDirectory (dir.join o.input) = true) (hraw : o.rawJson = true)
    (hfair : ∀ count, Fair count (schedule count)) :
    ∃ r files, (runScheduled schedule d config dir o).result = .ok r ∧
      listComponents d (dir.join o.input) = .ok files ∧
      (∀ g, g ∈ r.generated ↔ ∃ f ∈ files, handedBack d config f = .ok g) ∧
      ∀ f e, ⟨f, e⟩ ∈ r.failures ↔ f ∈ files ∧ handedBack d config f = .error e := by
  obtain ⟨files, hfiles⟩ := listComponents_of_isDirectory hdir
  have htasks : directoryTasks d dir o =
      files.map fun file => ⟨file, outputNameOf file.fileNameShown⟩ := by
    unfold directoryTasks
    rw [hfiles]
    rfl
  have hsetting : (directorySetting config dir o).rawJson = true := hraw
  have hkept := (((directoryBatch d dir o).chain_saves (directorySetting config dir o)
    (schedule (directoryTasks d dir o).length)).of_rawJson hsetting).1
  have hwork (i : Nat) : ((directoryBatch d dir o).run (directorySetting config dir o)
      (schedule (directoryTasks d dir o).length)).work[i]? = files[i]?.map fun f =>
        (⟨f, outputNameOf f.fileNameShown⟩, .reported (handedBack d config f)) := by
    unfold directoryBatch
    rw [work_of_fair (hfair _) hkept]
    simp only [reportedOf_of_rawJson hsetting]
    rw [htasks, List.getElem?_map, Option.map_map]
    rfl
  rw [runScheduled_directory hvalid hdir]
  refine ⟨_, files, rfl, hfiles, fun g => ?_, fun f e => ?_⟩
  · rw [Batch.mem_generated]
    constructor
    · rintro ⟨i, t, hi⟩
      obtain ⟨f, hf, heq⟩ := Option.map_eq_some_iff.mp ((hwork i).symm.trans hi)
      exact ⟨f, List.mem_of_getElem? hf, Stage.reported.inj (Prod.mk.inj heq).2⟩
    · rintro ⟨f, hf, hback⟩
      obtain ⟨i, hi⟩ := List.mem_iff_getElem?.mp hf
      exact ⟨i, _, (hwork i).trans (by rw [hi, Option.map_some, hback])⟩
  · rw [Batch.mem_failures]
    constructor
    · rintro ⟨i, t, hi, rfl⟩
      obtain ⟨f, hf, heq⟩ := Option.map_eq_some_iff.mp ((hwork i).symm.trans hi)
      obtain ⟨rfl, hstage⟩ := Prod.mk.inj heq
      exact ⟨List.mem_of_getElem? hf, Stage.reported.inj hstage⟩
    · rintro ⟨hf, hback⟩
      obtain ⟨i, hi⟩ := List.mem_iff_getElem?.mp hf
      exact ⟨i, _, (hwork i).trans (by rw [hi, Option.map_some, hback]), rfl⟩

/-- A component and one whose import is missing. -/
def pair : Disk := .ofTexts [
  ("p/package.json", "\x7b\x7d"),
  ("p/ui/button.ts", "export const Button = 1;"),
  ("p/ui/card.ts", "import './missing';")]

/-- A run over `ui`, whose path stays there so many times at its end. -/
def staying (times : Nat) : Options where
  name := none
  input := ⟨(Path.ofString "ui").glyphs ++ (List.replicate times [Path.separator, .char '.']).flatten⟩
  rawJson := true
  jobs := none

theorem pair_components : listComponents pair ((Path.ofString "/p").join (staying 0).input) =
    .ok [Path.ofString "/p/ui/button.ts", Path.ofString "/p/ui/card.ts"] := by
  have hlocate : pair.locate ((Path.ofString "/p").join (staying 0).input) =
      .ok (Disk.locationOf "p/ui") := by
    decide
  exact listComponents_of_sorted hlocate (by decide) (by decide)

/-- What runs over the two components end with. -/
theorem pair_results :
    (runScheduled inOrder pair .unset (Path.ofString "/p")
      (.alone (Path.ofString "/p/ui/button.ts") none)).result =
        .ok ⟨.file, [⟨Path.ofString "/p/ui/button.ts", ⟨"button", some .ui, [], [], [],
          [⟨"ui/button.ts", "export const Button = 1;", .ui⟩]⟩, none⟩], []⟩ ∧
    (runScheduled inOrder pair .unset (Path.ofString "/p")
      (.alone (Path.ofString "/p/ui/card.ts") none)).result =
        .error (.generation (Path.ofString "/p/ui/card.ts")
          (.unresolvedImport "./missing" (Path.ofString "ui/card.ts"))) := by
  decide +kernel

theorem pair_accepted :
    pair.Listed ∧ (Path.ofString "/p").isAbsolute = true ∧
      (staying 0).validate pair (Path.ofString "/p") = .ok () ∧
      pair.isDirectory ((Path.ofString "/p").join (staying 0).input) = true ∧
      Disk.refusal? (Path.ofString "/p/ui/button.ts") = none ∧
      Disk.refusal? (Path.ofString "/p/ui/card.ts") = none := by
  decide

/-- The components of the pair as seen from a path to `ui` that is just short enough. -/
def farComponent (name : String) : Path :=
  (Path.ofString "/p").join (staying 2043).input / name

theorem far_accepted :
    (staying 2043).validate pair (Path.ofString "/p") = .ok () ∧
      pair.locate ((Path.ofString "/p").join (staying 2043).input) = .ok (Disk.locationOf "p/ui") ∧
      pair.isDirectory ((Path.ofString "/p").join (staying 2043).input) = true ∧
      ((Path.ofString "button.ts").glyphs, .file (.text "export const Button = 1;")) ∈
        pair.entries (Disk.locationOf "p/ui") ∧
      isComponent (farComponent "button.ts") = true ∧
      (farComponent "button.ts").isAbsolute = true ∧
      Disk.refusal? (farComponent "button.ts") ≠ none := by
  decide +kernel

end Generate

end ComponentRegistry
