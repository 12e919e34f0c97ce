import ComponentRegistry.Proofs.Generate.Runs

/-!
# Generating again

The output of a run is part of the disk that the next run sees.  Saving a manifest again changes
nothing (`keep_again`), so a run over a file can be repeated without effect exactly if the walk is
not misled by the manifest that was saved (`rerun_eq_iff`).  It may be: a manifest next to the
sources answers to an import of the directory that has its name.
-/

namespace ComponentRegistry.Generate

/-! ## Runs over a file -/

section Runs

variable {d d' : Disk} {config : Config} {dir : Path} {o : Options}

/-- What is accepted is accepted on a disk that has grown. -/
theorem validate_again (hg : d.Grows d') (h : o.validate d dir = .ok ()) :
    d.has (dir.join o.input) = true ∧ o.validate d' dir = .ok () := by
  unfold Options.validate at h ⊢
  simp only at h ⊢
  by_cases hname : o.name.any isBadName = true
  · rw [if_pos hname] at h; cases h
  · rw [if_neg hname] at h ⊢
    cases hhas : d.has (dir.join o.input) with
    | false => simp [hhas] at h
    | true =>
      obtain ⟨hhas', -, hfile⟩ := hg.kind_eq hhas
      rw [hhas'] 
      rw [hhas] at h
      rw [hfile]
      exact ⟨rfl, h⟩

/-- **A run over a file can be repeated without effect exactly if the walk finds the same again.** -/
theorem rerun_eq_iff {r : Report} (hok : (run d config dir o).result = .ok r)
    (hfile : d.isFile (dir.join o.input) = true) :
    run (run d config dir o).disk config dir o = run d config dir o ↔
      Walk.generate (run d config dir o).disk config (dir.join o.input) =
        Walk.generate d config (dir.join o.input) := by
  obtain ⟨m, g, after, hran⟩ := ran_of_run hok hfile
  obtain ⟨hgrows, hmanifest, hagain⟩ := keep_again hran.kept
  obtain ⟨hhas, hvalid⟩ := validate_again hgrows hran.valid
  obtain ⟨-, hdir, hfile'⟩ := hgrows.kind_eq hhas
  rw [hran.run_eq]
  constructor
  · intro hsame
    obtain ⟨m', g', after', hran'⟩ := ran_of_run (r := ⟨.file, [g], []⟩)
      (congrArg Outcome.result hsame) (hfile'.trans hfile)
    have hg : g' = g := by
      have hresult := congrArg Outcome.result hsame
      rw [hran'.run_eq] at hresult
      simpa using hresult
    have hm : m' = m := by
      rw [← (keep_again hran'.kept).2.1, hg, hmanifest]
    show Walk.generate after config _ = _
    rw [hran'.walked, hran.walked, hm]
  · intro hwalk
    have hran' : Ran after config dir o m g after :=
      ⟨hvalid, hdir.trans hran.isFile, hwalk.trans hran.walked, hagain⟩
    exact hran'.run_eq

/-- A component with one import. -/
def button : Disk := .ofTexts [
  ("p/package.json", "\x7b\x7d"),
  ("p/button.js", "import './icon';"),
  ("p/icon.js", "")]

def buttonOptions : Options := ⟨none, Path.ofString "button.js", false, some 1⟩

def buttonManifest : Manifest where
  name := "button"
  type := some .lib
  dependencies := []
  devDependencies := []
  registryDependencies := []
  files := [⟨"button.js", "import './icon';", .lib⟩, ⟨"icon.js", "", .lib⟩]

theorem button_rerun_eq :
    run (run button .unset (Path.ofString "/p") buttonOptions).disk .unset (Path.ofString "/p")
      buttonOptions = run button .unset (Path.ofString "/p") buttonOptions := by
  have hok : (run button .unset (Path.ofString "/p") buttonOptions).result.isOk = true := by
    decide +kernel
  have hwalk : Walk.generate button .unset ((Path.ofString "/p").join buttonOptions.input) =
      .ok buttonManifest := by
    decide +kernel
  have hwalk' : Walk.generate (run button .unset (Path.ofString "/p") buttonOptions).disk .unset
      ((Path.ofString "/p").join buttonOptions.input) = .ok buttonManifest := by
    decide +kernel
  cases hresult : (run button .unset (Path.ofString "/p") buttonOptions).result with
  | error f => rw [hresult] at hok; cases hok
  | ok r => exact (rerun_eq_iff hresult (by decide +kernel)).mpr (hwalk'.trans hwalk.symm)

/-- The manifest of the stories is saved as `button.json`, which an import of `./button` finds
before it looks into the directory of that name. -/
def stories : Disk := .ofTexts [
  ("p/package.json", "\x7b\x7d"),
  ("p/button.stories.js", "import './button';"),
  ("p/button/index.js", "")]

def storiesOptions : Options := ⟨none, Path.ofString "button.stories.js", false, some 1⟩

/-- The files of the manifests of a run. -/
def Outcome.files? (out : Outcome) : Option (List (List String)) :=
  out.result.toOption.map fun r => r.manifests.map fun m => m.files.map RegistryFile.path

theorem stories_rerun_ne :
    (run stories .unset (Path.ofString "/p") storiesOptions).files? =
        some [["button.stories.js", "button/index.js"]] ∧
      (run (run stories .unset (Path.ofString "/p") storiesOptions).disk .unset (Path.ofString "/p")
        storiesOptions).files? = some [["button.stories.js", "button.json"]] ∧
      run (run stories .unset (Path.ofString "/p") storiesOptions).disk .unset (Path.ofString "/p")
        storiesOptions ≠ run stories .unset (Path.ofString "/p") storiesOptions := by
  have hfirst : (run stories .unset (Path.ofString "/p") storiesOptions).files? =
      some [["button.stories.js", "button/index.js"]] := by
    decide +kernel
  have hsecond : (run (run stories .unset (Path.ofString "/p") storiesOptions).disk .unset
      (Path.ofString "/p") storiesOptions).files? = some [["button.stories.js", "button.json"]] := by
    decide +kernel
  refine ⟨hfirst, hsecond, fun hsame => ?_⟩
  rw [hsame, hfirst] at hsecond
  exact absurd hsecond (by decide)

end Runs

end ComponentRegistry.Generate
