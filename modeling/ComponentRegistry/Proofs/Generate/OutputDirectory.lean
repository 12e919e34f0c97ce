import ComponentRegistry.Proofs.Generate.Outputs

/-!
# Where the manifest of a file goes

A run over a file saves the manifest in its output directory: the configured one, or the directory of
the file (`saved_in_directory`).  A name that is given must not hold a slash before its first dot,
for it is joined to the directory as it is: with a slash the manifest goes further down, and with one
in front it goes anywhere (`lone_outside`).
-/

namespace ComponentRegistry.Generate

/-- What the output of a file is named after: the given name, or the name of the file. -/
def namedAfter (dir : Path) (o : Options) : String := o.name.getD (dir.join o.input).fileNameShown

/-- The directory that the manifest of a file is saved in: the configured one, or that of the file. -/
def fileOutputDir (config : Config) (dir : Path) (o : Options) : Path :=
  outputDirectory config dir ((dir.join o.input).parent?.getD dir)

/-- The manifest stands in a directory under a name, or the name is a link from before and leads to
it. -/
structure SavedIn (d after : Disk) (base : Path) (name : Name) (m : Manifest) (l : Location) :
    Prop where
  directory : after.DirectoryAt base l
  proper : Disk.Proper name
  child : after.node? (l ++ [name]) = some (.file (.text m.pretty)) ∨
    ∃ target, d.node? (l ++ [name]) = some (.link target)
  text : after.readText (base.join ⟨name⟩) = .ok m.pretty

section SavedIn

variable {schedule : Nat → List Nat} {d : Disk} {config : Config} {dir : Path} {o : Options}
  {s : Setting} {t : Task} {m : Manifest} {g : Generated} {after : Disk} {l : Location}

/-- A link that stands after a manifest was kept stood there before. -/
theorem link_of_keep {target : Path} (h : keep s t m d = (.ok g, after))
    (hn : after.node? l = some (.link target)) : d.node? l = some (.link target) := by
  cases hbefore : d.node? l with
  | none =>
    have hafter : (keep s t m d).2.node? l = some (.link target) := by rw [h]; exact hn
    obtain ⟨-, hbrought⟩ := brought_of_keep hbefore hafter
    cases hbrought
  | some n =>
    obtain ⟨n', hn', hkind⟩ := (keep_again h).1.node l n hbefore
    cases hn'.symm.trans hn
    cases hkind
    rfl

/-- A manifest that is kept under a name without slashes is saved in the output directory. -/
theorem savedIn_of_keep {name : String} (hraw : s.rawJson = false)
    (hname : '/' ∉ (Path.baseName name).toList) (ht : t.outputName = outputNameOf name)
    (h : keep s t m d = (.ok g, after)) :
    g.savedTo = some ((s.outputDir / outputNameOf name).relative s.dir) ∧ g.manifest = m ∧
      ∃ l, SavedIn d after s.outputDir (outputNameIn name) m l := by
  have hkeeps := keeps s t m d
  rw [h] at hkeeps
  cases hkeeps with
  | handedBack hback => rw [hraw] at hback; cases hback
  | @saved ready _ place _ hextends hwritten =>
    have hout : s.output t = s.outputDir.join ⟨outputNameIn name⟩ := by
      rw [Setting.output, ht, ← glyphs_outputName]
      rfl
    have hnode : after.node? place = some (.file (.text m.pretty)) := by
      rw [hwritten.node?, if_pos rfl]
    have hleads := hwritten.leads
    have hleadsDown : Path.isStep (outputNameIn name) = true ∧ outputNameIn name ≠ Path.dotDot :=
      isStep_append_json _
    rw [hout] at hleads
    obtain ⟨l, hdirectory, hproper, hchild⟩ := Disk.of_locate_join (q := ⟨outputNameIn name⟩)
      hleadsDown.1 hleadsDown.2 (separator_not_mem_outputName hname) hleads
    refine ⟨by rw [Setting.output, ht], rfl, l, hdirectory, hproper, ?_,
      readText_of_locate hleads hnode⟩
    rcases hchild with rfl | ⟨target, htarget⟩
    · exact Or.inl hnode
    · exact Or.inr ⟨target, link_of_keep h htarget⟩

/-- **A run over a file saves the manifest in its output directory**, under a name that is given
without slashes before its first dot, or under that of the file. -/
theorem saved_in_directory {r : Report}
    (hok : (runScheduled schedule d config dir o).result = .ok r)
    (hfile : d.isDirectory (dir.join o.input) = false) (hraw : o.rawJson = false)
    (hname : ∀ name, o.name = some name → '/' ∉ (Path.baseName name).toList) :
    ∃ g l, r = ⟨.file, [g], []⟩ ∧ g.source = dir.join o.input ∧
      g.savedTo = some ((fileOutputDir config dir o / outputNameOf (namedAfter dir o)).relative dir) ∧
      SavedIn d (runScheduled schedule d config dir o).disk (fileOutputDir config dir o)
        (outputNameIn (namedAfter dir o)) g.manifest l := by
  obtain ⟨m, g, after, hran⟩ := ran_of_runScheduled hok hfile
  have hfree : '/' ∉ (Path.baseName (namedAfter dir o)).toList := by
    unfold namedAfter
    cases hgiven : o.name with
    | none => exact slash_not_mem_baseName _
    | some name => exact hname name hgiven
  obtain ⟨hsavedTo, hmanifest, l, hsaved⟩ := savedIn_of_keep hraw hfree rfl hran.kept
  obtain ⟨hsource, -⟩ := Save.of_result hran.save.1
  rw [hran.runScheduled_eq] at hok ⊢
  exact ⟨g, l, (Except.ok.inj hok).symm, hsource, hsavedTo, hmanifest ▸ hsaved⟩

/-- A component in a directory of its own. -/
def lone : Disk := .ofTexts [
  ("p/package.json", "\x7b\x7d"),
  ("p/src/button.ts", "")]

/-- A run over the component with a name for its manifest. -/
def namedOptions (name : String) : Options := ⟨some name, Path.ofString "src/button.ts", false, none⟩

def loneReport (savedTo : String) : Report where
  kind := .file
  generated := [⟨Path.ofString "/p/src/button.ts",
    ⟨"button", some .lib, [], [], [], [⟨"src/button.ts", "", .lib⟩]⟩, some (Path.ofString savedTo)⟩]
  failures := []

theorem lone_saved_in_directory :
    (run lone .unset (Path.ofString "/p") (namedOptions "fancy.button")).result =
        .ok (loneReport "src/fancy.json") ∧
      ∃ g l, loneReport "src/fancy.json" = ⟨.file, [g], []⟩ ∧
        g.source = Path.ofString "/p/src/button.ts" ∧
        g.savedTo = some (Path.ofString "src/fancy.json") ∧
        SavedIn lone (run lone .unset (Path.ofString "/p") (namedOptions "fancy.button")).disk
          (Path.ofString "/p/src") (Text.ofChars "fancy.json".toList) g.manifest l := by
  have hok : (run lone .unset (Path.ofString "/p") (namedOptions "fancy.button")).result =
      .ok (loneReport "src/fancy.json") := by
    decide +kernel
  have hname : ∀ name, (namedOptions "fancy.button").name = some name →
      '/' ∉ (Path.baseName name).toList := by
    intro name hgiven
    cases hgiven
    decide +kernel
  obtain ⟨g, l, hreport, hsource, hsavedTo, hsaved⟩ :=
    saved_in_directory hok (by decide +kernel) rfl hname
  have hinput : (Path.ofString "/p").join (namedOptions "fancy.button").input =
      Path.ofString "/p/src/button.ts" := by
    decide +kernel
  have hdirectory : fileOutputDir .unset (Path.ofString "/p") (namedOptions "fancy.button") =
      Path.ofString "/p/src" := by
    decide +kernel
  have hnamed : outputNameIn (namedAfter (Path.ofString "/p") (namedOptions "fancy.button")) =
      Text.ofChars "fancy.json".toList := by
    decide +kernel
  have hrelative : (fileOutputDir .unset (Path.ofString "/p") (namedOptions "fancy.button") /
      outputNameOf (namedAfter (Path.ofString "/p") (namedOptions "fancy.button"))).relative
        (Path.ofString "/p") = Path.ofString "src/fancy.json" := by
    decide +kernel
  rw [hinput] at hsource
  rw [hrelative] at hsavedTo
  rw [hdirectory, hnamed] at hsaved
  exact ⟨hok, g, l, hreport, hsource, hsavedTo, hsaved⟩

/-- Names with a slash are accepted, and the manifest is saved below the output directory or
elsewhere; no manifest is in the directory itself. -/
theorem lone_outside :
    ((run lone .unset (Path.ofString "/p") (namedOptions "sub/button")).result =
        .ok (loneReport "src/sub/button.json") ∧
      (run lone .unset (Path.ofString "/p") (namedOptions "sub/button")).disk.entries
          (Disk.locationOf "p/src") =
        [(Text.ofChars "button.ts".toList, .file (.text "")),
          (Text.ofChars "sub".toList, .directory)]) ∧
    (run lone .unset (Path.ofString "/p") (namedOptions "/elsewhere/button")).result =
        .ok (loneReport "../elsewhere/button.json") ∧
      (run lone .unset (Path.ofString "/p") (namedOptions "/elsewhere/button")).disk.entries
          (Disk.locationOf "p/src") = [(Text.ofChars "button.ts".toList, .file (.text ""))] := by
  refine ⟨⟨?_, ?_⟩, ?_, ?_⟩
  · decide +kernel
  · decide +kernel
  · decide +kernel
  · decide +kernel

end SavedIn

end ComponentRegistry.Generate
