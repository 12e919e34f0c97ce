import ComponentRegistry.Proofs.Generate.Outputs
import ComponentRegistry.Proofs.Walk.Contents

/-!
# What runs leave of files

A run writes nothing but its outputs: a file that can be read keeps its text through the run, or a
manifest of the run was saved in its place (`kept_or_output`).  The second does happen to a file that
the run has inlined before, if it has the name of the output (`sources_of_run`).
-/

namespace ComponentRegistry.Generate

/-- What a run leaves of a file whose text was read: the text, or the manifest that was saved in its
place. -/
inductive Left (d : Disk) (config : Config) (dir : Path) (o : Options) (r : Report) (after : Disk)
    (p : Path) (text : String) : Prop where
  | kept : after.readText p = .ok text → Left d config dir o r after p text
  | output {g : Generated} {place : Location} : o.rawJson = false → g ∈ r.generated →
    after.locate p = .ok place → after.locate (outputOf d config dir o g.source) = .ok place →
    after.readText p = .ok g.manifest.pretty → Left d config dir o r after p text

section Left

variable {schedule : Nat → List Nat} {d before after : Disk} {config : Config} {dir : Path}
  {o : Options} {s : Setting} {r : Report} {xs ys : List Save} {p : Path} {text : String}

/-- A text that is read stays until a manifest is saved in its place. -/
theorem Chain.readText (h : Chain s before xs after) (hread : before.readText p = .ok text) :
    after.readText p = .ok text ∨ ∃ x ∈ xs, ∃ place, x.Hits s after place ∧
      after.locate p = .ok place ∧ after.readText p = .ok x.manifest.pretty := by
  obtain ⟨place, hplace, hnode⟩ := of_readText hread
  have hplace' := h.grows.locate hplace
  rcases h.node? hnode with ⟨-, hnode'⟩ | ⟨x, hlast, hnode'⟩
  · exact Or.inl (readText_of_locate hplace' hnode')
  · exact Or.inr ⟨x, hlast.mem, place, hlast.hits, hplace', readText_of_locate hplace' hnode'⟩

/-- From any disk of a run on, a file is left as it is or it is where the run saves a manifest. -/
theorem Ended.left (hended : Ended (runSetting d config dir o) d (runSaves schedule d config dir o) r
      after) (hxs : ∀ x ∈ xs, x ∈ runSaves schedule d config dir o)
    (h : Chain (runSetting d config dir o) before xs after) (hread : before.readText p = .ok text) :
    Left d config dir o r after p text := by
  rcases h.readText hread with hkept | ⟨x, hx, place, hhits, hplace, htext⟩
  · exact .kept hkept
  · obtain ⟨g, hg⟩ := hhits.isOk
    obtain ⟨hsource, hmanifest, -⟩ := Save.of_result hg
    have hraw : o.rawJson = false := (runSetting_rawJson d config dir o).symm.trans hhits.saving
    have hout := hhits.place
    rw [output_of_mem_runSaves (hxs x hx), ← hsource] at hout
    rw [← hmanifest] at htext
    exact .output hraw ((hended.generated g).mpr ⟨x, hxs x hx, hg⟩) hplace hout htext

/-- **A run changes no file but its outputs.** -/
theorem kept_or_output (hfair : ∀ count, Fair count (schedule count))
    (hok : (runScheduled schedule d config dir o).result = .ok r) (hread : d.readText p = .ok text) :
    Left d config dir o r (runScheduled schedule d config dir o).disk p text :=
  (ended hfair hok).left (fun _ hx => hx) (ended hfair hok).chain hread

/-- A component that imports a file with the name of its output. -/
def theme : Disk := .ofTexts [
  ("p/package.json", "\x7b\x7d"),
  ("p/theme.js", "import './theme.json';"),
  ("p/theme.json", "\x7b\x7d")]

def themeOptions : Options := ⟨none, Path.ofString "theme.js", false, none⟩

def themeManifest : Manifest where
  name := "theme"
  type := some .lib
  dependencies := []
  devDependencies := []
  registryDependencies := []
  files := [⟨"theme.js", "import './theme.json';", .lib⟩, ⟨"theme.json", "\x7b\x7d", .lib⟩]

def themeReport : Report where
  kind := .file
  generated := [⟨Path.ofString "/p/theme.js", themeManifest, some (Path.ofString "theme.json")⟩]
  failures := []

theorem theme_result : (run theme .unset (Path.ofString "/p") themeOptions).result = .ok themeReport := by
  decide +kernel

end Left

end ComponentRegistry.Generate
