import ComponentRegistry.Proofs.Walk.Resolutions

/-!
# Where a project stands

What becomes of an import of a project file is decided by the path of the file below the root and by
the configuration, and of the root itself only one thing counts: whether it stands among installed
packages (`answer_of_below`).  The path below the root shows whether the file was installed there
(`isInstalled_iff_of_below`), and its last component is the name of the file
(`fileNameShown_of_below`).
-/

namespace ComponentRegistry

/-! ## Paths below a root -/

namespace Path

variable {p root : Path} {rest : List Component}

/-- The name that a component is, if it is one. -/
def Component.name? : Component → Option Name
  | .normal s => some s
  | _ => none

/-- The name at the end of components, as shown. -/
def lastNameShown (cs : List Component) : String :=
  ((cs.getLast?.bind Component.name?).map Text.shown).getD ""

theorem Component.name?_ofName (s : Name) :
    (Component.ofName s).name? = if s = dotDot then none else some s := by
  unfold Component.ofName
  split_ifs <;> rfl

/-- The file name of a path is its last component, if that is a name. -/
theorem fileName?_eq_getLast? (p : Path) : p.fileName? = p.components.getLast?.bind Component.name? := by
  rw [fileName?_eq, components_eq]
  cases hlast : p.names.getLast? with
  | some s =>
    rw [List.getLast?_append, List.getLast?_map, hlast]
    exact (Component.name?_ofName s).symm
  | none =>
    rw [List.getLast?_eq_none_iff] at hlast
    rw [hlast]
    cases p.parts.1 <;> rfl

theorem fileNameShown_of_below (h : p.components = root.components ++ rest) (hrest : rest ≠ []) :
    p.fileNameShown = lastNameShown rest := by
  rw [fileNameShown, lastNameShown, fileName?_eq_getLast?, h, List.getLast?_append_of_ne_nil _ hrest]

theorem startsWith_of_below (h : p.components = root.components ++ rest) : p.startsWith root = true :=
  Text.startsWith_iff.mpr ⟨rest, h.symm⟩

/-- A file is installed if its root is, or the file is below the root. -/
theorem isInstalled_iff_of_below (h : p.components = root.components ++ rest) :
    p.isInstalled = true ↔ root.isInstalled = true ∨ Component.normal installDirectory ∈ rest := by
  simp [isInstalled, h]

end Path

/-- The remote registry that a configuration has for a file, by its path below the root. -/
def Config.urlBelow? (config : Config) (rest : List Path.Component) : Option String :=
  config.registryUrl? (Path.baseName (Path.lastNameShown rest))

namespace Walk

/-! ## What becomes of imports -/

section Location

variable {d : Disk} {config : Config} {entry file : Path} {w : Start} {r : Resolution}
  {rest : List Path.Component}

/-- **What becomes of an import of a project file**, by its path below the root: it is inlined or
redirected, as the configuration says, unless the whole project stands among installed packages;
then it is external. -/
theorem answer_of_below (hw : prepare d config entry = .ok w) (hr : r ∈ w.resolutions)
    (hfile : r.file? = some file) (hbelow : file.components = w.project.root.components ++ rest)
    (hrest : rest ≠ []) (hlocal : .normal Path.installDirectory ∉ rest) :
    r.met.answer = .ok (if w.project.root.isInstalled = true then .external
      else (config.urlBelow? rest).elim (.inlined file) .registry) := by
  obtain ⟨-, hconfig, -⟩ := of_prepare hw
  have hinstalled := Path.isInstalled_iff_of_below hbelow
  rw [w.answer_eq (loadable_of_prepare hw) hr, hfile]
  by_cases hroot : w.project.root.isInstalled = true
  · rw [if_pos hroot]
    simp only [outcome]
    rw [if_pos (hinstalled.mpr (.inl hroot))]
  · have howns : w.project.Owns file := by
      refine ⟨?_, Path.startsWith_of_below hbelow⟩
      rw [Bool.eq_false_iff, ne_eq, hinstalled]
      exact fun h => h.elim hroot hlocal
    have hurl : w.project.urlOf? file = config.urlBelow? rest := by
      rw [Project.urlOf?, hconfig, Path.fileNameShown_of_below hbelow hrest, Config.urlBelow?]
    rw [if_neg hroot, outcome_of_owns howns, hurl]

/-- A project of two files in a directory. -/
def placed (dir : String) : Disk := .ofTexts [
  (dir ++ "/package.json", "\x7b\x7d"),
  (dir ++ "/a.ts", "import './b';"),
  (dir ++ "/b.ts", "")]

def belowRoot (name : String) : List Path.Component := [.normal (Text.ofChars name.toList)]

theorem placed_inlined : ∃ w,
    prepare (placed "n/modules/p") .unset (Path.ofString "/n/modules/p/a.ts") = .ok w ∧
    ∃ r ∈ w.resolutions, r.file? = some (Path.ofString "/n/modules/p/b.ts") ∧
      r.met.answer = .ok (.inlined (Path.ofString "/n/modules/p/b.ts")) := by
  obtain ⟨w, hw, hfiles, hroot⟩ : ∃ w,
      prepare (placed "n/modules/p") .unset (Path.ofString "/n/modules/p/a.ts") = .ok w ∧
        w.resolutions.map Resolution.file? = [some (Path.ofString "/n/modules/p/b.ts")] ∧
        w.project.root = Path.ofString "/n/modules/p" :=
    exists_ok_and (by decide +kernel)
  obtain ⟨r, more, hres, hfile, -⟩ := List.map_eq_cons_iff.mp hfiles
  have hr : r ∈ w.resolutions := hres ▸ List.mem_cons_self
  have hbelow : (Path.ofString "/n/modules/p/b.ts").components =
      w.project.root.components ++ belowRoot "b.ts" := by
    rw [hroot]
    decide +kernel
  have hanswer := answer_of_below hw hr hfile hbelow (by decide) (by decide +kernel)
  rw [hroot] at hanswer
  refine ⟨w, hw, r, hr, hfile, hanswer.trans ?_⟩
  decide +kernel

/-- The same project among installed packages: its own file is taken for a package, though no
component of its path below the root is the directory of these. -/
theorem placed_external : ∃ w,
    prepare (placed "n/node_modules/p") .unset (Path.ofString "/n/node_modules/p/a.ts") = .ok w ∧
    ∃ r ∈ w.resolutions, ∃ file, r.file? = some file ∧
      (placed "n/node_modules/p").canonical file = .ok file ∧
      file.components = w.project.root.components ++ belowRoot "b.ts" ∧
      .normal Path.installDirectory ∉ belowRoot "b.ts" ∧
      r.met.answer = .ok .external := by
  obtain ⟨w, hw, hfiles, hroot⟩ : ∃ w,
      prepare (placed "n/node_modules/p") .unset (Path.ofString "/n/node_modules/p/a.ts") = .ok w ∧
        w.resolutions.map (fun r => (r.file?, r.met.answer)) =
          [(some (Path.ofString "/n/node_modules/p/b.ts"), .ok .external)] ∧
        w.project.root = Path.ofString "/n/node_modules/p" :=
    exists_ok_and (by decide +kernel)
  obtain ⟨r, more, hres, hboth, -⟩ := List.map_eq_cons_iff.mp hfiles
  obtain ⟨hfile, hanswer⟩ := Prod.mk.inj hboth
  refine ⟨w, hw, r, hres ▸ List.mem_cons_self, _, hfile, by decide +kernel, ?_,
    by decide +kernel, hanswer⟩
  rw [hroot]
  decide +kernel

end Location

end Walk

end ComponentRegistry
