import ComponentRegistry.Classification
import ComponentRegistry.Proofs.Disk.Spelling

/-!
# Files below a root

The type of a file depends on its name, on the directories between it and the root, and on what it
holds (`classify_eq`).  A path that is joined to the root has the name and these directories of its own
(`fileName?_join`, `names_relative_join`), so it has one type below every root (`classify_below`).
-/

namespace ComponentRegistry

namespace Path

variable {p base dir : Path} {a : Anchor} {segs : List Name}

theorem names_parentsOf (a : Anchor) (h : ∀ s ∈ segs, separator ∉ s) :
    (parentsOf a segs).head?.elim [] names = (segs.reverse.filter isStep).dropLast := by
  induction segs with
  | nil => cases a <;> decide
  | cons s rest ih =>
    have hrest : ∀ t ∈ rest, separator ∉ t := fun t ht => h t (List.mem_cons_of_mem s ht)
    unfold parentsOf
    rw [List.reverse_cons, List.filter_append]
    cases hs : isStep s with
    | false => simpa [hs] using ih hrest
    | true =>
      have hfree : ∀ t ∈ trimEnd rest.reverse, separator ∉ t := fun t ht =>
        hrest t (List.mem_reverse.mp (mem_of_mem_trimEnd ht))
      simp [hs, names_render a hfree, filter_trimEnd]

/-- The names above a path are its names but the last. -/
theorem names_parent? (p : Path) : p.parent?.elim [] names = p.names.dropLast := by
  have hfree : ∀ s ∈ p.parts.2.reverse, separator ∉ s := fun s hs =>
    Text.not_mem_piece ((parts_suffix p).mem (List.mem_reverse.mp hs))
  have h := names_parentsOf p.parts.1 hfree
  rw [List.reverse_reverse, filter_parts] at h
  exact h

/-- A joined path has the file name of the second one. -/
theorem fileName?_join (base : Path) (hp : p.isAbsolute = false) (hne : p.names ≠ []) :
    (base.join p).fileName? = p.fileName? := by
  rw [fileName?_eq, fileName?_eq, names_join hp, List.getLast?_append_of_ne_nil _ hne]

theorem startsWith_join (hbase : base.isAbsolute = true) (hp : p.isAbsolute = false) :
    (base.join p).startsWith base = true := by
  have hjoined : (base.join p).isAbsolute = true := (isAbsolute_join hp).trans hbase
  refine Text.startsWith_iff.mpr ⟨p.names.map Component.ofName, ?_⟩
  rw [components_of_isAbsolute hbase, components_of_isAbsolute hjoined, names_join hp,
    List.map_append, List.cons_append]

/-- Seen from the base, a joined path has the names of the second one. -/
theorem names_relative_join (hbase : base.isAbsolute = true) (hp : p.isAbsolute = false) :
    ((base.join p).relative base).names = p.names := by
  have hne : base.components ≠ [] := by
    rw [components_of_isAbsolute hbase]
    exact List.cons_ne_nil _ _
  obtain ⟨-, hnames, -⟩ := of_stripStart (startsWith_join hbase hp) hne
  rw [names_join hp] at hnames
  exact (List.append_cancel_left hnames).symm

/-- A path of names alone begins with its first name. -/
theorem isAbsolute_of_normal (h : ∀ c ∈ p.components, ∃ s, c = .normal s) :
    p.isAbsolute = false := by
  rw [← Bool.not_eq_true]
  intro habsolute
  obtain ⟨s, hs⟩ := h .root (by simp [components_of_isAbsolute habsolute])
  cases hs

theorem names_ne_nil_of_normal (h : ∀ c ∈ p.components, ∃ s, c = .normal s)
    (hne : p.components ≠ []) : p.names ≠ [] := by
  intro hnil
  have hstart : p.components = p.parts.1.components := by
    rw [components_eq, hnil]
    simp
  rw [hstart] at h hne
  cases hp : p.parts.1 with
  | root => obtain ⟨s, hs⟩ := h .root (by simp [hp, Anchor.components]); cases hs
  | current => obtain ⟨s, hs⟩ := h .current (by simp [hp, Anchor.components]); cases hs
  | none => exact hne (by rw [hp]; rfl)

end Path

namespace Classification

variable {p q root root' : Path} {summary : Option SourceSummary}

/-- The type of a file by its name, the directories it is in and what it holds. -/
def typeOf (fileName extension : String) (directories : List String)
    (summary : Option SourceSummary) : RegistryType :=
  let isCode := codeExtensions.contains extension
  if styleExtensions.contains extension then .style
  else if isCode && Text.startsWith hookStart fileName.toList then .hook
  else match byDirectory directories, summary with
    | some t, _ => t
    | none, some s => if isCode && s.parsed then (byContent s extension).getD .lib else .lib
    | none, none => .lib

theorem classify_eq (path root : Path) (summary : Option SourceSummary) :
    classify path root summary = (nameOf path).map fun (fileName, extension) =>
      typeOf fileName extension (directoriesOf (path.relative root)) summary := by
  unfold classify
  cases nameOf path with
  | error f => rfl
  | ok found =>
    obtain ⟨fileName, extension⟩ := found
    simp only [bind, Except.bind, pure, Except.pure, Except.map, typeOf]
    split_ifs
    · rfl
    · rfl
    · cases byDirectory (directoriesOf (path.relative root)) with
      | some t => rfl
      | none =>
        cases summary with
        | none => rfl
        | some s => exact (apply_ite Except.ok _ _ _).symm

/-- The directories of a path are its names but the last, steps up left out. -/
theorem directoriesOf_eq (p : Path) : directoriesOf p =
    p.names.dropLast.filterMap fun name => if name = Path.dotDot then none else Text.text? name := by
  unfold directoriesOf
  rw [← Path.names_parent?]
  cases p.parent? with
  | none => rfl
  | some dir =>
    show dir.components.filterMap _ = dir.names.filterMap _
    rw [Path.components_eq, List.filterMap_append, List.filterMap_map]
    have hstart : ∀ f : Path.Component → Option String, f .root = none → f .current = none →
        dir.parts.1.components.filterMap f = [] := by
      intro f hroot hcurrent
      cases dir.parts.1 <;> simp [Path.Anchor.components, hroot, hcurrent]
    rw [hstart _ rfl rfl, List.nil_append]
    refine List.filterMap_congr fun name _ => ?_
    unfold Function.comp Path.Component.ofName
    split_ifs
    · rfl
    · rfl

/-- The verdicts on two files are the same: one type for both, or both are refused for one reason. -/
inductive SameVerdict (p q : Path) : Except Failure RegistryType → Except Failure RegistryType → Prop
  | found (t : RegistryType) : SameVerdict p q (.ok t) (.ok t)
  | refused (reason : String) :
      SameVerdict p q (.error (.classification p reason)) (.error (.classification q reason))

theorem sameVerdict_of (hname : p.fileName? = q.fileName?)
    (hnames : (p.relative root).names = (q.relative root').names) :
    SameVerdict p q (classify p root summary) (classify q root' summary) := by
  rw [classify_eq, classify_eq, directoriesOf_eq, directoriesOf_eq, hnames]
  unfold nameOf Path.extension?
  rw [hname]
  cases q.fileName? with
  | none => exact .refused _
  | some name =>
    cases htext : Text.text? name with
    | none => simpa only [htext] using .refused _
    | some fileName =>
      simp only [htext, Option.bind_some]
      cases (Path.splitName name).2 with
      | none => exact .found _
      | some ext =>
        cases hext : Text.text? ext with
        | none => simpa only [hext] using .refused _
        | some extension => simpa only [hext] using .found _

/-- **A file has one type below every root.**  What the path below the root consists of are names, at
least one of them; the names in the paths of the roots, whatever they are, do not count. -/
theorem classify_below {rel : Path} (hroot : root.isAbsolute = true)
    (hroot' : root'.isAbsolute = true) (hrel : ∀ c ∈ rel.components, ∃ name, c = .normal name)
    (hne : rel.components ≠ []) (summary : Option SourceSummary) :
    SameVerdict (root.join rel) (root'.join rel) (classify (root.join rel) root summary)
      (classify (root'.join rel) root' summary) := by
  have hrelative : rel.isAbsolute = false := Path.isAbsolute_of_normal hrel
  have hnames : rel.names ≠ [] := Path.names_ne_nil_of_normal hrel hne
  refine sameVerdict_of ?_ ?_
  · rw [Path.fileName?_join root hrelative hnames, Path.fileName?_join root' hrelative hnames]
  · rw [Path.names_relative_join hroot hrelative, Path.names_relative_join hroot' hrelative]

/-- A file of a project that stands in a directory for hooks has the type that it has elsewhere. -/
theorem button_below :
    classify ((Path.ofString "/app").join (Path.ofString "ui/button.ts")) (Path.ofString "/app") none =
        .ok .ui ∧
      classify ((Path.ofString "/hooks").join (Path.ofString "ui/button.ts")) (Path.ofString "/hooks")
        none = .ok .ui := by
  have hcomponents : (Path.ofString "ui/button.ts").components =
      [.normal (Text.ofChars "ui".toList), .normal (Text.ofChars "button.ts".toList)] := by
    decide +kernel
  have happRoot : (Path.ofString "/app").isAbsolute = true := by decide
  have hhooksRoot : (Path.ofString "/hooks").isAbsolute = true := by decide
  have hrel : ∀ c ∈ (Path.ofString "ui/button.ts").components, ∃ name, c = .normal name := by
    simp [hcomponents]
  have hsame := classify_below happRoot hhooksRoot hrel (by simp [hcomponents]) none
  have happ : classify ((Path.ofString "/app").join (Path.ofString "ui/button.ts"))
      (Path.ofString "/app") none = .ok .ui := by
    decide +kernel
  refine ⟨happ, ?_⟩
  rw [happ] at hsame
  generalize classify ((Path.ofString "/hooks").join (Path.ofString "ui/button.ts"))
    (Path.ofString "/hooks") none = verdict at hsame ⊢
  cases hsame
  rfl

/-- The path of no names leads to the root itself, and then the name of the root does count. -/
theorem root_itself_differs :
    (Path.ofString "/p/use.ts").isAbsolute = true ∧ (Path.ofString "/p/app").isAbsolute = true ∧
    (∀ c ∈ Path.empty.components, ∃ name, c = .normal name) ∧
    classify ((Path.ofString "/p/use.ts").join .empty) (Path.ofString "/p/use.ts") none = .ok .hook ∧
    classify ((Path.ofString "/p/app").join .empty) (Path.ofString "/p/app") none = .ok .lib := by
  have hnone : Path.empty.components = [] := by decide
  refine ⟨by decide, by decide, ?_, by decide +kernel, by decide +kernel⟩
  rw [hnone]
  simp

end Classification

end ComponentRegistry
