import ComponentRegistry.Proofs.Assurance
import ComponentRegistry.Proofs.Disk.Spelling
import ComponentRegistry.Resolver.Basic

/-!
# What is found has been asked for

Whichever rule answers, it has asked for the file that it names (`Vouches.find`): what look-ups say
of the files that they find holds of what is resolved, whatever else the computation keeps track of.
A resolver without a memory names no file that the disk does not have (`isFound_find`), so what it
resolves a specifier to is a canonical path (`canonical_of_resolve`).
-/

namespace ComponentRegistry.Resolver

/-! ## With any look-ups -/

/-- The answer, if there is one, is good. -/
def Names (Good : Path → Prop) (answer : Option Path) : Prop := ∀ path, answer = some path → Good path

/-- What look-ups find is good. -/
structure Vouches {m : Type → Type} [Monad m] (A : Assurance m) (look : Lookups m)
    (Good : Path → Prop) : Prop where
  isFile : ∀ path, A.Gives (fun found => found = true → Good path) (look.isFile path)
  package? : ∀ file, A.Gives (fun _ => True) (look.package? file)

section Vouches

variable {m : Type → Type} [Monad m] {A : Assurance m} {Good : Path → Prop}

theorem names_none : Names Good none := nofun

theorem names_some {path : Path} (h : Good path) : Names Good (some path) :=
  fun _ heq => Option.some.inj heq ▸ h

theorem gives_firstAnswer? {α : Type} {ask : α → m (Option Path)}
    (hask : ∀ a, A.Gives (Names Good) (ask a)) (questions : List α) :
    A.Gives (Names Good) (firstAnswer? ask questions) := by
  induction questions with
  | nil => exact A.pure names_none
  | cons a questions ih =>
    refine A.bind (hask a) fun found hfound => ?_
    cases found with
    | some path => exact A.pure hfound
    | none => exact ih

variable {d : Disk} {look : Lookups m}

namespace Vouches

theorem firstFile? (h : Vouches A look Good) (files : List Path) :
    A.Gives (Names Good) (firstFile? look files) := by
  induction files with
  | nil => exact A.pure names_none
  | cons file files ih =>
    refine A.bind (h.isFile file) fun found hfound => ?_
    cases found with
    | true => exact A.pure (names_some (hfound rfl))
    | false => exact ih

theorem probe (h : Vouches A look Good) (path : Path) :
    A.Gives (Names Good) (probe d look path) :=
  h.firstFile? _

theorem inPackage (h : Vouches A look Good) (dir : Path) (subpath : Option String) :
    A.Gives (Names Good) (inPackage d look dir subpath) := by
  unfold Resolver.inPackage
  refine A.bind (h.package? _) fun package? _ => ?_
  dsimp only
  refine A.bind (h.firstFile? _) fun found hfound => ?_
  cases found with
  | some path => exact A.pure hfound
  | none =>
    cases subpath with
    | some below => exact h.probe _
    | none => exact gives_firstAnswer? h.probe _

theorem byPackage (h : Vouches A look Good) (start : Path) (specifier : String) :
    A.Gives (Names Good) (byPackage d look start specifier) := by
  unfold Resolver.byPackage
  obtain ⟨name, subpath⟩ := splitSpecifier specifier
  dsimp only
  cases installedAt? d start name with
  | some dir => exact h.inPackage dir subpath
  | none => exact A.pure names_none

theorem byBaseUrl (h : Vouches A look Good) (r : Resolver) (specifier : String) :
    A.Gives (Names Good) (byBaseUrl d look r specifier) := by
  unfold Resolver.byBaseUrl
  cases r.config?.bind ProjectConfig.baseUrl with
  | some base => exact h.probe _
  | none => exact A.pure names_none

/-- **Whatever names the file, it has been looked up.** -/
theorem find (h : Vouches A look Good) (r : Resolver) (specifier : String) (importer : Path) :
    A.Gives (Names Good) (find d look r specifier importer) := by
  unfold Resolver.find
  dsimp only
  refine A.bind (gives_firstAnswer? h.probe _) fun found hfound => ?_
  cases found with
  | some path => exact A.pure hfound
  | none =>
    dsimp only
    split_ifs
    · exact h.probe _
    · refine A.bind (h.byPackage _ specifier) fun found hfound => ?_
      cases found with
      | some path => exact A.pure hfound
      | none => exact h.byBaseUrl r specifier

end Vouches

end Vouches

/-! ## Without a memory -/

/-- The answer, if there is one, is a file of the disk. -/
def IsFound (d : Disk) (answer : Option Path) : Prop := ∀ path, answer = some path → d.isFile path = true

section Found

variable {d : Disk}

theorem vouches_direct (d : Disk) :
    Vouches .plain (Lookups.direct d) fun path => d.isFile path = true :=
  ⟨fun _ hfound => hfound, fun _ => trivial⟩

/-- **Whatever names the file, it is there.** -/
theorem isFound_find (r : Resolver) (specifier : String) (importer : Path) :
    IsFound d (find d (Lookups.direct d) r specifier importer) :=
  (vouches_direct d).find r specifier importer

/-- A specifier is resolved to a canonical path. -/
theorem canonical_of_resolve {r : Resolver} {specifier : String} {importer file : Path}
    (h : resolve d (Lookups.direct d) r specifier importer = some file) :
    ∃ path, d.canonical path = .ok file := by
  obtain ⟨path, hfind, hfile⟩ := Option.map_eq_some_iff.mp h
  obtain ⟨l, -, hl, -⟩ := Disk.isFile_iff.mp (isFound_find r specifier importer path hfind)
  have hcanonical : d.canonical path = .ok (Disk.pathOf l) := by
    unfold Disk.canonical
    rw [hl]
    rfl
  rw [hcanonical] at hfile
  exact ⟨path, hfile ▸ hcanonical⟩

end Found

end ComponentRegistry.Resolver
