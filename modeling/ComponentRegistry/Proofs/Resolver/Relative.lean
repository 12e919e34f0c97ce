import ComponentRegistry.Proofs.Disk.Places
import ComponentRegistry.Resolver.Cache
import Mathlib.Data.List.Basic

/-!
# Relative specifiers

What a relative specifier is resolved to: the first file among those that the path mappings offer
for it and those that it stands for as seen from the directory of its importer, in this order
(`resolve_relative`).  The base directory and the packages do not count; and where no mapping has
the form of the specifier, the configuration does not count at all.
-/

namespace ComponentRegistry

/-! ## Forms of mappings -/

theorem Text.stripEnd?_eq_some_iff {α : Type} [DecidableEq α] {p s r : List α} :
    Text.stripEnd? p s = some r ↔ s = r ++ p := by
  unfold Text.stripEnd?
  rw [Option.map_eq_some_iff]
  constructor
  · rintro ⟨t, ht, rfl⟩
    rw [Text.stripStart?_eq_some_iff] at ht
    rw [← List.reverse_reverse s, ht]
    simp
  · rintro rfl
    exact ⟨r.reverse, Text.stripStart?_eq_some_iff.mpr (by simp), by simp⟩

namespace PathMapping

/-- The specifier has the form of the mapping, with this text for the star. -/
def Matches (m : PathMapping) (specifier : String) (captured : List Char) : Prop :=
  match m.after? with
  | none => specifier = m.before ∧ captured = []
  | some after => specifier.toList = m.before.toList ++ captured ++ after.toList

theorem capture?_eq_some_iff {m : PathMapping} {specifier : String} {captured : List Char} :
    m.capture? specifier = some captured ↔ m.Matches specifier captured := by
  unfold capture? Matches
  cases m.after? with
  | none =>
    by_cases h : specifier = m.before
    · simp [h, eq_comm]
    · simp [h]
  | some after =>
    simp only [Option.bind_eq_some_iff, Text.stripStart?_eq_some_iff, Text.stripEnd?_eq_some_iff]
    constructor
    · rintro ⟨rest, hrest, rfl⟩
      rw [hrest, List.append_assoc]
    · intro h
      exact ⟨_, by rw [h, List.append_assoc], rfl⟩

/-- The mapping sends no specifier that begins with a dot: the text before its star begins with
something else, or there is no star and no dot. -/
def SparesDots (m : PathMapping) : Prop :=
  m.before.toList.head? ≠ some '.' ∧ (m.before.toList = [] → m.after? = none)

theorem not_matches_of_sparesDots {m : PathMapping} {specifier : String} {captured : List Char}
    (h : m.SparesDots) (hdot : specifier.toList.head? = some '.') : ¬ m.Matches specifier captured := by
  obtain ⟨hbefore, hstar⟩ := h
  intro hm
  unfold Matches at hm
  cases hafter : m.after? with
  | none =>
    rw [hafter] at hm
    rw [hm.1] at hdot
    exact hbefore hdot
  | some after =>
    rw [hafter] at hm
    by_cases hnil : m.before.toList = []
    · rw [hstar hnil] at hafter
      cases hafter
    · simp only at hm
      rw [hm, List.append_assoc, List.head?_append_of_ne_nil _ hnil] at hdot
      exact hbefore hdot

end PathMapping

namespace Resolver

/-! ## What is tried -/

/-- The specifier is `.` or `..`, or it begins with one of them and a slash. -/
def IsRelative (specifier : String) : Prop :=
  specifier = "." ∨ specifier = ".." ∨ "./".toList <+: specifier.toList ∨
    "../".toList <+: specifier.toList

theorem IsRelative.head? {specifier : String} (h : IsRelative specifier) :
    specifier.toList.head? = some '.' := by
  rcases h with rfl | rfl | ⟨rest, hrest⟩ | ⟨rest, hrest⟩
  · decide
  · decide
  · rw [← hrest]; rfl
  · rw [← hrest]; rfl

theorem IsRelative.isPath {specifier : String} (h : IsRelative specifier) : isPath specifier = true := by
  obtain ⟨rest, hrest⟩ := List.head?_eq_some_iff.mp h.head?
  unfold Resolver.isPath Text.startsWith
  rw [hrest]
  simp [Text.stripStart?]

/-- The files that a path may stand for on a disk. -/
def candidatesAt (d : Disk) (path : Path) : List Path := candidates (d.isDirectory path) path

/-- The files that the path mappings offer for a specifier, in the order they are tried. -/
def offered (d : Disk) (r : Resolver) (specifier : String) : List Path :=
  (r.mappings.flatMap fun mapping =>
    ((mapping.capture? specifier).map mapping.destinations).getD []).flatMap (candidatesAt d)

/-- The files that a specifier stands for as seen from its importer, in the order they are tried. -/
def beside (d : Disk) (specifier : String) (importer : Path) : List Path :=
  candidatesAt d (importer.parent?.getD importer / specifier)

/-- The path of a file with its links resolved. -/
def resolved (d : Disk) (path : Path) : Path := (d.canonical path).toOption.getD path

section Offered

variable {d : Disk} {r : Resolver} {specifier : String} {path : Path}

theorem mem_offered : path ∈ offered d r specifier ↔
    ∃ mapping ∈ r.mappings, ∃ captured, mapping.Matches specifier captured ∧
      ∃ target ∈ mapping.targets,
        path ∈ candidatesAt d (mapping.base / PathMapping.fill target captured) := by
  unfold offered
  simp only [List.mem_flatMap]
  constructor
  · rintro ⟨q, ⟨mapping, hmapping, hq⟩, hpath⟩
    cases hcapture : mapping.capture? specifier with
    | none => rw [hcapture] at hq; cases hq
    | some captured =>
      rw [hcapture] at hq
      obtain ⟨target, htarget, rfl⟩ := List.mem_map.mp hq
      exact ⟨mapping, hmapping, captured, PathMapping.capture?_eq_some_iff.mp hcapture, target,
        htarget, hpath⟩
  · rintro ⟨mapping, hmapping, captured, hmatches, target, htarget, hpath⟩
    refine ⟨_, ⟨mapping, hmapping, ?_⟩, hpath⟩
    rw [PathMapping.capture?_eq_some_iff.mpr hmatches]
    exact List.mem_map_of_mem htarget

/-- Nothing is offered if no mapping has the form of the specifier. -/
theorem offered_eq_nil (h : ∀ mapping ∈ r.mappings, ∀ captured, ¬ mapping.Matches specifier captured) :
    offered d r specifier = [] := by
  rw [List.eq_nil_iff_forall_not_mem]
  intro path hpath
  obtain ⟨mapping, hmapping, captured, hmatches, -⟩ := mem_offered.mp hpath
  exact h mapping hmapping captured hmatches

end Offered

/-! ## Order of questions -/

section Questions

variable {m : Type → Type} [Monad m] [LawfulMonad m] (look : Lookups m) (d : Disk)

theorem firstFile?_append (xs ys : List Path) :
    firstFile? look (xs ++ ys) = firstFile? look xs >>= fun found =>
      (match found with
        | some path => pure (some path)
        | none => firstFile? look ys) := by
  induction xs with
  | nil => simp [firstFile?]
  | cons x xs ih =>
    rw [List.cons_append, firstFile?, firstFile?, ih, bind_assoc]
    refine bind_congr fun found => ?_
    cases found <;> simp

/-- The first answer for several paths is the first file of all that they stand for. -/
theorem firstAnswer?_probe (xs : List Path) :
    firstAnswer? (probe d look) xs = firstFile? look (xs.flatMap (candidatesAt d)) := by
  induction xs with
  | nil => rfl
  | cons x xs ih =>
    rw [List.flatMap_cons, firstFile?_append, firstAnswer?, ih]
    rfl

theorem byMappings_eq (r : Resolver) (specifier : String) :
    byMappings d look r specifier = firstFile? look (offered d r specifier) :=
  firstAnswer?_probe look d _

end Questions

/-! ## Relative specifiers -/

/-- Mappings that were read stand in the order of the texts before their stars, longest first. -/
theorem mappings_sorted (d : Disk) (start : Path) :
    (around d start).mappings.Pairwise fun a b => b.weight ≤ a.weight := by
  have hsettings : ∀ s : ProjectConfig.Settings,
      s.mappings.Pairwise fun a b => b.weight ≤ a.weight := by
    intro s
    unfold ProjectConfig.Settings.mappings
    split
    · exact .nil
    · refine (List.pairwise_mergeSort ?_ ?_ _).imp fun {a b} hab => of_decide_eq_true hab
      · intro a b c hab hbc
        simp only [decide_eq_true_eq] at hab hbc ⊢
        omega
      · intro a b
        simp only [Bool.or_eq_true, decide_eq_true_eq]
        omega
  unfold mappings around
  cases hfound : ProjectConfig.discover d start with
  | none => exact .nil
  | some c =>
    unfold ProjectConfig.discover ProjectConfig.load at hfound
    obtain ⟨file, -, hload⟩ := Option.bind_eq_some_iff.mp hfound
    obtain ⟨s, -, rfl⟩ := Option.map_eq_some_iff.mp hload
    exact hsettings s

section Relative

variable {m : Type → Type} [Monad m] [LawfulMonad m] (look : Lookups m) (d : Disk) (r : Resolver)
  {specifier : String} (importer : Path)

/-- A relative specifier is the first file that the mappings offer for it, or else the first one
beside its importer. -/
theorem find_relative (h : IsRelative specifier) :
    find d look r specifier importer =
      firstFile? look (offered d r specifier ++ beside d specifier importer) := by
  unfold find
  rw [firstFile?_append, byMappings_eq]
  refine bind_congr fun found => ?_
  cases found with
  | some path => rfl
  | none =>
    simp only
    rw [if_pos h.isPath]
    rfl

/-- **What a relative specifier is resolved to.**  The files that are offered by mappings of its form
come first, the mappings with longer texts before their stars earlier; the files beside the importer
are next, and there is nothing else.  Without a configuration only the latter are tried, and so it
is if no mapping has the form of the specifier. -/
theorem resolve_relative (h : IsRelative specifier) :
    resolve d look r specifier importer = Option.map (resolved d) <$>
        firstFile? look (offered d r specifier ++ beside d specifier importer) ∧
      resolve d look ⟨none⟩ specifier importer =
        Option.map (resolved d) <$> firstFile? look (beside d specifier importer) ∧
      (∀ path, path ∈ offered d r specifier ↔
        ∃ mapping ∈ r.mappings, ∃ captured, mapping.Matches specifier captured ∧
          ∃ target ∈ mapping.targets,
            path ∈ candidatesAt d (mapping.base / PathMapping.fill target captured)) ∧
      (∀ start, r = around d start → r.mappings.Pairwise fun a b => b.weight ≤ a.weight) ∧
      ((∀ mapping ∈ r.mappings, mapping.SparesDots ∨
          ∀ captured, ¬ mapping.Matches specifier captured) →
        resolve d look r specifier importer = resolve d look ⟨none⟩ specifier importer) := by
  have hresolve : ∀ r' : Resolver, resolve d look r' specifier importer = Option.map (resolved d) <$>
      firstFile? look (offered d r' specifier ++ beside d specifier importer) := by
    intro r'
    rw [← find_relative look d r' importer h]
    exact (map_eq_pure_bind ..).symm
  have hnone : offered d ⟨none⟩ specifier = [] := offered_eq_nil (by simp [mappings])
  refine ⟨hresolve r, ?_, fun path => mem_offered, ?_, fun hspares => ?_⟩
  · rw [hresolve, hnone, List.nil_append]
  · rintro start rfl
    exact mappings_sorted d start
  · have hoffered : offered d r specifier = [] := by
      refine offered_eq_nil fun mapping hmapping captured => ?_
      rcases hspares mapping hmapping with hdots | hother
      · exact PathMapping.not_matches_of_sparesDots hdots h.head?
      · exact hother captured
    rw [hresolve, hresolve, hoffered, hnone]

end Relative

/-- A configuration whose mappings stand in order already. -/
theorem load_of_sorted (d : Disk) (file : Path) (base : Option Path) (mappings : List PathMapping)
    (h : (ProjectConfig.settings? d ProjectConfig.extendsLimit file).map (fun s =>
      (s.baseUrl, (s.paths.map fun (members, dir) =>
        members.filterMap (PathMapping.ofMember? (s.baseUrl.getD dir))).getD [])) =
          some (base, mappings))
    (hsorted : mappings.Pairwise fun a b => b.weight ≤ a.weight) :
    ProjectConfig.load d file = some ⟨base, mappings⟩ := by
  obtain ⟨s, hs, heq⟩ := Option.map_eq_some_iff.mp h
  obtain ⟨rfl, hmappings⟩ := Prod.mk.inj heq
  unfold ProjectConfig.load
  rw [hs, Option.map_some]
  congr 2
  unfold ProjectConfig.Settings.mappings
  cases hpaths : s.paths with
  | none => rw [hpaths] at hmappings; exact hmappings
  | some entry =>
    rw [hpaths] at hmappings
    simp only [Option.map_some, Option.getD_some] at hmappings
    simp only [hmappings]
    exact List.mergeSort_of_pairwise (by simpa using hsorted)

/-- A project with the same module beside a component and among its sources. -/
def doubled : Disk := .ofTexts [
  ("p/tsconfig.json",
    "\x7b\"compilerOptions\":\x7b\"paths\":\x7b\"*\":[\"./src/*\"]\x7d\x7d\x7d"),
  ("p/app/button.ts", "import './utils';"),
  ("p/app/utils.ts", ""),
  ("p/src/utils.ts", "")]

/-- An alias for the sources, as most projects have it. -/
def sourcesAlias : Resolver :=
  ⟨some ⟨none, [⟨"@/", some "", ["./src/*"], Path.ofString "/p"⟩]⟩⟩

theorem alias_relative : IsRelative "./utils" ∧
    resolve doubled (Cache.lookups doubled) sourcesAlias "./utils" (Path.ofString "/p/app/button.ts") =
      resolve doubled (Cache.lookups doubled) ⟨none⟩ "./utils" (Path.ofString "/p/app/button.ts") := by
  have hrelative : IsRelative "./utils" := .inr (.inr (.inl (by decide)))
  obtain ⟨-, -, -, -, hspares⟩ := resolve_relative (Cache.lookups doubled) doubled sourcesAlias
    (Path.ofString "/p/app/button.ts") hrelative
  refine ⟨hrelative, hspares fun mapping hmapping => Or.inl ?_⟩
  rw [List.mem_singleton.mp hmapping]
  exact ⟨by decide, by decide⟩

/-- A mapping for everything takes the module beside the importer away. -/
theorem catchAll_ne :
    around doubled (Path.ofString "/p/app") =
        ⟨some ⟨none, [⟨"", some "", ["./src/*"], Path.ofString "/p"⟩]⟩⟩ ∧
      IsRelative "./utils" ∧
      (resolve doubled (Cache.lookups doubled) (around doubled (Path.ofString "/p/app")) "./utils"
        (Path.ofString "/p/app/button.ts") .empty).1 = some (Path.ofString "/p/src/utils.ts") ∧
      (resolve doubled (Cache.lookups doubled) ⟨none⟩ "./utils"
        (Path.ofString "/p/app/button.ts") .empty).1 = some (Path.ofString "/p/app/utils.ts") := by
  have hfile : doubled.fileUpward? (Path.ofString "/p/app") ProjectConfig.fileNames =
      some (Path.ofString "/p/tsconfig.json") := by
    decide +kernel
  have hload := load_of_sorted doubled (Path.ofString "/p/tsconfig.json") none
    [⟨"", some "", ["./src/*"], Path.ofString "/p"⟩] (by decide +kernel) (by decide +kernel)
  have haround : around doubled (Path.ofString "/p/app") =
      ⟨some ⟨none, [⟨"", some "", ["./src/*"], Path.ofString "/p"⟩]⟩⟩ := by
    unfold around ProjectConfig.discover
    rw [hfile, Option.bind_some, hload]
  rw [haround]
  exact ⟨rfl, .inr (.inr (.inl (by decide))), by decide +kernel, by decide +kernel⟩

end Resolver

end ComponentRegistry
