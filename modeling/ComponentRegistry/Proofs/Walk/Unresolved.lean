import ComponentRegistry.Proofs.Resolver.Relative
import ComponentRegistry.Proofs.Walk.Accounting
import ComponentRegistry.Proofs.Walk.FirstFailure

/-!
# Specifiers without a file

A specifier that no file is found for is refused if it is marked as the project's own, and declared if
it is not (`resolveImport_of_missing`).  A relative one is marked, and so is one that is captured by a
path mapping with text before its star (`marked_of_captured`), so neither is declared without a file.
A path from the root of the disk has no mark of its own (`unresolved_refused_iff`).
-/

namespace ComponentRegistry.Walk

/-- A path mapping with text before its star has the form of the specifier. -/
def Captured (r : Resolver) (specifier : String) : Prop :=
  ∃ mapping ∈ r.mappings, mapping.before ≠ "" ∧ ∃ captured, mapping.Matches specifier captured

section Missing

variable {p : Project} {r : Resolver} {specifier : String} {importer : Path} {c : Cache}

/-- A mapping marks what it captures. -/
theorem marked_of_captured (h : Captured r specifier) : Marked r specifier := by
  obtain ⟨mapping, hmapping, hbefore, captured, hmatches⟩ := h
  refine .inr (.inr ⟨mapping, hmapping, ?_⟩)
  unfold PathMapping.Matches at hmatches
  cases hafter : mapping.after? with
  | none =>
    rw [hafter] at hmatches
    exact .inr ⟨rfl, hmatches.1⟩
  | some after =>
    rw [hafter] at hmatches
    refine .inl ⟨after, rfl, hbefore, captured ++ after.toList, ?_⟩
    rw [hmatches, List.append_assoc]

/-- Without a file, the mark decides. -/
theorem resolveImport_of_missing
    (h : (Resolver.resolve p.disk (Cache.lookups p.disk) p.resolver specifier importer c).1 = none) :
    (Marked p.resolver specifier → (resolveImport p specifier importer c).1 =
      .error (.unresolvedImport specifier (importer.relative p.root))) ∧
    (¬ Marked p.resolver specifier → (resolveImport p specifier importer c).1 = .ok .external) := by
  have hanswer : (resolveImport p specifier importer c).1 = outcome p specifier importer none :=
    congrArg (outcome p specifier importer) h
  rw [hanswer, ← isLocal_iff]
  constructor
  · intro hlocal
    exact if_pos hlocal
  · intro hlocal
    exact if_neg hlocal

/-- In a walk that succeeds, a marked specifier is resolved to a file. -/
theorem file?_of_marked {w : Start} {m : Manifest} {s : Resolution} (hl : Loadable w.project w.entry)
    (hrun : w.run = .ok m) (hs : s ∈ w.resolutions)
    (hmarked : Marked w.project.resolver s.met.reference.specifier) : ∃ file, s.file? = some file := by
  cases hfile : s.file? with
  | some file => exact ⟨file, rfl⟩
  | none =>
    have hrefused : s.met.answer = .error (.unresolvedImport s.met.reference.specifier
        (s.met.importer.relative w.project.root)) := by
      rw [w.answer_eq hl hs, hfile]
      exact if_pos (isLocal_iff.mpr hmarked)
    have hfine := fine_of_run hrun (met_of_mem_resolutions hs)
    rw [Event.failure?, hrefused] at hfine
    cases hfine

/-- In a walk that succeeds, a specifier without a file is declared, and has no mark. -/
theorem declared_of_missing {w : Start} {m : Manifest} {s : Resolution}
    (hl : Loadable w.project w.entry) (hrun : w.run = .ok m) (hs : s ∈ w.resolutions)
    (hnone : s.file? = none) : ¬ Marked w.project.resolver s.met.reference.specifier ∧
      s.met.reference.specifier ∈ m.dependencies := by
  have hfree : ¬ Marked w.project.resolver s.met.reference.specifier := by
    intro hmarked
    obtain ⟨file, hfile⟩ := file?_of_marked hl hrun hs hmarked
    rw [hnone] at hfile
    cases hfile
  have hanswer : s.met.answer = .ok .external := by
    rw [w.answer_eq hl hs, hnone]
    exact if_neg fun hlocal => hfree (isLocal_iff.mp hlocal)
  exact ⟨hfree, (closure_of_run hl hrun).mem_dependencies_iff.mpr ⟨s, hs, hanswer, rfl⟩⟩

end Missing

/-- **Which specifiers are refused without a file.**  Of those that are paths and those that a mapping
with text before its star captures, the ones with a mark.  One without a mark is a path from the root of
the disk, no mapping captures it, and it is declared.  So in a walk to a manifest none with a mark is
left without a file, and one without a file is a dependency. -/
theorem unresolved_refused_iff {p : Project} {specifier : String} {importer : Path} {c : Cache}
    (hmissing :
      (Resolver.resolve p.disk (Cache.lookups p.disk) p.resolver specifier importer c).1 = none)
    (hown : Resolver.isPath specifier = true ∨ Captured p.resolver specifier) :
    (p.resolver.isLocal specifier = true ∧ (resolveImport p specifier importer c).1 =
        .error (.unresolvedImport specifier (importer.relative p.root)) ↔
      Marked p.resolver specifier) ∧
    (¬ Marked p.resolver specifier → (Path.ofString specifier).isAbsolute = true ∧
      ¬ Captured p.resolver specifier ∧ (resolveImport p specifier importer c).1 = .ok .external) ∧
    ∀ d config entry w m, prepare d config entry = .ok w → w.project = p →
      generate d config entry = .ok m → ∀ s ∈ w.resolutions,
        s.met.reference.specifier = specifier → s.file? = none →
          ¬ Marked p.resolver specifier ∧ specifier ∈ m.dependencies := by
  obtain ⟨hrefused, hdeclared⟩ := resolveImport_of_missing hmissing
  refine ⟨⟨fun h => isLocal_iff.mp h.1, fun h => ⟨isLocal_iff.mpr h, hrefused h⟩⟩, fun hfree => ?_, ?_⟩
  · have hcaptured : ¬ Captured p.resolver specifier := mt marked_of_captured hfree
    refine ⟨?_, hcaptured, hdeclared hfree⟩
    have hpath := hown.resolve_right hcaptured
    unfold Resolver.isPath at hpath
    rcases Bool.or_eq_true_iff.mp hpath with hdot | habsolute
    · exact absurd (.inl (Text.startsWith_iff.mp hdot)) hfree
    · exact habsolute
  · rintro d config entry w m hw rfl hm s hs rfl hnone
    obtain ⟨w', hw', hl, hrun, -⟩ := walk_of_generate hm
    obtain rfl := Except.ok.inj (hw.symm.trans hw')
    exact declared_of_missing hl hrun hs hnone

/-- A project with an alias for its parts, and a slip in the name of one. -/
def mistyped : Project where
  disk := .ofTexts [("p/button.ts", "import '~/icno';"), ("p/icon.ts", "")]
  config := .unset
  root := Path.ofString "/p"
  workspace := .absent
  resolver := ⟨some ⟨none, [⟨"~/", some "", ["./*"], Path.ofString "/p"⟩]⟩⟩

theorem mistyped_refused :
    (Resolver.resolve mistyped.disk (Cache.lookups mistyped.disk) mistyped.resolver "~/icno"
        (Path.ofString "/p/button.ts") .empty).1 = none ∧
      (resolveImport mistyped "~/icno" (Path.ofString "/p/button.ts") .empty).1 =
        .error (.unresolvedImport "~/icno" (Path.ofString "button.ts")) := by
  have hmissing : (Resolver.resolve mistyped.disk (Cache.lookups mistyped.disk) mistyped.resolver
      "~/icno" (Path.ofString "/p/button.ts") .empty).1 = none := by
    decide +kernel
  have hcaptured : Captured mistyped.resolver "~/icno" :=
    ⟨_, List.mem_singleton_self _, by decide, "icno".toList,
      PathMapping.capture?_eq_some_iff.mp (by decide +kernel)⟩
  have himporter : (Path.ofString "/p/button.ts").relative mistyped.root =
      Path.ofString "button.ts" := by
    decide +kernel
  obtain ⟨hrefused, -⟩ := unresolved_refused_iff hmissing (.inr hcaptured)
  have herror := (hrefused.mpr (marked_of_captured hcaptured)).2
  rw [himporter] at herror
  exact ⟨hmissing, herror⟩

/-- A path from the root of the disk, which leads nowhere, becomes a dependency. -/
def rooted : Disk := .ofTexts [
  ("p/package.json", "\x7b\x7d"),
  ("p/button.ts", "import '/missing/icon';")]

def rootedManifest : Manifest where
  name := "button"
  type := some .lib
  dependencies := ["/missing/icon"]
  devDependencies := []
  registryDependencies := []
  files := [⟨"button.ts", "import '/missing/icon';", .lib⟩]

theorem rooted_declared : Resolver.isPath "/missing/icon" = true ∧
    generate rooted .unset (Path.ofString "/p/button.ts") = .ok rootedManifest ∧
    "/missing/icon" ∈ rootedManifest.dependencies ∧
    ∃ w, prepare rooted .unset (Path.ofString "/p/button.ts") = .ok w ∧
      w.resolutions.map (fun s => (s.met.reference.specifier, s.file?)) = [("/missing/icon", none)] := by
  have hpath : Resolver.isPath "/missing/icon" = true := by decide +kernel
  have hgenerated : generate rooted .unset (Path.ofString "/p/button.ts") = .ok rootedManifest := by
    decide +kernel
  exact ⟨hpath, hgenerated, by decide, exists_ok_and (by decide +kernel)⟩

end ComponentRegistry.Walk
