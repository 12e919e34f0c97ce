import ComponentRegistry.Proofs.Disk.Ways

/-!
# Spellings of one path

Paths with the same components are spellings of one path.  A file can be asked for by some of them
only: those that end in a name and are not too long (`spelling_of_isFile`).  All of these agree on
whether a file is there, and on its text (`isFile_of_spelling`, `readText_of_spelling`).
-/

namespace ComponentRegistry

variable {d : Disk} {p q : Path}

/-- Paths with the same components begin alike and have the same names. -/
theorem Path.sameWay_of_components (h : p.components = q.components) : Path.SameWay p q := by
  have hstart : p.parts.1 = q.parts.1 := by
    cases hp : p.components with
    | cons c more =>
      have hhead : p.components.head? = some c := by rw [hp]; rfl
      exact (Path.startOf_head hhead).symm.trans (Path.startOf_head (h ▸ hhead))
    | nil =>
      have hnone : ∀ r : Path, r.components = [] → r.parts.1 = .none := by
        intro r hr
        have hanchor := (List.append_eq_nil_iff.mp ((Path.components_eq r).symm.trans hr)).1
        cases hr : r.parts.1 <;> simp [hr, Path.Anchor.components] at hanchor ⊢
      rw [hnone p hp, hnone q (h ▸ hp)]
  refine ⟨by unfold Path.isAbsolute; rw [hstart], ?_⟩
  rw [Path.components_eq p, Path.components_eq q, hstart] at h
  exact (List.map_injective_iff.mpr Path.ofName_injective (List.append_cancel_left h)).symm

/-- The file name of a path is its last name. -/
theorem Path.fileName?_eq (p : Path) :
    p.fileName? = p.names.getLast?.bind fun s => if s = dotDot then none else some s := by
  have hlast : (trimEnd p.parts.2).getLast? = p.names.getLast? := by
    unfold trimEnd
    rw [← p.filter_parts, List.getLast?_reverse, List.getLast?_eq_head?_reverse,
      ← List.filter_reverse, List.head?_filter, List.find?_eq_head?_dropWhile_not]
  unfold fileName?
  rw [hlast]
  cases p.names.getLast? <;> rfl

/-- Spellings of one path have one file name. -/
theorem Path.fileNameShown_of_components (h : p.components = q.components) :
    p.fileNameShown = q.fileNameShown := by
  unfold fileNameShown
  rw [fileName?_eq, fileName?_eq, (sameWay_of_components h).names]

theorem Path.endsInName_iff : p.EndsInName ↔ p.segments.getLast?.any Path.isStep = true := by
  simp [Path.EndsInName, Option.any_eq_true]

instance (p : Path) : Decidable p.EndsInName := decidable_of_iff _ Path.endsInName_iff.symm

namespace Disk

theorem isFile_iff : d.isFile p = true ↔
    ∃ l content, d.locate p = .ok l ∧ d.node? l = some (.file content) := by
  unfold isFile stat
  cases hl : d.locate p with
  | error e => simp
  | ok l =>
    cases hn : d.node? l with
    | none => simp [hn]
    | some n => cases n <;> simp [hn]

/-- What can be read is a file. -/
theorem isFile_of_readText {text : String} (h : d.readText p = .ok text) : d.isFile p = true := by
  unfold readText at h
  unfold isFile
  split at h <;> simp_all

/-- A path whose last segment is no name asks for a directory. -/
theorem getLast?_stepsOf_of_not (h : ¬ p.EndsInName) : (stepsOf p).getLast? = some .stay := by
  obtain ⟨s, hs⟩ : ∃ s, p.segments.getLast? = some s :=
    ⟨_, List.getLast?_eq_some_getLast p.segments_ne_nil⟩
  have hstep : Path.isStep s = false := by
    by_contra hne
    exact h ⟨s, hs, by simpa using hne⟩
  have hsegments : (Text.splitAt Path.separator p.glyphs).getLast? = some s := hs
  unfold stepsOf
  by_cases hnil : s = []
  · simp [hsegments, hnil]
  · obtain ⟨front, hfront⟩ := List.getLast?_eq_some_iff.mp hsegments
    simp [hfront, hnil, stepOf_eq, hstep, List.filterMap_append]

/-- Only a directory is where a way ends that stays last. -/
theorem directory_of_follow_stay {links : Nat} {here l : Location} {steps : List Step}
    (hlast : steps.getLast? = some .stay) (h : d.follow links here steps = .ok l) :
    d.node? l = some .directory := by
  obtain ⟨front, rfl⟩ := List.getLast?_eq_some_iff.mp hlast
  obtain ⟨m, hm⟩ := (leads_of_follow h).of_append
  obtain ⟨left, hleft⟩ := hm.append
  rw [hleft] at h
  have hd := directory_of_follow (by simp) h
  rw [follow_stay hd, follow_nil] at h
  cases h
  exact hd

/-- **A file is there under a spelling that ends in a name and is not too long.** -/
theorem spelling_of_isFile (h : d.isFile p = true) : p.EndsInName ∧ refusal? p = none := by
  obtain ⟨l, content, hl, hn⟩ := isFile_iff.mp h
  obtain ⟨hr, hfollow⟩ := of_locate hl
  refine ⟨?_, hr⟩
  by_contra hends
  have habsolute : ¬ (d.absolute p).EndsInName := by
    rintro ⟨s, hlast, hs⟩
    exact hends ⟨s, (Path.getLast?_segments_join _ p).symm.trans hlast, hs⟩
  rw [directory_of_follow_stay (getLast?_stepsOf_of_not habsolute) hfollow] at hn
  cases hn

/-- Spellings of one path that lead somewhere lead to one place. -/
theorem locate_of_spelling (h : p.components = q.components) (hq : q.EndsInName ∧ refusal? q = none)
    {l : Location} (hl : d.locate p = .ok l) : d.locate q = .ok l :=
  locate_of_sameWay (Path.sameWay_of_components h) hq.1 hq.2 hl

/-- A file is there under all spellings that a file can have, or under none. -/
theorem isFile_of_spelling (h : p.components = q.components) (hq : q.EndsInName ∧ refusal? q = none)
    (hp : d.isFile p = true) : d.isFile q = true := by
  obtain ⟨l, content, hl, hn⟩ := isFile_iff.mp hp
  exact isFile_iff.mpr ⟨l, content, locate_of_spelling h hq hl, hn⟩

/-- A file has one text, however it is spelled. -/
theorem readText_of_spelling (h : p.components = q.components) (hp : d.isFile p = true)
    (hq : d.isFile q = true) : d.readText p = d.readText q := by
  obtain ⟨l, content, hl, -⟩ := isFile_iff.mp hp
  unfold readText stat
  rw [hl, locate_of_spelling h (spelling_of_isFile hq) hl]

end Disk

end ComponentRegistry
