import ComponentRegistry.Disk.Edit
import ComponentRegistry.Proofs.Disk.Places

/-!
# Disks that grow

A disk grows when nodes are added and files get other contents, while directories and links stay
what they are (`Grows`).  On a disk that has grown every path that led somewhere leads to the same
place.  Putting a file or a directory where nothing stands, or a file in place of a file, makes a
disk grow (`grows_put`); where nothing stands, the files keep their contents too (`Extends`).
-/

namespace ComponentRegistry.Disk

variable {d d' d'' : Disk} {l : Location} {n : Node}

/-! ## Putting nodes -/

theorem node?_eq_map_find? (d : Disk) (hl : l ≠ []) :
    d.node? l = (d.nodes.find? fun e => e.1 = l).map (·.2) := by
  cases l with
  | nil => exact absurd rfl hl
  | cons name rest => rfl

/-- Replacing the nodes at a place changes what is found there only. -/
theorem find?_replace (nodes : List (Location × Node)) (l l' : Location) (n : Node) :
    ((nodes.map fun e => if e.1 = l then (l, n) else e).find? fun e => e.1 = l').map (·.2) =
      if l' = l ∧ nodes.any (fun e => e.1 = l) then some n
      else (nodes.find? fun e => e.1 = l').map (·.2) := by
  induction nodes with
  | nil => simp
  | cons e nodes ih =>
    rw [List.map_cons, List.find?_cons, List.find?_cons, List.any_cons]
    by_cases he : e.1 = l
    · by_cases hl : l' = l
      · simp [he, hl]
      · have hl' : ¬ l = l' := fun h => hl h.symm
        simp only [he, hl, hl', if_true, decide_false, false_and, if_false] at ih ⊢
        exact ih
    · by_cases hl : e.1 = l'
      · have hne : ¬ l' = l := fun h => he (hl.trans h)
        simp [hl, hne]
      · simp only [he, hl, if_false, decide_false, Bool.false_or]
        exact ih

/-- At the place itself stands the new node, and elsewhere what stood there. -/
theorem node?_put (d : Disk) (hl : l ≠ []) (n : Node) (l' : Location) :
    (d.put l n).node? l' = if l' = l then some n else d.node? l' := by
  by_cases hnil : l' = []
  · subst hnil
    rw [if_neg (Ne.symm hl)]
    rfl
  rw [node?_eq_map_find? _ hnil, node?_eq_map_find? _ hnil]
  unfold put
  split_ifs with hany heq heq
  · exact (find?_replace d.nodes l l' n).trans (if_pos ⟨heq, hany⟩)
  · exact (find?_replace d.nodes l l' n).trans (if_neg fun h => heq h.1)
  · have hnone : d.nodes.find? (fun e => e.1 = l') = none := by
      rw [List.find?_eq_none]
      intro e he hel
      exact hany (List.any_eq_true.mpr ⟨e, he, by simpa [heq] using hel⟩)
    rw [List.find?_append, hnone]
    simp [heq]
  · have hne : ¬ l = l' := fun h => heq h.symm
    rw [List.find?_append]
    simp [hne]

@[simp] theorem workingDirectory_put (d : Disk) (l : Location) (n : Node) :
    (d.put l n).workingDirectory = d.workingDirectory := by
  unfold put
  split_ifs <;> rfl

/-- Putting the same node again changes nothing. -/
theorem put_put (d : Disk) (l : Location) (n : Node) : (d.put l n).put l n = d.put l n := by
  by_cases hany : d.nodes.any (fun e => e.1 = l) = true
  · have hput : d.put l n =
        ⟨d.nodes.map fun e => if e.1 = l then (l, n) else e, d.workingDirectory⟩ := if_pos hany
    have hany' : (d.nodes.map fun e => if e.1 = l then (l, n) else e).any (fun e => e.1 = l) = true := by
      obtain ⟨e, he, hel⟩ := List.any_eq_true.mp hany
      refine List.any_eq_true.mpr ⟨(l, n), List.mem_map.mpr ⟨e, he, ?_⟩, by simp⟩
      rw [if_pos (by simpa using hel)]
    rw [hput]
    unfold put
    rw [if_pos hany', List.map_map]
    congr 1
    refine List.map_congr_left fun e _ => ?_
    by_cases he : e.1 = l
    · simp [he]
    · simp [he]
  · have hput : d.put l n = ⟨d.nodes ++ [(l, n)], d.workingDirectory⟩ := if_neg hany
    have hany' : (d.nodes ++ [(l, n)]).any (fun e => e.1 = l) = true := by simp
    have hsame : ∀ e ∈ d.nodes, (if e.1 = l then (l, n) else e) = e := by
      intro e he
      rw [if_neg]
      intro hel
      exact hany (List.any_eq_true.mpr ⟨e, he, by simpa using hel⟩)
    rw [hput]
    unfold put
    rw [if_pos hany', List.map_append, List.map_congr_left hsame]
    simp

/-! ## Growth -/

/-- What may stand at a place of a node: a directory and a link stay, and a file stays a file. -/
inductive SameKind : Node → Node → Prop where
  | directory : SameKind .directory .directory
  | link (target : Path) : SameKind (.link target) (.link target)
  | file (c c' : Content) : SameKind (.file c) (.file c')

theorem SameKind.refl (n : Node) : SameKind n n := by
  cases n with
  | directory => exact .directory
  | file c => exact .file c c
  | link target => exact .link target

theorem SameKind.trans {a b c : Node} (h : SameKind a b) (h' : SameKind b c) : SameKind a c := by
  cases h with
  | directory => exact h'
  | link target => exact h'
  | file c₁ c₂ => cases h' with | file _ c₃ => exact .file c₁ c₃

/-- Whatever stands on `d` stands on `d'`, and only contents of files differ. -/
structure Grows (d d' : Disk) : Prop where
  workingDirectory : d'.workingDirectory = d.workingDirectory
  node : ∀ l n, d.node? l = some n → ∃ n', d'.node? l = some n' ∧ SameKind n n'

theorem Grows.refl (d : Disk) : Grows d d := ⟨rfl, fun _ n hn => ⟨n, hn, .refl n⟩⟩

theorem Grows.trans (h : Grows d d') (h' : Grows d' d'') : Grows d d'' := by
  refine ⟨h'.workingDirectory.trans h.workingDirectory, fun l n hn => ?_⟩
  obtain ⟨n', hn', hkind⟩ := h.node l n hn
  obtain ⟨n'', hn'', hkind'⟩ := h'.node l n' hn'
  exact ⟨n'', hn'', hkind.trans hkind'⟩

/-- A place that is free can be taken by anything, and that of a file by another file. -/
theorem grows_put (hl : l ≠ []) (h : ∀ n', d.node? l = some n' → SameKind n' n) :
    Grows d (d.put l n) := by
  refine ⟨workingDirectory_put d l n, fun l' n' hn' => ?_⟩
  rw [node?_put d hl]
  by_cases heq : l' = l
  · rw [if_pos heq]
    exact ⟨n, rfl, h n' (heq ▸ hn')⟩
  · rw [if_neg heq]
    exact ⟨n', hn', .refl n'⟩

/-- Whatever stands on `d` stands on `d'` as it is. -/
structure Extends (d d' : Disk) : Prop where
  workingDirectory : d'.workingDirectory = d.workingDirectory
  node : ∀ l n, d.node? l = some n → d'.node? l = some n

theorem Extends.refl (d : Disk) : Extends d d := ⟨rfl, fun _ _ hn => hn⟩

theorem Extends.trans (h : Extends d d') (h' : Extends d' d'') : Extends d d'' :=
  ⟨h'.workingDirectory.trans h.workingDirectory, fun l n hn => h'.node l n (h.node l n hn)⟩

theorem Extends.grows (h : Extends d d') : Grows d d' :=
  ⟨h.workingDirectory, fun l n hn => ⟨n, h.node l n hn, .refl n⟩⟩

theorem extends_put (hl : l ≠ []) (h : d.node? l = none) : Extends d (d.put l n) := by
  refine ⟨workingDirectory_put d l n, fun l' n' hn' => ?_⟩
  have hne : l' ≠ l := by
    rintro rfl
    rw [h] at hn'
    cases hn'
  rw [node?_put d hl, if_neg hne]
  exact hn'

section Grows

variable {p : Path} {links : Nat} {here : Location} {steps : List Step}

theorem Grows.directory (h : Grows d d') (hn : d.node? l = some .directory) :
    d'.node? l = some .directory := by
  obtain ⟨n', hn', hkind⟩ := h.node l _ hn
  cases hkind
  exact hn'

theorem Grows.takeStep (h : Grows d d') {step : Step} {a : Arrival}
    (hs : d.takeStep here step = .ok a) : d'.takeStep here step = .ok a := by
  cases step with
  | toRoot => exact hs
  | stay =>
    simp only [Disk.takeStep] at hs ⊢
    split_ifs at hs with hd
    rw [if_pos (h.directory hd)]
    exact hs
  | up =>
    simp only [Disk.takeStep] at hs ⊢
    split_ifs at hs with hd
    rw [if_pos (h.directory hd)]
    exact hs
  | down name =>
    simp only [Disk.takeStep, ne_eq, ite_not] at hs ⊢
    split_ifs at hs with hd hlimit
    rw [if_pos (h.directory hd), if_neg hlimit]
    cases hn : d.node? (here ++ [name]) with
    | none => rw [hn] at hs; cases hs
    | some n =>
      obtain ⟨n', hn', hkind⟩ := h.node _ n hn
      rw [hn] at hs
      rw [hn']
      cases hkind with
      | directory => exact hs
      | link target => exact hs
      | file c c' => exact hs

theorem Grows.leads (h : Grows d d') (hl : Leads d links here steps l) :
    Leads d' links here steps l := by
  induction hl with
  | nil => exact .nil
  | place hs _ ih => exact .place (h.takeStep hs) ih
  | link hs _ ih => exact .link (h.takeStep hs) ih

theorem Grows.follow (h : Grows d d') (hf : d.follow links here steps = .ok l) :
    d'.follow links here steps = .ok l :=
  (h.leads (leads_of_follow hf)).follow

theorem Grows.absolute (h : Grows d d') (p : Path) : d'.absolute p = d.absolute p := by
  unfold Disk.absolute
  rw [h.workingDirectory]

/-- **Every path that led somewhere leads to the same place.** -/
theorem Grows.locate (h : Grows d d') (hl : d.locate p = .ok l) : d'.locate p = .ok l := by
  unfold Disk.locate at hl ⊢
  split at hl
  · cases hl
  · rw [h.absolute]
    exact h.follow hl

/-- What a path leads to is of the same kind. -/
theorem Grows.stat (h : Grows d d') (hs : d.stat p = .ok n) :
    ∃ n', d'.stat p = .ok n' ∧ SameKind n n' := by
  unfold Disk.stat at hs ⊢
  cases hl : d.locate p with
  | error e => rw [hl] at hs; cases hs
  | ok l =>
    cases hn : d.node? l with
    | none => simp [hl, hn] at hs
    | some m =>
      simp only [hl, hn, Option.elim_some] at hs
      cases hs
      obtain ⟨n', hn', hkind⟩ := h.node l _ hn
      exact ⟨n', by simp [h.locate hl, hn'], hkind⟩

theorem isDirectory_iff : d.isDirectory p = true ↔ d.stat p = .ok .directory := by
  unfold Disk.isDirectory
  split <;> simp_all

theorem Grows.isDirectory (h : Grows d d') (hd : d.isDirectory p = true) : d'.isDirectory p = true := by
  obtain ⟨n', hs, hkind⟩ := h.stat (isDirectory_iff.mp hd)
  cases hkind
  exact isDirectory_iff.mpr hs

/-- What there was is a directory if it was one, and a file if it was one. -/
theorem Grows.kind_eq (h : Grows d d') (hp : d.has p = true) :
    d'.has p = true ∧ d'.isDirectory p = d.isDirectory p ∧ d'.isFile p = d.isFile p := by
  cases hs : d.stat p with
  | error e => rw [Disk.has, hs] at hp; cases hp
  | ok n =>
    obtain ⟨n', hs', hkind⟩ := h.stat hs
    unfold Disk.has Disk.isDirectory Disk.isFile
    rw [hs, hs']
    cases hkind <;> exact ⟨rfl, rfl, rfl⟩

end Grows

end ComponentRegistry.Disk
