import ComponentRegistry.Proofs.Disk.Canonical
import ComponentRegistry.Proofs.Path.Below

/-!
# Ways to paths below

What lies below a path is reached through a directory (`directory_of_below`), and in it stands the
first segment (`entry_of_below`).  Such a path has a byte for each of its names at least
(`length_le_byteCount`).
-/

namespace ComponentRegistry.Disk

variable {d : Disk} {p : Path} {s : String} {segments : List String} {l m : Location}

theorem isEmpty_of_isAbsolute (hp : p.isAbsolute = true) : p.isEmpty = false := by
  rw [Path.isAbsolute_iff_head?] at hp
  cases h : p.glyphs with
  | nil => rw [h] at hp; cases hp
  | cons g gs => simp [Path.isEmpty, h]

theorem absolute_of_isAbsolute (hp : p.isAbsolute = true) : d.absolute p = p :=
  Path.join_of_isAbsolute _ hp

/-- The turns of segments. -/
def turnsBelow (segments : List String) : List Step :=
  ((segments.map fun s => Text.ofChars s.toList).filter Path.isStep).map turn

/-- The turns of a path below another one come behind those of the other one. -/
theorem turnsOf_below (hp : p.isAbsolute = true) (h : ∀ s ∈ segments, Path.IsSegment s) :
    turnsOf (p.below segments) = turnsOf p ++ turnsBelow segments := by
  unfold turnsOf turnsBelow
  rw [Path.isAbsolute_below hp, hp, Path.names_below p h, List.map_append, List.append_assoc]

/-- The turns of an absolute path lead where the path leads. -/
theorem follow_turnsOf_of_locate (hp : p.isAbsolute = true) (hl : d.locate p = .ok l) :
    d.follow linkLimit [] (turnsOf p) = .ok l := by
  have hfollow := follow_turnsOf (of_locate hl).2
  rwa [absolute_of_isAbsolute hp] at hfollow

/-- An absolute path leads to the directory that its turns lead to. -/
theorem locate_of_directory (hp : p.isAbsolute = true) (hr : refusal? p = none)
    (h : d.follow linkLimit [] (turnsOf p) = .ok l) (hd : d.node? l = some .directory) :
    d.locate p = .ok l := by
  obtain ⟨body, hsteps, hroot, hturns⟩ := stepsOf_eq p
  refine locate_eq hr ?_
  rw [absolute_of_isAbsolute hp, hsteps]
  exact follow_of_turns hroot hturns hd h

theorem glyphs_isPrefix_below (p : Path) (h : ∀ s ∈ segments, Path.IsSegment s) :
    p.glyphs <+: (p.below segments).glyphs := by
  induction segments generalizing p with
  | nil => exact List.prefix_refl _
  | cons s rest ih =>
    have hs := Path.isAbsolute_of_isSegment (h s List.mem_cons_self)
    have htail : ∀ t ∈ rest, Path.IsSegment t := fun t ht => h t (List.mem_cons_of_mem _ ht)
    exact (Path.glyphs_prefix_join p hs).trans (ih (p / s) htail)

theorem refusal?_of_below (hp : p.isAbsolute = true) (h : ∀ s ∈ segments, Path.IsSegment s)
    (hr : refusal? (p.below segments) = none) : refusal? p = none :=
  refusal?_of_sublist (isEmpty_of_isAbsolute hp) (glyphs_isPrefix_below p h).sublist hr

/-- **What lies below a path is reached through a directory**, and so is a directory that the
segments do not lead away from. -/
theorem directory_of_below (hp : p.isAbsolute = true) (h : ∀ s ∈ segments, Path.IsSegment s)
    (hl : d.locate (p.below segments) = .ok l)
    (hreach : (∃ s ∈ segments, Path.isStep (Text.ofChars s.toList) = true) ∨
      d.node? l = some .directory) :
    ∃ m, d.locate p = .ok m ∧ d.node? m = some .directory := by
  have hturns := follow_turnsOf_of_locate (Path.isAbsolute_below hp segments) hl
  rw [turnsOf_below hp h] at hturns
  obtain ⟨m, hm⟩ := (leads_of_follow hturns).of_append
  obtain ⟨left, hleft⟩ := hm.append
  rw [hleft] at hturns
  have hd : d.node? m = some .directory := by
    cases hsteps : (segments.map fun s => Text.ofChars s.toList).filter Path.isStep with
    | cons t more =>
      rw [turnsBelow, hsteps] at hturns
      exact directory_of_follow (turn_ne_toRoot t) hturns
    | nil =>
      rw [turnsBelow, hsteps, List.map_nil, follow_nil] at hturns
      obtain rfl := Except.ok.inj hturns
      refine hreach.resolve_left fun ⟨s, hs, hstep⟩ => ?_
      rw [List.filter_eq_nil_iff] at hsteps
      exact hsteps _ (List.mem_map_of_mem hs) hstep
  exact ⟨m, locate_of_directory hp (refusal?_of_below hp h (of_locate hl).1) hm.follow hd, hd⟩

/-- A path below a directory begins with what stands in the directory. -/
theorem entry_of_below (hp : p.isAbsolute = true) (h : ∀ t ∈ s :: segments, Path.IsSegment t)
    (hs : Path.isStep (Text.ofChars s.toList) = true) (hup : Text.ofChars s.toList ≠ Path.dotDot)
    (hl : d.locate (p.below (s :: segments)) = .ok l) :
    ∃ m, d.locate p = .ok m ∧ d.node? m = some .directory ∧
      (d.node? (m ++ [Text.ofChars s.toList])).isSome = true := by
  have hturns := follow_turnsOf_of_locate (Path.isAbsolute_below hp _) hl
  have hdown : turn (Text.ofChars s.toList) = .down (Text.ofChars s.toList) := if_neg hup
  rw [turnsOf_below hp h, turnsBelow, List.map_cons, List.filter_cons_of_pos hs, List.map_cons,
    hdown] at hturns
  obtain ⟨m, hm, hd, -, hsome⟩ := (leads_of_follow hturns).of_down
  exact ⟨m, locate_of_directory hp (refusal?_of_below hp h (of_locate hl).1) hm hd, hd, hsome⟩

theorem has_of_locate (hl : d.locate p = .ok l) : d.has p = true :=
  has_of_canonical (q := pathOf l) (by rw [canonical, hl]; rfl)

theorem isDirectory_of_locate (hl : d.locate p = .ok l) (hd : d.node? l = some .directory) :
    d.isDirectory p = true := by
  rw [isDirectory_iff, stat, hl]
  simp [hd]

/-! ## The length of paths -/

theorem byteCount_join (hp : p.isEmpty = false) (hs : Path.IsSegment s) :
    Text.byteCount p.glyphs + Text.byteCount (Text.ofChars s.toList) ≤
      Text.byteCount (p / s).glyphs := by
  have hjoin : p / s = p.join (Path.ofString s) := rfl
  rw [hjoin, Path.join, if_neg (by simp [Path.isAbsolute_of_isSegment hs, hp])]
  split_ifs
  · rw [byteCount_append]
    exact le_rfl
  · rw [byteCount_append, Text.byteCount]
    exact Nat.add_le_add_left (Nat.le_add_left ..) _

theorem byteCount_pos {name : Name} {cs : List Char} (hname : name = Text.ofChars cs)
    (h : Path.isStep name = true) : 0 < Text.byteCount name := by
  subst hname
  cases cs with
  | nil => cases h
  | cons c cs => exact Nat.add_pos_left c.utf8Size_pos _

/-- Each name of a path below another one has a byte. -/
theorem length_le_byteCount (hp : p.isEmpty = false) (h : ∀ s ∈ segments, Path.IsSegment s) :
    ((segments.map fun s => Text.ofChars s.toList).filter Path.isStep).length +
      Text.byteCount p.glyphs ≤ Text.byteCount (p.below segments).glyphs := by
  induction segments generalizing p with
  | nil => simp [Path.below]
  | cons s rest ih =>
    have hs := h s List.mem_cons_self
    have hjoin := byteCount_join hp hs
    have hrest := ih (p := p / s) (Path.isEmpty_join hp (Path.isAbsolute_of_isSegment hs))
      fun t ht => h t (List.mem_cons_of_mem _ ht)
    rw [Path.below_cons]
    by_cases hstep : Path.isStep (Text.ofChars s.toList) = true
    · have hpos := byteCount_pos rfl hstep
      rw [List.map_cons, List.filter_cons_of_pos hstep, List.length_cons]
      omega
    · rw [List.map_cons, List.filter_cons_of_neg hstep]
      omega

end ComponentRegistry.Disk
