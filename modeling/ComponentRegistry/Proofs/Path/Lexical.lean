import ComponentRegistry.Proofs.Path.Joining

/-!
# Paths without dots

An absolute path can be read without a disk: a `.` says nothing, and a `..` takes the name before it
away (`normalized`).  Read so, a path that is expressed from a base leads from the base back to where
it leads itself, if the base has no `..` (`normalized_join_relative`): going up from the base takes
away what the base has not in common with the path.
-/

namespace ComponentRegistry.Path

/-- The names one step further; `..` leads back, and from the root to the root. -/
def turnTo (above : List Name) (s : Name) : List Name :=
  if s = dotDot then above.dropLast else above ++ [s]

/-- The names that are left of names behind the root when each `..` has taken one away. -/
def reduce (names : List Name) : List Name := names.foldl turnTo []

/-- An absolute path without `.` and `..`. -/
def normalized (p : Path) : Path := render .root (reduce p.names)

section Reduced

variable {p base : Path} {above names : List Name}

theorem parent_mem_components_iff : Component.parent ∈ p.components ↔ dotDot ∈ p.names := by
  have hstart : Component.parent ∉ p.parts.1.components := by
    cases p.parts.1 <;> simp [Anchor.components]
  have hname : ∀ s : Name, Component.ofName s = .parent ↔ s = dotDot := by
    intro s
    unfold Component.ofName
    split_ifs with h <;> simp [h]
  rw [components_eq]
  simp [hstart, hname]

/-- Names without `..` lead on. -/
theorem foldl_turnTo_of_free (h : dotDot ∉ names) : names.foldl turnTo above = above ++ names := by
  induction names generalizing above with
  | nil => simp
  | cons s names ih =>
    have hs : s ≠ dotDot := fun heq => h (heq ▸ List.mem_cons_self)
    have hnames : dotDot ∉ names := fun hmem => h (List.mem_cons_of_mem s hmem)
    rw [List.foldl_cons, ih hnames, turnTo, if_neg hs, List.append_assoc]
    rfl

/-- Several `..` take as many names away. -/
theorem foldl_turnTo_up (n : Nat) :
    (List.replicate n dotDot).foldl turnTo above = above.take (above.length - n) := by
  induction n generalizing above with
  | zero => simp
  | succ n ih =>
    have hup : turnTo above dotDot = above.take (above.length - 1) := by
      rw [turnTo, if_pos rfl, List.dropLast_eq_take]
    rw [List.replicate_succ, List.foldl_cons, hup, ih, List.take_take, List.length_take]
    congr 1
    omega

/-- Up from names without `..` to their first `n`, and on from there. -/
theorem reduce_up_down (h : dotDot ∉ above) {n : Nat} (hn : n ≤ above.length) :
    reduce (above ++ (List.replicate (above.length - n) dotDot ++ names)) =
      reduce (above.take n ++ names) := by
  have htake : dotDot ∉ above.take n := fun hmem => h (List.mem_of_mem_take hmem)
  have hleft : above.length - (above.length - n) = n := by omega
  unfold reduce
  rw [List.foldl_append, foldl_turnTo_of_free h, List.nil_append, List.foldl_append,
    foldl_turnTo_up, hleft, List.foldl_append, foldl_turnTo_of_free htake, List.nil_append]

/-- **A path as seen from a base leads back to it from there**, as the two are read. -/
theorem normalized_join_relative (hp : p.isAbsolute = true) (hbase : base.isAbsolute = true)
    (hup : Component.parent ∉ base.components) :
    (base.join (p.relative base)).normalized = p.normalized := by
  obtain ⟨hrelative, hnames, -⟩ := of_relative hp hbase
  have hfree : dotDot ∉ base.names := mt parent_mem_components_iff.mpr hup
  have hshared : base.names.take (commonLength p.names base.names) ++
      p.names.drop (commonLength p.names base.names) = p.names := by
    rw [← take_commonLength]
    exact List.take_append_drop ..
  have hreduced : reduce (base.join (p.relative base)).names = reduce p.names := by
    rw [names_join hrelative, hnames, reduce_up_down hfree (commonLength_le ..), hshared]
  unfold normalized
  rw [hreduced]

example : (ofString "/p/./ui/../../out/button.json").normalized = ofString "/out/button.json" := by
  decide +kernel

end Reduced

end ComponentRegistry.Path
