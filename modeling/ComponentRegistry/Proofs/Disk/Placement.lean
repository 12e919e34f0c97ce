import ComponentRegistry.Proofs.Disk.Below

/-!
# Trees at a place of a disk

A tree is a disk of its own.  Another disk holds it at a place if below this place stands what
stands in the tree.  There, steps lead where they lead in the tree (`follow_of_holds`), as long as
the way does not leave the tree: it does so by a step to the root, and by one up from the top.  If
links do not leave the tree, names do not either (`Confined.not_leaves`).  So below a path to the
place a path leads where it leads in the tree (`of_locate_below`), and it leads there unless it
meets a limit of the disk on its way (`locate_below`).
-/

namespace ComponentRegistry.Disk

variable {T d : Disk} {r here : Location} {step : Step} {steps xs ys : List Step}

/-- The tree stands at a place of the disk. -/
def Holds (d : Disk) (r : Location) (T : Disk) : Prop := ∀ l, d.node? (r ++ l) = T.node? l

/-- The way of the steps leaves the tree. -/
inductive Leaves (T : Disk) : Location → List Step → Prop
  | toRoot {here : Location} {rest : List Step} : Leaves T here (.toRoot :: rest)
  | up {rest : List Step} : Leaves T [] (.up :: rest)
  | place {here next : Location} {step : Step} {rest : List Step} :
    T.takeStep here step = .ok (.place next) → Leaves T next rest → Leaves T here (step :: rest)
  | link {here : Location} {step : Step} {rest : List Step} {target : Path} :
    T.takeStep here step = .ok (.link target) → Leaves T here (stepsOf target ++ rest) →
    Leaves T here (step :: rest)

/-- No link leads out of the tree, nor through a place outside. -/
def Confined (T : Disk) : Prop :=
  ∀ here name target, T.takeStep here (.down name) = .ok (.link target) →
    ¬ Leaves T here (stepsOf target)

/-- An arrival in a tree that stands at a place. -/
def Arrival.at (r : Location) : Arrival → Arrival
  | .place l => .place (r ++ l)
  | .link target => .link target

/-- A step in a tree at a place is the step in the tree, unless it leads out of it. -/
theorem takeStep_of_holds (h : d.Holds r T) (hroot : step ≠ .toRoot)
    (hup : step = .up → here ≠ []) :
    d.takeStep (r ++ here) step = (T.takeStep here step).map (Arrival.at r) := by
  cases step with
  | toRoot => exact absurd rfl hroot
  | stay =>
    simp only [takeStep, h here]
    split <;> rfl
  | up =>
    simp only [takeStep, h here, List.dropLast_append_of_ne_nil (hup rfl)]
    split <;> rfl
  | down name =>
    simp only [takeStep, h here, List.append_assoc, h (here ++ [name])]
    split
    · rfl
    · split
      · rfl
      · cases T.node? (here ++ [name]) with
        | none => rfl
        | some n => cases n <;> simp [Except.map, Arrival.at]

/-- **Steps in a tree at a place lead where they lead in the tree.** -/
theorem follow_of_holds {links : Nat} (h : d.Holds r T) (hstay : ¬ Leaves T here steps) :
    d.follow links (r ++ here) steps = (T.follow links here steps).map (r ++ ·) := by
  -- behind a link there are fewer links left, but not fewer steps
  induction links using Nat.strong_induction_on generalizing here steps with
  | h links ihl =>
    induction steps generalizing here with
    | nil => rw [follow_nil, follow_nil]; rfl
    | cons step rest ih =>
      have hroot : step ≠ .toRoot := by
        rintro rfl
        exact hstay .toRoot
      have hup : step = .up → here ≠ [] := by
        rintro rfl rfl
        exact hstay .up
      rw [follow_cons, follow_cons, takeStep_of_holds h hroot hup]
      cases hs : T.takeStep here step with
      | error e => rfl
      | ok a =>
        cases a with
        | place next => exact ih fun hrest => hstay (.place hs hrest)
        | link target =>
          cases links with
          | zero => rfl
          | succ links =>
            exact ihl links (Nat.lt_succ_self links) fun hrest => hstay (.link hs hrest)

theorem not_leaves_nil : ¬ Leaves T here [] := nofun

/-- A way that leaves a tree with confined links does so before the names that it ends with. -/
theorem Leaves.of_append (h : Leaves T here (xs ++ ys)) (hT : T.Confined)
    (hys : ∀ step ∈ ys, ∃ name, step = .down name) : Leaves T here xs := by
  generalize hsteps : xs ++ ys = steps at h
  induction h generalizing xs ys with
  | toRoot =>
    obtain ⟨rfl, rfl⟩ | ⟨xs, rfl, rfl⟩ := List.append_eq_cons_iff.mp hsteps
    · obtain ⟨name, hname⟩ := hys _ List.mem_cons_self
      cases hname
    · exact .toRoot
  | up =>
    obtain ⟨rfl, rfl⟩ | ⟨xs, rfl, rfl⟩ := List.append_eq_cons_iff.mp hsteps
    · obtain ⟨name, hname⟩ := hys _ List.mem_cons_self
      cases hname
    · exact .up
  | place hs _ ih =>
    obtain ⟨rfl, rfl⟩ | ⟨xs, rfl, rfl⟩ := List.append_eq_cons_iff.mp hsteps
    · exact absurd (ih (fun step h => hys step (List.mem_cons_of_mem _ h)) rfl) not_leaves_nil
    · exact .place hs (ih hys rfl)
  | @link here step rest target hs _ ih =>
    obtain ⟨rfl, rfl⟩ | ⟨xs, rfl, rfl⟩ := List.append_eq_cons_iff.mp hsteps
    · -- the link stands in the tree, and its own way would leave
      obtain ⟨name, rfl⟩ := hys _ List.mem_cons_self
      have hinner := ih (fun step h => hys step (List.mem_cons_of_mem _ h)) rfl
      exact absurd hinner (hT here name target hs)
    · exact .link hs (ih hys (List.append_assoc ..))

/-- **Names do not lead out of a tree with confined links.** -/
theorem Confined.not_leaves (hT : T.Confined) (hsteps : ∀ step ∈ steps, ∃ name, step = .down name) :
    ¬ Leaves T here steps := by
  intro h
  have hsplit : Leaves T here ([] ++ steps) := h
  exact not_leaves_nil (hsplit.of_append hT hsteps)

/-- What is reached through some links is reached if more may be followed. -/
theorem Leads.mono {m n : Nat} {l : Location} (h : Leads d m here steps l) (hmn : m ≤ n) :
    Leads d n here steps l := by
  induction h generalizing n with
  | nil => exact .nil
  | place hs _ ih => exact .place hs (ih hmn)
  | link hs _ ih =>
    obtain ⟨k, rfl⟩ := Nat.exists_eq_add_of_le' (Nat.one_le_of_lt hmn)
    exact .link hs (ih (Nat.le_of_succ_le_succ hmn))

/-- What is reached through some links is reached through fewer ones, unless they are too few. -/
theorem Leads.follow_fewer {links : Nat} {l : Location} (h : Leads d links here steps l)
    (left : Nat) :
    d.follow left here steps = .ok l ∨ d.follow left here steps = .error .tooManyLinks := by
  induction h generalizing left with
  | nil => exact .inl (follow_nil ..)
  | place hs _ ih =>
    rw [follow_cons, hs]
    exact ih left
  | link hs _ ih =>
    rw [follow_cons, hs]
    cases left with
    | zero => exact .inr rfl
    | succ left => exact ih left

/-! ## Paths below the place of a tree -/

section Below

variable {p q : Path} {segments : List String} {l m : Location}

/-- No limit is met on the way of a path: it is not too long, and not too many links are on it. -/
structure WithinLimits (d : Disk) (p : Path) : Prop where
  length : Text.byteCount p.glyphs < pathLimit
  links : d.follow linkLimit [] (turnsOf p) ≠ .error .tooManyLinks

theorem withinLimits_iff : d.WithinLimits p ↔ Text.byteCount p.glyphs < pathLimit ∧
    d.follow linkLimit [] (turnsOf p) ≠ .error .tooManyLinks :=
  ⟨fun h => ⟨h.length, h.links⟩, fun ⟨hlength, hlinks⟩ => ⟨hlength, hlinks⟩⟩

instance (d : Disk) (p : Path) : Decidable (d.WithinLimits p) :=
  decidable_of_iff _ withinLimits_iff.symm

theorem turnsOf_top_below (h : ∀ s ∈ segments, Path.IsSegment s) :
    turnsOf (Path.top.below segments) = .toRoot :: turnsBelow segments :=
  turnsOf_below (by decide) h

theorem down_of_mem_turnsBelow (h : Path.LeadsDown segments) :
    ∀ step ∈ turnsBelow segments, ∃ name, step = .down name := by
  intro step hstep
  obtain ⟨name, hname, rfl⟩ := List.mem_map.mp hstep
  obtain ⟨s, hs, rfl⟩ := List.mem_map.mp (List.mem_of_mem_filter hname)
  exact ⟨_, if_neg (h.notUp s hs)⟩

/-- The text of a path below the root ends that of a path below another one. -/
theorem sublist_below (hp : p.isAbsolute = true) (h : Path.LeadsDown segments) :
    (Path.top.below segments).glyphs.Sublist (p.below segments).glyphs := by
  rw [Path.glyphs_below (isEmpty_of_isAbsolute hp)
    (fun s hs => Path.isAbsolute_of_isSegment (h.isSegment s hs)) h.ne_nil]
  exact List.sublist_append_right ..

/-- A path to a directory and the path of its segments lead to the same place. -/
theorem locate_of_spelled (hp : p.Spelled segments) (hl : d.locate p = .ok l)
    (hd : d.node? l = some .directory) : d.locate (Path.top.below segments) = .ok l := by
  have htop := Path.isAbsolute_top_below segments
  refine locate_of_directory htop
    (refusal?_of_sublist (isEmpty_of_isAbsolute htop) hp.sublist (of_locate hl).1) ?_ hd
  rw [turnsOf_eq hp.sameWay]
  exact follow_turnsOf_of_locate hp.isAbsolute hl

theorem WithinLimits.of_spelled {rel : List String} (hp : p.Spelled segments)
    (hrel : Path.LeadsDown rel) (h : d.WithinLimits (p.below rel)) :
    d.WithinLimits ((Path.top.below segments).below rel) := by
  have htop := Path.isAbsolute_top_below segments
  have hparts : ∀ s ∈ rel, (Path.ofString s).isAbsolute = false :=
    fun s hs => Path.isAbsolute_of_isSegment (hrel.isSegment s hs)
  refine ⟨(byteCount_le_of_sublist ?_).trans_lt h.length, ?_⟩
  · rw [Path.glyphs_below (isEmpty_of_isAbsolute htop) hparts hrel.ne_nil,
      Path.glyphs_below (isEmpty_of_isAbsolute hp.isAbsolute) hparts hrel.ne_nil]
    exact hp.trunk_sublist.append (List.Sublist.refl _)
  · rw [turnsOf_below htop hrel.isSegment, turnsOf_eq hp.sameWay,
      ← turnsOf_below hp.isAbsolute hrel.isSegment]
    exact h.links

variable (hT : T.Confined) (h : d.Holds r T) (hp : p.isAbsolute = true) (hr : d.locate p = .ok r)
  (hsegments : Path.LeadsDown segments)
include hT h hp hr hsegments

/-- Below the place of a tree the way goes on as in the tree, with the links that are left. -/
theorem follow_below : ∃ left ≤ linkLimit, d.follow linkLimit [] (turnsOf (p.below segments)) =
    (T.follow left [] (turnsBelow segments)).map (r ++ ·) := by
  have hway := leads_of_follow (follow_turnsOf_of_locate hp hr)
  obtain ⟨left, hle, hleft⟩ := hway.append_le
  refine ⟨left, hle, ?_⟩
  rw [turnsOf_below hp hsegments.isSegment, hleft]
  have hstays : ¬ Leaves T [] (turnsBelow segments) :=
    hT.not_leaves (down_of_mem_turnsBelow hsegments)
  rw [← follow_of_holds h hstays, List.append_nil]

/-- **What a path below the place of a tree leads to** is what it leads to in the tree. -/
theorem of_locate_below (hl : d.locate (p.below segments) = .ok l) :
    ∃ m, T.locate (Path.top.below segments) = .ok m ∧ l = r ++ m := by
  obtain ⟨left, hle, hfollow⟩ := follow_below hT h hp hr hsegments
  rw [follow_turnsOf_of_locate (Path.isAbsolute_below hp _) hl] at hfollow
  cases hm : T.follow left [] (turnsBelow segments) with
  | error e => rw [hm] at hfollow; cases hfollow
  | ok m =>
    rw [hm] at hfollow
    refine ⟨m, ?_, Except.ok.inj hfollow⟩
    have htop := Path.isAbsolute_top_below segments
    refine locate_eq (refusal?_of_sublist (isEmpty_of_isAbsolute htop) (sublist_below hp hsegments)
      (of_locate hl).1) ?_
    rw [absolute_of_isAbsolute htop]
    refine follow_of_turnsOf (hsegments.endsInName _) ?_
    rw [turnsOf_top_below hsegments.isSegment, follow_toRoot]
    exact ((leads_of_follow hm).mono hle).follow

/-- **What a path leads to in a tree** it leads to below the place of the tree, within the
limits. -/
theorem locate_below (hm : T.locate (Path.top.below segments) = .ok m)
    (hlimits : d.WithinLimits (p.below segments)) : d.locate (p.below segments) = .ok (r ++ m) := by
  have htop := Path.isAbsolute_top_below segments
  have habs : (p.below segments).isAbsolute = true := Path.isAbsolute_below hp _
  have hrefusal : refusal? (p.below segments) = none := by
    refine refusal?_eq_none_iff.mpr ⟨isEmpty_of_isAbsolute habs, ?_, hlimits.length⟩
    rw [Path.glyphs_below (isEmpty_of_isAbsolute hp)
      (fun s hs => Path.isAbsolute_of_isSegment (hsegments.isSegment s hs)) hsegments.ne_nil,
      List.mem_append, not_or]
    exact ⟨fun hnul => (refusal?_eq_none_iff.mp (of_locate hr).1).2.1
        ((Path.trunk_isPrefix p).subset hnul), (refusal?_eq_none_iff.mp (of_locate hm).1).2.1⟩
  refine locate_eq hrefusal ?_
  rw [absolute_of_isAbsolute habs]
  refine follow_of_turnsOf (hsegments.endsInName _) ?_
  obtain ⟨left, -, hfollow⟩ := follow_below hT h hp hr hsegments
  have hturns := follow_turnsOf_of_locate htop hm
  rw [turnsOf_top_below hsegments.isSegment, follow_toRoot] at hturns
  rcases (leads_of_follow hturns).follow_fewer left with hleft | hleft
  · rw [hfollow, hleft]
    rfl
  · rw [hleft] at hfollow
    exact absurd hfollow hlimits.links

/-- **The files below the place of a tree** are those of the tree, within the limits. -/
theorem file_below_iff {content : Content}
    (hlimits : T.isFile (Path.top.below segments) = true → d.WithinLimits (p.below segments)) :
    (∃ l, d.locate (p.below segments) = .ok l ∧ d.node? l = some (.file content)) ↔
      ∃ m, T.locate (Path.top.below segments) = .ok m ∧ T.node? m = some (.file content) := by
  constructor
  · rintro ⟨l, hl, hn⟩
    obtain ⟨m, hm, rfl⟩ := of_locate_below hT h hp hr hsegments hl
    exact ⟨m, hm, (h m).symm.trans hn⟩
  · rintro ⟨m, hm, hn⟩
    have hfile : T.isFile (Path.top.below segments) = true := isFile_iff.mpr ⟨m, content, hm, hn⟩
    exact ⟨r ++ m, locate_below hT h hp hr hsegments hm (hlimits hfile), (h m).trans hn⟩

end Below

/-- A tree without links is confined. -/
theorem confined_of_no_links (h : ∀ e ∈ T.nodes, ∀ target, e.2 ≠ .link target) : T.Confined := by
  intro here name target hs
  have hn : T.node? (here ++ [name]) = some (.link target) := by
    simp only [takeStep, ne_eq, ite_not] at hs
    split_ifs at hs
    cases hn : T.node? (here ++ [name]) with
    | none => rw [hn] at hs; cases hs
    | some n => cases n <;> simp [hn] at hs ⊢; exact hs
  rw [node?_of_ne_nil T (by simp), Option.map_eq_some_iff] at hn
  obtain ⟨e, he, hlink⟩ := hn
  exact absurd hlink (h e (List.mem_of_find?_eq_some he) target)

theorem confined_ofTexts (texts : List (String × String)) : (ofTexts texts).Confined := by
  refine confined_of_no_links fun e he target hlink => ?_
  rcases List.mem_append.mp he with he | he
  · rw [List.mem_eraseDups, List.mem_flatMap] at he
    obtain ⟨t, -, he⟩ := he
    obtain ⟨l, -, rfl⟩ := List.mem_map.mp he
    cases hlink
  · obtain ⟨t, -, rfl⟩ := List.mem_map.mp he
    cases hlink

/-! ## Putting a tree somewhere -/

/-- The disk that holds a tree at a place, and nothing else but the directories above it. -/
def graft (T : Disk) (r : Location) : Disk where
  nodes := r.inits.tail.map (·, .directory) ++ T.nodes.map fun e => (r ++ e.1, e.2)
  workingDirectory := ⟨[Path.separator]⟩

/-- A tree can stand anywhere. -/
theorem holds_graft (T : Disk) (r : Location) : (T.graft r).Holds r T := by
  intro l
  by_cases hroot : r ++ l = []
  · obtain ⟨rfl, rfl⟩ := List.append_eq_nil_iff.mp hroot
    rfl
  rw [node?_of_ne_nil _ hroot, graft, List.find?_append, List.find?_map, List.find?_map]
  by_cases hl : l = []
  · -- the place itself is the last of the directories
    subst hl
    have hmem : r ∈ r.inits.tail := by
      cases r with
      | nil => exact absurd rfl hroot
      | cons name r => simp
    cases hfind : r.inits.tail.find? ((fun e => decide (e.1 = r ++ [])) ∘ (·, Node.directory)) with
    | none => simpa using List.find?_eq_none.mp hfind r hmem
    | some m => rfl
  · have habove :
        r.inits.tail.find? ((fun e => decide (e.1 = r ++ l)) ∘ (·, Node.directory)) = none := by
      refine List.find?_eq_none.mpr fun m hm => ?_
      have hprefix : m <+: r := (List.mem_inits _ _).mp (List.mem_of_mem_tail hm)
      have hlen := hprefix.length_le
      have hpos := List.length_pos_of_ne_nil hl
      simp only [Function.comp_apply, decide_eq_true_eq]
      rintro rfl
      rw [List.length_append] at hlen
      omega
    have hbelow : ((fun e : Location × Node => decide (e.1 = r ++ l)) ∘
        fun e : Location × Node => (r ++ e.1, e.2)) = fun e => decide (e.1 = l) := by
      funext e
      simp
    rw [habove, hbelow, node?_of_ne_nil T hl]
    cases T.nodes.find? fun e => decide (e.1 = l) <;> rfl

end ComponentRegistry.Disk
