import ComponentRegistry.Proofs.Disk.Saving
import ComponentRegistry.Proofs.Path.Joining

/-!
# Ways of paths

Where a path leads depends on its start and its names only, if it ends in a name: the steps that
stay count for nothing in between (`locate_of_sameWay`).  From a directory that is given by its
canonical path, `..` leads up the names again.  So joined to such a directory, or to one whose path
begins it, a path as seen from the directory leads where the path does (`locate_join_relative`).  A
file can be written in a directory by a proper name (`writable_of_directory`), and what such a name
leads to stands there, unless it is a link (`of_locate_join`).
-/

namespace ComponentRegistry.Disk

variable {d : Disk} {p q base : Path} {links : Nat} {here l m : Location} {steps xs : List Step}

/-! ## Turns -/

/-- What a name asks for. -/
def turn (s : Name) : Step := if s = Path.dotDot then .up else .down s

/-- The steps of a path without those that stay. -/
def turnsOf (p : Path) : List Step :=
  (if p.isAbsolute then [Step.toRoot] else []) ++ p.names.map turn

theorem turn_ne_stay (s : Name) : turn s ≠ .stay := by unfold turn; split_ifs <;> simp

theorem turn_ne_toRoot (s : Name) : turn s ≠ .toRoot := by unfold turn; split_ifs <;> simp

/-- The steps of a segment: none, or one that stays, or the turn of a name. -/
theorem stepOf_eq (s : Name) :
    stepOf s = if Path.isStep s then some (turn s) else if s = [] then none else some .stay := by
  unfold stepOf Path.isStep turn
  by_cases hnil : s = []
  · simp [hnil]
  · by_cases hdot : s = Path.dot
    · simp [hdot, show Path.dot ≠ [] by decide]
    · by_cases hup : s = Path.dotDot
      · simp [hup, show Path.dotDot ≠ [] by decide, show Path.dotDot ≠ Path.dot by decide]
      · simp [hnil, hdot, hup]

/-- The steps of a path begin at the root or with none, and then there is no step to the root. -/
theorem stepsOf_eq (p : Path) : ∃ body, stepsOf p =
      (if p.isAbsolute then [Step.toRoot] else []) ++ body ∧ (∀ step ∈ body, step ≠ .toRoot) ∧
      body.filter (· ≠ .stay) = p.names.map turn := by
  refine ⟨p.segments.filterMap stepOf ++
    (if p.segments.getLast? = some [] then [Step.stay] else []), List.append_assoc .., ?_, ?_⟩
  · intro step hstep
    rcases List.mem_append.mp hstep with hstep | hstep
    · obtain ⟨s, -, hs⟩ := List.mem_filterMap.mp hstep
      rw [stepOf_eq] at hs
      split_ifs at hs
      · cases hs; exact turn_ne_toRoot s
      · cases hs; simp
    · split_ifs at hstep
      · rw [List.mem_singleton.mp hstep]; simp
      · cases hstep
  · have hfinish : (if p.segments.getLast? = some [] then [Step.stay] else []).filter (· ≠ .stay) = [] := by
      split_ifs <;> rfl
    rw [List.filter_append, hfinish, List.append_nil]
    unfold Path.names
    induction p.segments with
    | nil => rfl
    | cons s segments ih =>
      rw [List.filterMap_cons, stepOf_eq]
      by_cases hs : Path.isStep s = true
      · simpa [hs, turn_ne_stay] using ih
      · by_cases hnil : s = []
        · simpa [hnil, Path.isStep_nil] using ih
        · simpa [hs, hnil] using ih

/-- The last step of a path that ends in a name is its turn. -/
theorem getLast?_stepsOf (h : p.EndsInName) :
    ∃ step, (stepsOf p).getLast? = some step ∧ step ≠ .stay ∧ step ≠ .toRoot := by
  obtain ⟨s, hlast, hs⟩ := h
  have hne : s ≠ [] := by
    rintro rfl
    rw [Path.isStep_nil] at hs
    cases hs
  obtain ⟨front, hfront⟩ := List.getLast?_eq_some_iff.mp hlast
  have hsegments : Text.splitAt Path.separator p.glyphs = front ++ [s] := hfront
  refine ⟨turn s, ?_, turn_ne_stay s, turn_ne_toRoot s⟩
  unfold stepsOf
  have hfinish : ¬ (front ++ [s]).getLast? = some [] := by simpa using hne
  simp only [hsegments, hfinish, if_false, List.append_nil]
  simp [stepOf_eq, hs, List.filterMap_append]

/-! ## Staying -/

/-- After a step that is possible the way goes on from where it leads. -/
theorem follow_split {step : Step} {rest : List Step}
    (h : d.follow links here (step :: rest) = .ok l) :
    ∃ left next, ∀ ys, d.follow links here (step :: ys) = d.follow left next ys := by
  have hleads : Leads d links here ([step] ++ rest) l := leads_of_follow h
  obtain ⟨next, hnext⟩ := hleads.of_append
  obtain ⟨left, hleft⟩ := hnext.append
  exact ⟨left, next, hleft⟩

theorem follow_stay (hd : d.node? here = some .directory) (xs : List Step) :
    d.follow links here (.stay :: xs) = d.follow links here xs := by
  rw [follow_cons, takeStep, if_pos hd]

/-- Only in a directory is it possible to stay, or to go on to a name. -/
theorem directory_of_follow {step : Step} {rest : List Step} (hroot : step ≠ .toRoot)
    (h : d.follow links here (step :: rest) = .ok l) : d.node? here = some .directory := by
  rw [follow_cons] at h
  by_contra hd
  cases step with
  | toRoot => exact hroot rfl
  | stay | up => simp [takeStep, hd] at h
  | down name => simp [takeStep, hd] at h

/-- A way leads where it leads without its stays. -/
theorem follow_filter (h : d.follow links here xs = .ok l) :
    d.follow links here (xs.filter (· ≠ .stay)) = .ok l := by
  induction xs generalizing links here with
  | nil => exact h
  | cons step xs ih =>
    by_cases hstay : step = .stay
    · rw [hstay] at h ⊢
      rw [follow_stay (directory_of_follow (by simp) h)] at h
      exact ih h
    · obtain ⟨left, next, hsplit⟩ := follow_split h
      rw [hsplit] at h
      rw [List.filter_cons_of_pos (by simpa using hstay), hsplit]
      exact ih h

/-- Between other steps it is always possible to stay, and so it is in a directory. -/
theorem follow_of_filter (hroot : ∀ step ∈ xs, step ≠ .toRoot)
    (hlast : xs.getLast? ≠ some .stay ∨ d.node? l = some .directory)
    (h : d.follow links here (xs.filter (· ≠ .stay)) = .ok l) : d.follow links here xs = .ok l := by
  induction xs generalizing links here with
  | nil => exact h
  | cons step xs ih =>
    have hrest : ∀ step ∈ xs, step ≠ .toRoot := fun s hs => hroot s (List.mem_cons_of_mem _ hs)
    have hlast' : xs.getLast? ≠ some .stay ∨ d.node? l = some .directory := by
      refine hlast.imp_left fun hne hstay => hne ?_
      rwa [List.getLast?_cons_of_ne_nil (by rintro rfl; cases hstay)]
    by_cases hstay : step = .stay
    · rw [hstay, List.filter_cons_of_neg (by simp)] at h
      rw [hstay, follow_stay]
      · exact ih hrest hlast' h
      · cases hmore : xs.filter (· ≠ .stay) with
        | cons next more =>
          -- what comes next is no stay, and it is possible
          have hmem : next ∈ xs := (List.mem_filter.mp (hmore ▸ List.mem_cons_self ..)).1
          rw [hmore] at h
          exact directory_of_follow (hrest next hmem) h
        | nil =>
          -- nothing comes but stays
          rw [hmore, follow_nil] at h
          cases h
          refine hlast.resolve_left fun hne => hne ?_
          have hstays : ∀ next ∈ step :: xs, next = .stay := by
            simpa [hstay, List.filter_eq_nil_iff] using hmore
          rw [List.getLast?_eq_some_getLast (List.cons_ne_nil step xs)]
          exact congrArg some (hstays _ (List.getLast_mem _))
    · rw [List.filter_cons_of_pos (by simpa using hstay)] at h
      obtain ⟨left, next, hsplit⟩ := follow_split h
      rw [hsplit] at h ⊢
      exact ih hrest hlast' h

theorem follow_toRoot (xs : List Step) :
    d.follow links here (.toRoot :: xs) = d.follow links [] xs := by
  rw [follow_cons]
  rfl

/-- The turns of a path lead where the path leads. -/
theorem follow_turnsOf (h : d.follow links [] (stepsOf p) = .ok l) :
    d.follow links [] (turnsOf p) = .ok l := by
  obtain ⟨body, hsteps, hroot, hturns⟩ := stepsOf_eq p
  rw [hsteps] at h
  rw [turnsOf, ← hturns]
  split_ifs at h ⊢
  · rw [List.singleton_append, follow_toRoot] at h ⊢
    exact follow_filter h
  · exact follow_filter h

theorem follow_of_turnsOf (hends : p.EndsInName) (h : d.follow links [] (turnsOf p) = .ok l) :
    d.follow links [] (stepsOf p) = .ok l := by
  obtain ⟨body, hsteps, hroot, hturns⟩ := stepsOf_eq p
  obtain ⟨step, hlast, hstay, -⟩ := getLast?_stepsOf hends
  rw [hsteps] at hlast ⊢
  rw [turnsOf, ← hturns] at h
  have hbody : body.getLast? ≠ some .stay := by
    intro hb
    rw [List.getLast?_append, hb] at hlast
    cases hlast
    exact hstay rfl
  split_ifs at h ⊢
  · rw [List.singleton_append, follow_toRoot] at h ⊢
    exact follow_of_filter hroot (.inl hbody) h
  · exact follow_of_filter hroot (.inl hbody) h

theorem turnsOf_eq (h : Path.SameWay p q) : turnsOf q = turnsOf p := by
  unfold turnsOf
  rw [h.isAbsolute, h.names]

theorem of_locate (h : d.locate p = .ok l) :
    refusal? p = none ∧ d.follow linkLimit [] (stepsOf (d.absolute p)) = .ok l := by
  unfold locate at h
  cases hr : refusal? p with
  | some e => rw [hr] at h; cases h
  | none => rw [hr] at h; exact ⟨rfl, h⟩

theorem locate_eq (hr : refusal? p = none)
    (h : d.follow linkLimit [] (stepsOf (d.absolute p)) = .ok l) : d.locate p = .ok l := by
  unfold locate
  rw [hr]
  exact h

/-- **Paths that say the same lead to the same place.** -/
theorem locate_of_sameWay (h : Path.SameWay p q) (hends : q.EndsInName) (hr : refusal? q = none)
    (hl : d.locate p = .ok l) : d.locate q = .ok l := by
  obtain ⟨-, hfollow⟩ := of_locate hl
  have hsame : turnsOf (d.absolute q) = turnsOf (d.absolute p) := turnsOf_eq (h.join _)
  refine locate_eq hr (follow_of_turnsOf (hends.join _) ?_)
  rw [hsame]
  exact follow_turnsOf hfollow

/-! ## Names of places -/

/-- A name that leads down: no `.`, no `..` and no slash, and not too long. -/
structure Proper (s : Name) : Prop where
  isStep : Path.isStep s = true
  notUp : s ≠ Path.dotDot
  free : Path.separator ∉ s
  short : ¬ nameLimit < Text.byteCount s

theorem proper_iff (s : Name) : Proper s ↔ Path.isStep s = true ∧ s ≠ Path.dotDot ∧
    Path.separator ∉ s ∧ ¬ nameLimit < Text.byteCount s :=
  ⟨fun h => ⟨h.isStep, h.notUp, h.free, h.short⟩, fun ⟨hstep, hup, hfree, hshort⟩ =>
    ⟨hstep, hup, hfree, hshort⟩⟩

instance (s : Name) : Decidable (Proper s) := decidable_of_iff _ (proper_iff s).symm

/-- What the steps of a path ask for are its names. -/
theorem of_down_mem_stepsOf {s : Name} (h : Step.down s ∈ stepsOf p) : s ∈ p.names ∧ s ≠ Path.dotDot := by
  obtain ⟨body, hsteps, -, hturns⟩ := stepsOf_eq p
  have hbody : Step.down s ∈ body := by
    rw [hsteps] at h
    rcases List.mem_append.mp h with h | h
    · split_ifs at h <;> simp at h
    · exact h
  have hmem : Step.down s ∈ p.names.map turn := by
    rw [← hturns]
    exact List.mem_filter.mpr ⟨hbody, by simp⟩
  obtain ⟨t, ht, hturn⟩ := List.mem_map.mp hmem
  unfold turn at hturn
  split_ifs at hturn with hup
  cases hturn
  exact ⟨ht, hup⟩

/-- Where paths lead all names are proper. -/
theorem Leads.proper (h : Leads d links here steps l)
    (hsteps : ∀ s, Step.down s ∈ steps → Path.isStep s = true ∧ s ≠ Path.dotDot ∧ Path.separator ∉ s)
    (hhere : ∀ s ∈ here, Proper s) : ∀ s ∈ l, Proper s := by
  induction h with
  | nil => exact hhere
  | @place links here next l step rest hs _ ih =>
    refine ih (fun s hmem => hsteps s (List.mem_cons_of_mem _ hmem)) ?_
    cases step with
    | toRoot => cases hs; simp
    | stay =>
      simp only [takeStep] at hs
      split_ifs at hs
      cases hs
      exact hhere
    | up =>
      simp only [takeStep] at hs
      split_ifs at hs
      cases hs
      exact fun s hmem => hhere s (List.mem_of_mem_dropLast hmem)
    | down name =>
      obtain ⟨hisStep, hup, hfree⟩ := hsteps name (List.mem_cons_self ..)
      obtain ⟨-, hlimit, -⟩ := of_takeStep_down hs
      simp only [takeStep, ne_eq, ite_not] at hs
      split_ifs at hs
      have hnext : next = here ++ [name] := by
        split at hs
        · cases hs
        · cases hs
        · cases hs; rfl
      rw [hnext]
      intro s hmem
      rcases List.mem_append.mp hmem with hmem | hmem
      · exact hhere s hmem
      · rw [List.mem_singleton.mp hmem]
        exact ⟨hisStep, hup, hfree, hlimit⟩
  | @link links here l step rest target _ _ ih =>
    refine ih (fun s hmem => ?_) hhere
    rcases List.mem_append.mp hmem with hmem | hmem
    · obtain ⟨hname, hup⟩ := of_down_mem_stepsOf hmem
      exact ⟨Path.isStep_of_mem_names hname, hup, Path.separator_not_mem_name hname⟩
    · exact hsteps s (List.mem_cons_of_mem _ hmem)

theorem proper_of_locate (h : d.locate p = .ok l) : ∀ s ∈ l, Proper s := by
  refine (leads_of_follow (of_locate h).2).proper (fun s hs => ?_) (by simp)
  obtain ⟨hname, hup⟩ := of_down_mem_stepsOf hs
  exact ⟨Path.isStep_of_mem_names hname, hup, Path.separator_not_mem_name hname⟩

/-- The path of a place has its names. -/
theorem of_pathOf (h : ∀ s ∈ l, Proper s) : (pathOf l).isAbsolute = true ∧ (pathOf l).names = l := by
  have hrender : pathOf l = Path.render .root l := rfl
  have hfree : ∀ s ∈ l, Path.separator ∉ s := fun s hs => (h s hs).free
  rw [hrender]
  refine ⟨(Path.isAbsolute_render hfree (by simp)).mpr rfl, ?_⟩
  rw [Path.names_render _ hfree, List.filter_eq_self]
  exact fun s hs => (h s hs).isStep

theorem isAbsolute_of_canonical (h : d.canonical p = .ok q) : q.isAbsolute = true := by
  unfold canonical at h
  cases hl : d.locate p with
  | error e => rw [hl] at h; cases h
  | ok l =>
    rw [hl] at h
    cases h
    exact Path.isAbsolute_iff_head?.mpr rfl

/-! ## Up and down -/

/-- Down the names of a place that stands the way leads to it. -/
theorem follow_turns (hs : Standing d (here ++ l)) (hl : ∀ s ∈ l, Proper s) (rest : List Step) :
    d.follow links here (l.map turn ++ rest) = d.follow links (here ++ l) rest := by
  induction l generalizing here with
  | nil => simp
  | cons name l ih =>
    have hname := hl name (List.mem_cons_self ..)
    have hassoc : here ++ name :: l = here ++ [name] ++ l := by simp
    have hdir : d.node? here = some .directory :=
      hs.above here (List.prefix_append ..) (by simp)
    have hstep : d.takeStep here (.down name) = .ok (.place (here ++ [name])) := by
      have hnode : ∃ n, d.node? (here ++ [name]) = some n ∧ ∀ target, n ≠ .link target := by
        by_cases hnil : l = []
        · have := hs.here
          rwa [hassoc, hnil, List.append_nil] at this
        · refine ⟨.directory, hs.above _ ?_ ?_, by simp⟩
          · rw [hassoc]; exact List.prefix_append ..
          · rw [hassoc]; simpa using hnil
      obtain ⟨n, hn, hlink⟩ := hnode
      rw [takeStep, if_neg (by simp [hdir]), if_neg hname.short, hn]
      cases n with
      | link target => exact absurd rfl (hlink target)
      | directory => rfl
      | file c => rfl
    have hturn : turn name = .down name := if_neg hname.notUp
    rw [List.map_cons, List.cons_append, hturn, follow_cons, hstep, hassoc]
    exact ih (hassoc ▸ hs) fun s hmem => hl s (List.mem_cons_of_mem _ hmem)

/-- Up from a directory that stands the way leads to those above it. -/
theorem follow_ups {n : Nat} (hs : Standing d l) (hd : d.node? l = some .directory) (hn : n ≤ l.length)
    (rest : List Step) :
    d.follow links l (List.replicate n .up ++ rest) = d.follow links (l.take (l.length - n)) rest := by
  induction n generalizing l with
  | zero => simp
  | succ n ih =>
    have hne : l ≠ [] := by
      rintro rfl
      cases hn
    have hlen : l.dropLast.length = l.length - 1 := List.length_dropLast
    have hup : d.node? l.dropLast = some .directory := by
      refine hs.above _ (List.dropLast_prefix l) fun h => ?_
      rw [h] at hlen
      omega
    rw [List.replicate_succ, List.cons_append, follow_cons, takeStep, if_pos hd]
    show d.follow links l.dropLast _ = _
    rw [ih hs.dropLast hup (by omega), hlen, List.dropLast_eq_take, List.take_take]
    congr 2
    omega

/-! ## Back from a directory -/

/-- Joined to a directory whose path has no links and turns, a path as seen from it leads where the
path leads. -/
theorem follow_join_relative (hp : p.isAbsolute = true) (hm : ∀ s ∈ m, Proper s)
    (hs : Standing d m) (hd : d.node? m = some .directory) :
    d.follow links [] (turnsOf ((pathOf m).join (p.relative (pathOf m)))) =
      d.follow links [] (turnsOf p) := by
  obtain ⟨habs, hnames⟩ := of_pathOf hm
  obtain ⟨hrelative, hrelnames, -⟩ := Path.of_relative hp habs
  rw [hnames] at hrelnames
  generalize hc : Path.commonLength p.names m = c at hrelnames
  have hle : c ≤ m.length := hc ▸ Path.commonLength_le p.names m
  have htake : p.names.take c = m.take c := hc ▸ Path.take_commonLength p.names m
  have hup : turn Path.dotDot = .up := if_pos rfl
  calc d.follow links [] (turnsOf ((pathOf m).join (p.relative (pathOf m))))
    _ = d.follow links [] (m.map turn ++
          (List.replicate (m.length - c) Step.up ++ (p.names.drop c).map turn)) := by
      unfold turnsOf
      rw [Path.isAbsolute_join hrelative, habs, if_pos rfl, Path.names_join hrelative, hnames, hrelnames,
        List.singleton_append, follow_toRoot]
      simp [hup]
    _ = d.follow links m (List.replicate (m.length - c) Step.up ++ (p.names.drop c).map turn) :=
      follow_turns hs hm _
    _ = d.follow links (m.take c) ((p.names.drop c).map turn) := by
      rw [follow_ups hs hd (Nat.sub_le ..)]
      congr 2
      omega
    _ = d.follow links [] ((m.take c).map turn ++ (p.names.drop c).map turn) := by
      have hs' : Standing d ([] ++ m.take c) := hs.take c
      exact (follow_turns hs' (fun s hmem => hm s (List.mem_of_mem_take hmem)) _).symm
    _ = d.follow links [] (turnsOf p) := by
      unfold turnsOf
      rw [hp, if_pos rfl, List.singleton_append, follow_toRoot, ← htake, ← List.map_append,
        List.take_append_drop]

/-! ## Files in directories -/

/-- The steps of a path that ends in a name: its last one is the turn of the name. -/
theorem stepsOf_append {front : List Name} {s : Name} (hends : p.EndsInName)
    (hnames : p.names = front ++ [s]) :
    ∃ body, stepsOf p = (if p.isAbsolute then [Step.toRoot] else []) ++ (body ++ [turn s]) ∧
      (∀ step ∈ body, step ≠ .toRoot) ∧ body.filter (· ≠ .stay) = front.map turn := by
  obtain ⟨body, hsteps, hroot, hturns⟩ := stepsOf_eq p
  obtain ⟨step, hlast, hstay, hne⟩ := getLast?_stepsOf hends
  have hbody : body ≠ [] := by
    rintro rfl
    simp [hnames] at hturns
  obtain ⟨before, hbefore⟩ : ∃ before, body = before ++ [step] := by
    refine List.getLast?_eq_some_iff.mp ?_
    rw [hsteps, List.getLast?_append_of_ne_nil _ hbody] at hlast
    exact hlast
  have hfilter : before.filter (· ≠ .stay) ++ [step] = front.map turn ++ [turn s] := by
    rw [hbefore, hnames, List.filter_append, List.map_append] at hturns
    simpa [hstay] using hturns
  obtain ⟨hfront, hstep⟩ := List.append_inj' hfilter rfl
  refine ⟨before, ?_, fun step' h => hroot step' (by simp [hbefore, h]), hfront⟩
  rw [hsteps, hbefore, List.singleton_inj.mp hstep]

/-- To a directory all steps with the turns of a path lead alike. -/
theorem follow_of_turns (hroot : ∀ step ∈ xs, step ≠ .toRoot)
    (hturns : xs.filter (· ≠ .stay) = p.names.map turn) (hd : d.node? l = some .directory)
    (h : d.follow links [] (turnsOf p) = .ok l) :
    d.follow links [] ((if p.isAbsolute then [Step.toRoot] else []) ++ xs) = .ok l := by
  rw [turnsOf, ← hturns] at h
  split_ifs at h ⊢
  · rw [List.singleton_append, follow_toRoot] at h ⊢
    exact follow_of_filter hroot (.inr hd) h
  · exact follow_of_filter hroot (.inr hd) h

/-- The place of a directory; the empty path is the working directory. -/
def DirectoryAt (d : Disk) (p : Path) (l : Location) : Prop :=
  d.follow linkLimit [] (stepsOf (d.absolute p)) = .ok l ∧ d.node? l = some .directory

/-- **What a name in a directory leads to** stands in the directory under this name, or a link stands
there. -/
theorem of_locate_join (hstep : Path.isStep q.glyphs = true) (hup : q.glyphs ≠ Path.dotDot)
    (hfree : Path.separator ∉ q.glyphs) (h : d.locate (base.join q) = .ok l) :
    ∃ m, d.DirectoryAt base m ∧ Proper q.glyphs ∧
      (l = m ++ [q.glyphs] ∨ ∃ target, d.node? (m ++ [q.glyphs]) = some (.link target)) := by
  obtain ⟨habs, hone, hends⟩ := Path.of_oneName hstep hfree
  obtain ⟨hstart, hnames⟩ : (d.absolute (base.join q)).isAbsolute = (d.absolute base).isAbsolute ∧
      (d.absolute (base.join q)).names = (d.absolute base).names ++ [q.glyphs] :=
    hone ▸ Path.join_join d.workingDirectory habs
  have hends' : (d.absolute (base.join q)).EndsInName := (hends.join base).join _
  obtain ⟨body, hsteps, -, hturns⟩ := stepsOf_append hends' hnames
  have hturn : turn q.glyphs = .down q.glyphs := if_neg hup
  have hlocate := (of_locate h).2
  rw [hsteps, hstart, hturn, ← List.append_assoc] at hlocate
  -- the way goes through a directory, and the name in it is the last step
  have hleads := leads_of_follow hlocate
  obtain ⟨m, hm, hd, hshort, -⟩ := hleads.of_down
  refine ⟨m, ⟨?_, hd⟩, ⟨hstep, hup, hfree, hshort⟩, ?_⟩
  · have hway := follow_filter hm
    rw [List.filter_append, hturns] at hway
    have hturnsOf : d.follow linkLimit [] (turnsOf (d.absolute base)) = .ok m := by
      unfold turnsOf
      split_ifs at hway ⊢ <;> exact hway
    obtain ⟨body', hsteps', hroot', hturns'⟩ := stepsOf_eq (d.absolute base)
    rw [hsteps']
    exact follow_of_turns hroot' hturns' hd hturnsOf
  · obtain ⟨left, hleft⟩ := (leads_of_follow hm).append
    rw [hleft, follow_cons, takeStep, if_neg (by simp [hd]), if_neg hshort] at hlocate
    cases hn : d.node? (m ++ [q.glyphs]) with
    | none => rw [hn] at hlocate; cases hlocate
    | some n =>
      rw [hn] at hlocate
      cases n with
      | link target => exact Or.inr ⟨target, rfl⟩
      | directory | file c =>
        simp only [follow_nil] at hlocate
        exact Or.inl (Except.ok.inj hlocate).symm

/-- What comes behind steps that lead somewhere is aimed at from there. -/
theorem Leads.aims_append {ys : List Step} (h : Leads d links here xs m)
    (hys : ∀ left, Aims d left m ys l) : Aims d links here (xs ++ ys) l := by
  induction h with
  | nil => exact hys _
  | place hs _ ih => exact .place hs (ih hys)
  | link hs _ ih => exact .link hs (List.append_assoc .. ▸ ih hys)

/-- The way to a proper name in a directory is one to the directory and then the name. -/
theorem exists_way (hl : d.locate base = .ok l) (hd : d.node? l = some .directory)
    (hname : Proper q.glyphs) : ∃ way, stepsOf (d.absolute (base.join q)) = way ++ [.down q.glyphs] ∧
      d.follow linkLimit [] way = .ok l := by
  obtain ⟨habs, hone, hends⟩ := Path.of_oneName hname.isStep hname.free
  obtain ⟨hstart, hnames⟩ : (d.absolute (base.join q)).isAbsolute = (d.absolute base).isAbsolute ∧
      (d.absolute (base.join q)).names = (d.absolute base).names ++ [q.glyphs] :=
    hone ▸ Path.join_join d.workingDirectory habs
  have hends' : (d.absolute (base.join q)).EndsInName := (hends.join base).join _
  obtain ⟨body, hsteps, hroot, hturns⟩ := stepsOf_append hends' hnames
  have hturn : turn q.glyphs = .down q.glyphs := if_neg hname.notUp
  rw [hstart, hturn, ← List.append_assoc] at hsteps
  exact ⟨_, hsteps, follow_of_turns hroot hturns hd (follow_turnsOf (of_locate hl).2)⟩

/-- **What stands in a directory** is where its name leads, unless it is a link. -/
theorem locate_in_directory {n : Node} (hl : d.locate base = .ok l)
    (hd : d.node? l = some .directory) (hname : Proper q.glyphs)
    (hr : refusal? (base.join q) = none) (hn : d.node? (l ++ [q.glyphs]) = some n)
    (hlink : ∀ target, n ≠ .link target) : d.locate (base.join q) = .ok (l ++ [q.glyphs]) := by
  obtain ⟨way, hsteps, hway⟩ := exists_way hl hd hname
  obtain ⟨left, hleft⟩ := (leads_of_follow hway).append
  refine locate_eq hr ?_
  rw [hsteps, hleft, follow_cons, takeStep, if_neg (by simp [hd]), if_neg hname.short, hn]
  cases n with
  | link target => exact absurd rfl (hlink target)
  | directory | file content => exact follow_nil ..

/-- **A file can be written in a directory** by a proper name, where it fits. -/
theorem writable_of_directory (hl : d.locate base = .ok l) (hd : d.node? l = some .directory)
    (hname : Proper q.glyphs) (hr : refusal? (base.join q) = none)
    (hfits : FitsFile d (l ++ [q.glyphs])) :
    Writable d (base.join q) (l ++ [q.glyphs]) := by
  obtain ⟨way, hsteps, hway⟩ := exists_way hl hd hname
  have hlast : ∀ left, Aims d left l [.down q.glyphs] (l ++ [q.glyphs]) := by
    intro left
    rcases hfits with hfree | ⟨content, hfile⟩
    · refine .free ?_
      rw [takeStep, if_neg (by simp [hd]), if_neg hname.short, hfree]
    · refine .place ?_ .nil
      rw [takeStep, if_neg (by simp [hd]), if_neg hname.short, hfile]
  refine ⟨hr, ?_, hfits.not_directory⟩
  rw [hsteps]
  exact ((leads_of_follow hway).aims_append hlast).site

/-! ## Back to a path -/

theorem of_isDirectory (h : d.isDirectory p = true) :
    ∃ l, d.locate p = .ok l ∧ d.node? l = some .directory := by
  have hstat := isDirectory_iff.mp h
  unfold stat at hstat
  cases hl : d.locate p with
  | error e => rw [hl] at hstat; cases hstat
  | ok l =>
    simp only [hl] at hstat
    cases hn : d.node? l with
    | none => rw [hn] at hstat; cases hstat
    | some n => rw [hn] at hstat; cases hstat; exact ⟨l, rfl, hn⟩

/-- What is no directory does not say what a directory says. -/
theorem not_sameWay (hl : d.locate p = .ok l) (hfile : d.node? l ≠ some .directory)
    (hends : p.EndsInName) (hm : d.locate base = .ok m) (hd : d.node? m = some .directory) :
    ¬ Path.SameWay base p := by
  intro h
  have hlm : l = m := Except.ok.inj (hl.symm.trans (locate_of_sameWay h hends (of_locate hl).1 hm))
  rw [hlm] at hfile
  exact hfile hd

theorem locate_join_relative_of_startsWith (hl : d.locate p = .ok l)
    (hfile : d.node? l ≠ some .directory) (hends : p.EndsInName) (hbase : d.isDirectory base = true)
    (h : p.startsWith base = true) (hr : refusal? (base.join (p.relative base)) = none) :
    d.locate (base.join (p.relative base)) = .ok l := by
  obtain ⟨m, hm, hd⟩ := of_isDirectory hbase
  have hcomponents : base.components ≠ [] := by
    refine Path.components_ne_nil ?_
    by_contra hempty
    have hrefused := (of_locate hm).1
    rw [refusal?, if_pos (by simpa using hempty)] at hrefused
    cases hrefused
  obtain ⟨-, hnames, hrelative⟩ := Path.of_stripStart h hcomponents
  obtain ⟨hstart, -⟩ := Path.of_startsWith h hcomponents
  refine locate_of_sameWay (Path.sameWay_join_relative h hcomponents)
    ((hrelative fun hnil => ?_).join _) hr hl
  refine not_sameWay hl hfile hends hm hd ⟨?_, ?_⟩
  · unfold Path.isAbsolute
    rw [hstart]
  · rw [hnames, hnil, List.append_nil]

theorem locate_join_relative_of_canonical (hl : d.locate p = .ok l)
    (hfile : d.node? l ≠ some .directory) (hends : p.EndsInName) (hbase : d.isDirectory base = true)
    (hcanonical : d.canonical base = .ok base) (hp : p.isAbsolute = true)
    (hr : refusal? (base.join (p.relative base)) = none) :
    d.locate (base.join (p.relative base)) = .ok l := by
  obtain ⟨m, hm, hd⟩ := of_isDirectory hbase
  have hpath : base = pathOf m := by
    unfold canonical at hcanonical
    rw [hm] at hcanonical
    exact (Except.ok.inj hcanonical).symm
  have hproper := proper_of_locate hm
  obtain ⟨habs, hmnames⟩ := of_pathOf hproper
  rw [← hpath] at habs hmnames
  obtain ⟨hrelative, hrelnames, hrelends⟩ := Path.of_relative hp habs
  have habsolute : ∀ q : Path, q.isAbsolute = true → d.absolute q = q :=
    fun q hq => Path.join_of_isAbsolute _ hq
  have hends' : (p.relative base).EndsInName := by
    refine hrelends fun hnil => not_sameWay hl hfile hends hm hd ⟨hp.trans habs.symm, ?_⟩
    -- nothing up and nothing down: the path has the names that it has in common with the directory
    rw [hrelnames, List.append_eq_nil_iff] at hnil
    obtain ⟨hup, hdown⟩ := hnil
    have hle : base.names.length ≤ Path.commonLength p.names base.names := by
      simpa [Nat.sub_eq_zero_iff_le] using hup
    calc p.names
      _ = p.names.take (Path.commonLength p.names base.names) := by
        rw [List.take_of_length_le (List.drop_eq_nil_iff.mp hdown)]
      _ = base.names := by rw [Path.take_commonLength, List.take_of_length_le hle]
  refine locate_eq hr (follow_of_turnsOf ((hends'.join _).join _) ?_)
  have hfollow := follow_turnsOf (of_locate hl).2
  rw [habsolute p hp] at hfollow
  rw [habsolute _ ((Path.isAbsolute_join hrelative).trans habs), hpath,
    follow_join_relative hp hproper (standing_of_locate hm) hd]
  exact hfollow

/-- **A path as seen from a directory, joined to it, leads where the path leads**, if the directory
begins the path or is given by its canonical path. -/
theorem locate_join_relative (hl : d.locate p = .ok l) (hfile : d.node? l ≠ some .directory)
    (hends : p.EndsInName) (hbase : d.isDirectory base = true)
    (h : p.startsWith base = true ∨ d.canonical base = .ok base ∧ p.isAbsolute = true)
    (hr : refusal? (base.join (p.relative base)) = none) :
    d.locate (base.join (p.relative base)) = .ok l := by
  rcases h with h | ⟨hcanonical, hp⟩
  · exact locate_join_relative_of_startsWith hl hfile hends hbase h hr
  · exact locate_join_relative_of_canonical hl hfile hends hbase hcanonical hp hr

end ComponentRegistry.Disk
