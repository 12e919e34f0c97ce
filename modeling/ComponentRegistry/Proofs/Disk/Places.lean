import ComponentRegistry.Disk.Basic
import Mathlib.Data.List.Infix

/-!
# Where paths lead

Following a path ends at a place that stands on the disk (`standing_of_locate`): there is a node
that is no link, below directories only.  So what a path leads to is one of finitely many places
(`mem_places`), and a canonical path is the path of one of them.
-/

namespace ComponentRegistry.Disk

variable {d : Disk}

/-! ## One step, many steps -/

@[simp] theorem node?_nil (d : Disk) : d.node? [] = some .directory := rfl

theorem follow_nil (d : Disk) (links : Nat) (here : Location) : d.follow links here [] = .ok here := by
  cases links <;> rfl

/-- Following steps takes the first one and goes on; a link uses up one of the links left. -/
theorem follow_cons (d : Disk) (links : Nat) (here : Location) (step : Step) (rest : List Step) :
    d.follow links here (step :: rest) =
      match d.takeStep here step with
      | .error e => .error e
      | .ok (.place l) => d.follow links l rest
      | .ok (.link target) =>
        match links with
        | 0 => .error .tooManyLinks
        | links + 1 => d.follow links here (stepsOf target ++ rest) := by
  cases hs : d.takeStep here step with
  | error e => cases links <;> simp only [follow, followWith, hs]
  | ok a =>
    cases a with
    | place l => cases links <;> simp only [follow, followWith, hs]
    | link target => cases links <;> simp only [follow, followWith, hs]

/-- Following so many links at most, the steps lead from one place to another. -/
inductive Leads (d : Disk) : Nat → Location → List Step → Location → Prop where
  | nil {links : Nat} {l : Location} : Leads d links l [] l
  | place {links : Nat} {here next l : Location} {step : Step} {rest : List Step} :
    d.takeStep here step = .ok (.place next) → Leads d links next rest l →
    Leads d links here (step :: rest) l
  | link {links : Nat} {here l : Location} {step : Step} {rest : List Step} {target : Path} :
    d.takeStep here step = .ok (.link target) → Leads d links here (stepsOf target ++ rest) l →
    Leads d (links + 1) here (step :: rest) l

theorem Leads.follow {links : Nat} {here l : Location} {steps : List Step}
    (h : Leads d links here steps l) : d.follow links here steps = .ok l := by
  induction h with
  | nil => exact follow_nil ..
  | place hs _ ih => rw [follow_cons, hs]; exact ih
  | link hs _ ih => rw [follow_cons, hs]; exact ih

theorem leads_of_follow {links : Nat} {here l : Location} {steps : List Step}
    (h : d.follow links here steps = .ok l) : Leads d links here steps l := by
  -- behind a link there are fewer links left, but not fewer steps
  induction links using Nat.strong_induction_on generalizing here steps with
  | h links ihl =>
    induction steps generalizing here with
    | nil => rw [follow_nil] at h; cases h; exact .nil
    | cons step rest ih =>
      rw [follow_cons] at h
      cases hs : d.takeStep here step with
      | error e => rw [hs] at h; cases h
      | ok a =>
        rw [hs] at h
        cases a with
        | place next => exact .place hs (ih h)
        | link target =>
          cases links with
          | zero => cases h
          | succ links => exact .link hs (ihl links (Nat.lt_succ_self links) h)

/-! ## Places that stand -/

/-- A node stands at `l` that is no link, and above it stand directories. -/
structure Standing (d : Disk) (l : Location) : Prop where
  here : ∃ n, d.node? l = some n ∧ ∀ target, n ≠ .link target
  above : ∀ m, m <+: l → m ≠ l → d.node? m = some .directory

theorem standing_nil (d : Disk) : Standing d [] :=
  ⟨⟨.directory, rfl, by simp⟩, fun m hm hne => absurd (List.prefix_nil.mp hm) hne⟩

theorem Standing.dropLast {l : Location} (h : Standing d l) : Standing d l.dropLast := by
  by_cases hl : l = []
  · subst hl; exact standing_nil d
  have hlen : l.dropLast.length < l.length := by
    have := List.length_pos_of_ne_nil hl
    rw [List.length_dropLast]
    omega
  have hne : l.dropLast ≠ l := fun he => by rw [he] at hlen; omega
  refine ⟨⟨.directory, h.above _ (List.dropLast_prefix l) hne, by simp⟩, fun m hm _ => ?_⟩
  refine h.above m (hm.trans (List.dropLast_prefix l)) ?_
  rintro rfl
  have := hm.length_le
  omega

theorem Standing.take {l : Location} (h : Standing d l) (n : Nat) : Standing d (l.take n) := by
  by_cases hl : l.take n = l
  · rw [hl]
    exact h
  · refine ⟨⟨.directory, h.above _ (List.take_prefix n l) hl, by simp⟩, fun m hm hne => ?_⟩
    refine h.above m (hm.trans (List.take_prefix n l)) ?_
    rintro rfl
    exact hne (List.IsPrefix.eq_of_length_le hm (List.length_take_le' n m))

theorem Standing.child {l : Location} {name : Name} {n : Node} (h : Standing d l)
    (hl : d.node? l = some .directory) (hn : d.node? (l ++ [name]) = some n)
    (hlink : ∀ target, n ≠ .link target) : Standing d (l ++ [name]) := by
  refine ⟨⟨n, hn, hlink⟩, fun m hm hne => ?_⟩
  rcases List.prefix_concat_iff.mp hm with heq | hm
  · exact absurd heq hne
  · by_cases hml : m = l
    · rw [hml]; exact hl
    · exact h.above m hm hml

theorem standing_of_takeStep {here l : Location} {step : Step} (h : Standing d here)
    (hs : d.takeStep here step = .ok (.place l)) : Standing d l := by
  cases step with
  | toRoot => cases hs; exact standing_nil d
  | stay =>
    simp only [takeStep] at hs
    split_ifs at hs
    cases hs; exact h
  | up =>
    simp only [takeStep] at hs
    split_ifs at hs
    cases hs; exact h.dropLast
  | down name =>
    simp only [takeStep] at hs
    split_ifs at hs with hd hn
    have hdir : d.node? here = some .directory := by simpa using hd
    cases hnode : d.node? (here ++ [name]) with
    | none => rw [hnode] at hs; cases hs
    | some n =>
      rw [hnode] at hs
      cases n with
      | link target => cases hs
      | directory => cases hs; exact h.child hdir hnode (by simp)
      | file c => cases hs; exact h.child hdir hnode (by simp)

/-- Steps from a standing place lead to a standing place. -/
theorem Leads.standing {links : Nat} {here l : Location} {steps : List Step}
    (h : Leads d links here steps l) (hs : Standing d here) : Standing d l := by
  induction h with
  | nil => exact hs
  | place hstep _ ih => exact ih (standing_of_takeStep hs hstep)
  | link _ _ ih => exact ih hs

theorem standing_of_locate {p : Path} {l : Location} (h : d.locate p = .ok l) : Standing d l := by
  unfold locate at h
  split at h
  · cases h
  · exact (leads_of_follow h).standing (standing_nil d)

/-! ## Finitely many places -/

/-- The paths of all places of a disk. -/
def places (d : Disk) : List Path := ([] :: d.locations).map pathOf

theorem length_places (d : Disk) : d.places.length = d.nodes.length + 1 := by
  simp [places, locations]

/-- Below the root stands what is listed first for a place. -/
theorem node?_of_ne_nil (d : Disk) {l : Location} (hl : l ≠ []) :
    d.node? l = (d.nodes.find? fun e => e.1 = l).map (·.2) := by
  cases l with
  | nil => exact absurd rfl hl
  | cons name rest => rfl

theorem mem_locations_of_node? {l : Location} {n : Node} (hl : l ≠ []) (h : d.node? l = some n) :
    l ∈ d.locations := by
  rw [node?_of_ne_nil d hl, Option.map_eq_some_iff] at h
  obtain ⟨e, he, -⟩ := h
  have hplace : e.1 = l := by simpa using List.find?_some he
  exact List.mem_map.mpr ⟨e, List.mem_of_find?_eq_some he, hplace⟩

/-- A canonical path is the path of a place. -/
theorem mem_places {p q : Path} (h : d.canonical p = .ok q) : q ∈ d.places := by
  unfold canonical at h
  cases hl : d.locate p with
  | error e => rw [hl] at h; cases h
  | ok l =>
    rw [hl] at h
    cases h
    refine List.mem_map_of_mem (List.mem_cons.mpr ?_)
    by_cases hnil : l = []
    · exact Or.inl hnil
    · obtain ⟨n, hn, -⟩ := (standing_of_locate hl).here
      exact Or.inr (mem_locations_of_node? hnil hn)

/-- A text is read only where a path leads. -/
theorem canonical_of_readText {p : Path} {text : String} (h : d.readText p = .ok text) :
    ∃ q, d.canonical p = .ok q := by
  unfold readText stat at h
  cases hl : d.locate p with
  | error e => rw [hl] at h; cases h
  | ok l => exact ⟨pathOf l, by rw [canonical, hl]; rfl⟩

/-! ## Small disks -/

/-- The names of a path. -/
def locationOf (place : String) : Location :=
  (stepsOf (Path.ofString place)).filterMap fun
    | .down name => some name
    | _ => none

/-- The disk of these text files and the directories above them. -/
def ofTexts (texts : List (String × String)) : Disk where
  nodes := (texts.flatMap fun t => (locationOf t.1).dropLast.inits.tail.map (·, .directory)).eraseDups
    ++ texts.map fun t => (locationOf t.1, .file (.text t.2))
  workingDirectory := Path.ofString "/"

end ComponentRegistry.Disk
