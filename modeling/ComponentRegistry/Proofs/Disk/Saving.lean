import ComponentRegistry.Proofs.Disk.Growth
import Mathlib.Data.List.DropRight

/-!
# Saving again

Making directories and writing a file make a disk grow, and doing the same again changes nothing
(`makeTree_again`, `writeFile_again`).  Directories are made where nothing stood (`Makes.fresh`), and
a file that is written changes nothing but the place that its path leads to (`of_writeFile`).
-/

namespace ComponentRegistry.Disk

variable {d d' : Disk} {p : Path}

/-! ## Parts of a way -/

section Ways

variable {links : Nat} {here l : Location} {steps xs ys : List Step}

/-- Behind steps that lead somewhere the way goes on from there, with the links that are left. -/
theorem Leads.append_le (h : Leads d links here xs l) :
    ∃ left ≤ links, ∀ ys, d.follow links here (xs ++ ys) = d.follow left l ys := by
  induction h with
  | @nil links l => exact ⟨links, le_rfl, fun _ => rfl⟩
  | place hs _ ih =>
    obtain ⟨left, hle, hleft⟩ := ih
    refine ⟨left, hle, fun ys => ?_⟩
    rw [List.cons_append, follow_cons, hs]
    exact hleft ys
  | link hs _ ih =>
    obtain ⟨left, hle, hleft⟩ := ih
    refine ⟨left, Nat.le_succ_of_le hle, fun ys => ?_⟩
    rw [List.cons_append, follow_cons, hs]
    have hrest := hleft ys
    rwa [List.append_assoc] at hrest

theorem Leads.append (h : Leads d links here xs l) :
    ∃ left, ∀ ys, d.follow links here (xs ++ ys) = d.follow left l ys :=
  h.append_le.imp fun _ hleft => hleft.2

/-- The first steps of a way lead somewhere. -/
theorem Leads.of_append (h : Leads d links here (xs ++ ys) l) : ∃ m, Leads d links here xs m := by
  generalize hsteps : xs ++ ys = steps at h
  induction h generalizing xs with
  | @nil links l =>
    obtain ⟨rfl, -⟩ := List.append_eq_nil_iff.mp hsteps
    exact ⟨l, .nil⟩
  | @place links here next l step rest hs _ ih =>
    cases xs with
    | nil => exact ⟨here, .nil⟩
    | cons x xs =>
      obtain ⟨rfl, hrest⟩ := List.cons.inj hsteps
      obtain ⟨m, hm⟩ := ih hrest
      exact ⟨m, .place hs hm⟩
  | @link links here l step rest target hs _ ih =>
    cases xs with
    | nil => exact ⟨here, .nil⟩
    | cons x xs =>
      obtain ⟨rfl, rfl⟩ := List.cons.inj hsteps
      obtain ⟨m, hm⟩ := ih (List.append_assoc ..)
      exact ⟨m, .link hs hm⟩

/-- Staying in a directory leads nowhere else. -/
theorem leads_stays (hd : d.node? l = some .directory) {stays : List Step}
    (hs : ∀ step ∈ stays, step = .stay) : Leads d links l stays l := by
  induction stays with
  | nil => exact .nil
  | cons step stays ih =>
    obtain rfl := hs step (List.mem_cons_self ..)
    refine .place ?_ (ih fun step' h => hs step' (List.mem_cons_of_mem _ h))
    rw [takeStep, if_pos hd]

/-- A step down is possible from a directory to a name that stands there. -/
theorem of_takeStep_down {name : Name} {a : Arrival} (h : d.takeStep here (.down name) = .ok a) :
    d.node? here = some .directory ∧ ¬ nameLimit < Text.byteCount name ∧
      (d.node? (here ++ [name])).isSome = true := by
  simp only [takeStep, ne_eq, ite_not] at h
  split_ifs at h with hd hlimit
  cases hn : d.node? (here ++ [name]) with
  | none => rw [hn] at h; cases h
  | some n => exact ⟨hd, hlimit, rfl⟩

/-- A way that goes down and stays there goes through a directory. -/
theorem Leads.of_down {name : Name} (h : Leads d links here (xs ++ .down name :: ys) l) :
    ∃ dir, d.follow links here xs = .ok dir ∧ d.node? dir = some .directory ∧
      ¬ nameLimit < Text.byteCount name ∧ (d.node? (dir ++ [name])).isSome = true := by
  obtain ⟨dir, hdir⟩ := h.of_append
  obtain ⟨left, hleft⟩ := hdir.append
  refine ⟨dir, hdir.follow, ?_⟩
  have hdown := h.follow
  rw [hleft] at hdown
  cases leads_of_follow hdown with
  | place hs _ => exact of_takeStep_down hs
  | link hs _ => exact of_takeStep_down hs

/-- A way ends with a step down and stays, or it does not go down before its stays. -/
theorem down_or_not (steps : List Step) :
    (∃ before name stays, steps = before ++ .down name :: stays ∧ ∀ step ∈ stays, step = .stay) ∨
      ∀ name, (steps.rdropWhile (· = .stay)).getLast? ≠ some (.down name) := by
  by_cases h : ∃ name, (steps.rdropWhile (· = Step.stay)).getLast? = some (.down name)
  · obtain ⟨name, hname⟩ := h
    obtain ⟨before, hbefore⟩ := List.getLast?_eq_some_iff.mp hname
    refine Or.inl ⟨before, name, steps.rtakeWhile (· = Step.stay), ?_, fun step hs => ?_⟩
    · calc steps
        _ = steps.rdropWhile (· = .stay) ++ steps.rtakeWhile (· = .stay) :=
          (List.rdropWhile_append_rtakeWhile ..).symm
        _ = before ++ .down name :: steps.rtakeWhile (· = .stay) := by
          rw [hbefore, List.append_assoc]; rfl
    · simpa using List.mem_rtakeWhile_imp hs
  · exact Or.inr fun name hname => h ⟨name, hname⟩

end Ways

/-! ## Making directories -/

section Directories

variable {l : Location}

/-- Making a directory of a name: where the way leads before the name nothing may stand there. -/
theorem makeDirectory_down {before stays : List Step} {name : Name} (hr : refusal? p = none)
    (hsteps : stepsOf (d.absolute p) = before ++ .down name :: stays)
    (hstays : ∀ step ∈ stays, step = .stay) :
    d.makeDirectory p = match d.follow linkLimit [] before with
      | .error e => .error e
      | .ok dir =>
        if d.node? dir ≠ some .directory then .error .notDirectory
        else if nameLimit < Text.byteCount name then .error .nameTooLong
        else if (d.node? (dir ++ [name])).isSome then .error .fileExists
        else .ok (d.put (dir ++ [name]) .directory) := by
  have hnamed : ((stepsOf (d.absolute p)).reverse.dropWhile (· = Step.stay)).reverse =
      before ++ [.down name] := by
    have hall : stays.reverse.dropWhile (· = Step.stay) = [] := by
      simpa [List.dropWhile_eq_nil_iff] using hstays
    rw [hsteps, List.reverse_append, List.reverse_cons, List.append_assoc, List.dropWhile_append,
      hall]
    simp
  unfold makeDirectory
  cases hdir : d.follow linkLimit [] before with
  | error e => simp only [hr, hnamed, List.getLast?_concat, List.dropLast_concat, hdir]
  | ok dir => simp only [hr, hnamed, List.getLast?_concat, List.dropLast_concat, hdir]

/-- No directory is made of what is no name. -/
theorem makeDirectory_other (hr : refusal? p = none)
    (h : ∀ name, ((stepsOf (d.absolute p)).rdropWhile (· = .stay)).getLast? ≠ some (.down name)) :
    d.makeDirectory p = match d.follow linkLimit [] (stepsOf (d.absolute p)) with
      | .error e => .error e
      | .ok _ => .error .fileExists := by
  unfold List.rdropWhile at h
  unfold makeDirectory
  cases hlast : ((stepsOf (d.absolute p)).reverse.dropWhile (· = Step.stay)).reverse.getLast? with
  | none => cases hf : d.follow linkLimit [] (stepsOf (d.absolute p)) <;> simp only [hr, hlast, hf]
  | some step =>
    cases step with
    | down name => exact absurd hlast (h name)
    | toRoot | stay | up =>
      cases hf : d.follow linkLimit [] (stepsOf (d.absolute p)) <;> simp only [hr, hlast, hf]

/-- Where a path leads already no directory is made. -/
theorem makeDirectory_of_locate (h : d.locate p = .ok l) : d.makeDirectory p = .error .fileExists := by
  unfold locate at h
  cases hr : refusal? p with
  | some e => rw [hr] at h; cases h
  | none =>
    rw [hr] at h
    rcases down_or_not (stepsOf (d.absolute p)) with ⟨before, name, stays, hsteps, hstays⟩ | hother
    · simp only [hsteps] at h
      obtain ⟨dir, hdir, hnode, hlimit, hsome⟩ := (leads_of_follow h).of_down
      rw [makeDirectory_down hr hsteps hstays, hdir]
      simp only
      rw [if_neg (by simp [hnode]), if_neg hlimit, if_pos hsome]
    · rw [makeDirectory_other hr hother]
      simp only [h]

/-- What making a directory does: it stands where nothing stood, its path leads there, and nothing
else has changed. -/
structure Made (d d' : Disk) (p : Path) (l : Location) : Prop where
  notRoot : l ≠ []
  free : d.node? l = none
  disk : d' = d.put l .directory
  leads : d'.locate p = .ok l

theorem Made.extends (h : Made d d' p l) : Extends d d' := by
  rw [h.disk]
  exact extends_put h.notRoot h.free

theorem Made.node? (h : Made d d' p l) (m : Location) :
    d'.node? m = if m = l then some .directory else d.node? m := by
  rw [h.disk, node?_put d h.notRoot]

theorem Made.isDirectory (h : Made d d' p l) : d'.isDirectory p = true := by
  refine isDirectory_iff.mpr ?_
  rw [stat, h.leads]
  simp [h.node?]

/-- The way to a directory that is put at the end of it: the old way, one step down, and stays. -/
theorem made_put {before stays : List Step} {name : Name} {dir : Location}
    (hr : refusal? p = none) (hsteps : stepsOf (d.absolute p) = before ++ .down name :: stays)
    (hstays : ∀ step ∈ stays, step = .stay) (hfree : d.node? (dir ++ [name]) = none)
    (hdir : d.follow linkLimit [] before = .ok dir) (hnode : d.node? dir = some .directory)
    (hlimit : ¬ nameLimit < Text.byteCount name) :
    Made d (d.put (dir ++ [name]) .directory) p (dir ++ [name]) := by
  have hgrows : Grows d (d.put (dir ++ [name]) .directory) := (extends_put (by simp) hfree).grows
  have hmade : (d.put (dir ++ [name]) .directory).node? (dir ++ [name]) = some .directory := by
    rw [node?_put d (by simp), if_pos rfl]
  have hstep : (d.put (dir ++ [name]) .directory).takeStep dir (.down name) =
      .ok (.place (dir ++ [name])) := by
    rw [takeStep, if_neg (by simp [hgrows.directory hnode]), if_neg hlimit, hmade]
  obtain ⟨left, hleft⟩ := (hgrows.leads (leads_of_follow hdir)).append
  refine ⟨by simp, hfree, rfl, ?_⟩
  rw [locate, hr, hgrows.absolute]
  show follow _ linkLimit [] (stepsOf (d.absolute p)) = _
  rw [hsteps, hleft]
  exact (Leads.place hstep (leads_stays hmade hstays)).follow

theorem of_makeDirectory (h : d.makeDirectory p = .ok d') : ∃ l, Made d d' p l := by
  cases hr : refusal? p with
  | some e => rw [makeDirectory, hr] at h; cases h
  | none =>
    rcases down_or_not (stepsOf (d.absolute p)) with ⟨before, name, stays, hsteps, hstays⟩ | hother
    · rw [makeDirectory_down hr hsteps hstays] at h
      cases hdir : d.follow linkLimit [] before with
      | error e => rw [hdir] at h; cases h
      | ok dir =>
        simp only [hdir, ne_eq, ite_not] at h
        split_ifs at h with hnode hlimit hsome
        cases h
        exact ⟨_, made_put hr hsteps hstays (by simpa using hsome) hdir hnode hlimit⟩
    · rw [makeDirectory_other hr hother] at h
      split at h <;> cases h

/-- Directories of these paths are made one after the other. -/
inductive Makes (paths : List Path) (d : Disk) : Disk → Prop where
  | nothing : Makes paths d d
  | more {d' d'' : Disk} {p : Path} {l : Location} : Makes paths d d' → p ∈ paths →
    Made d' d'' p l → Makes paths d d''

section Makes

variable {paths : List Path} {n : Node}

theorem Makes.extends (h : Makes paths d d') : Extends d d' := by
  induction h with
  | nothing => exact .refl d
  | more _ _ hmade ih => exact ih.trans hmade.extends

theorem Makes.above (h : Makes paths d d') (p : Path) : Makes (p :: paths) d d' := by
  induction h with
  | nothing => exact .nothing
  | more _ hp hmade ih => exact ih.more (List.mem_cons_of_mem _ hp) hmade

/-- What is new are directories, and the paths lead to them. -/
theorem Makes.fresh (h : Makes paths d d') (hfree : d.node? l = none) (hn : d'.node? l = some n) :
    n = .directory ∧ ∃ p ∈ paths, d'.locate p = .ok l := by
  induction h with
  | nothing => rw [hfree] at hn; cases hn
  | @more d' d'' p m _ hp hmade ih =>
    rw [hmade.node?] at hn
    by_cases hm : l = m
    · rw [if_pos hm] at hn
      cases hn
      exact ⟨rfl, p, hp, hm ▸ hmade.leads⟩
    · rw [if_neg hm] at hn
      obtain ⟨hdirectory, q, hq, hleads⟩ := ih hn
      exact ⟨hdirectory, q, hq, hmade.extends.grows.locate hleads⟩

end Makes

/-- A failure is excused only where a directory stands already. -/
theorem isDirectory_of_excused {e : IoFault}
    (h : (if d.isDirectory p then Except.ok () else .error e) = .ok ()) : d.isDirectory p = true := by
  by_contra hdir
  rw [if_neg hdir] at h
  cases h

/-- Directories that were made stand where nothing stood, also if the first of the paths could not be
made; if it could, it leads to a directory now. -/
theorem of_makeAllFrom {paths : List Path} {made : Except IoFault Unit}
    (h : d.makeAllFrom paths = (made, d')) :
    Makes paths d d' ∧ (made = .ok () →
      ∀ p, paths.head? = some p → p.isEmpty = false → d'.isDirectory p = true) := by
  induction paths generalizing made d' with
  | nil => cases h; exact ⟨.nothing, fun hok => by cases hok⟩
  | cons p above ih =>
    suffices hp : Makes (p :: above) d d' ∧
        (made = .ok () → p.isEmpty = false → d'.isDirectory p = true) from
      ⟨hp.1, fun hok q hq => by cases hq; exact hp.2 hok⟩
    -- the directory is made at once, or when those above it are there
    have hlast {ready after : Disk} (hready : Makes (p :: above) d ready)
        (hmake : ready.makeDirectory p = .ok after) :
        Makes (p :: above) d after ∧ after.isDirectory p = true := by
      obtain ⟨l, hmade⟩ := of_makeDirectory hmake
      exact ⟨hready.more (List.mem_cons_self ..) hmade, hmade.isDirectory⟩
    unfold makeAllFrom at h
    by_cases hempty : p.isEmpty = true
    · rw [if_pos hempty] at h
      cases h
      exact ⟨.nothing, fun _ hp => by rw [hp] at hempty; cases hempty⟩
    rw [if_neg hempty] at h
    cases hmake : d.makeDirectory p with
    | ok after =>
      rw [hmake] at h
      cases h
      exact ⟨(hlast .nothing hmake).1, fun _ _ => (hlast .nothing hmake).2⟩
    | error e =>
      simp only [hmake] at h
      by_cases hmissing : e ≠ .notFound
      · rw [if_pos hmissing] at h
        cases h
        exact ⟨.nothing, fun hok _ => isDirectory_of_excused hok⟩
      · rw [if_neg hmissing] at h
        cases habove : d.makeAllFrom above with
        | mk done ready =>
          have hready : Makes (p :: above) d ready := (ih habove).1.above p
          simp only [habove] at h
          cases done with
          | error e => cases h; exact ⟨hready, fun hok => by cases hok⟩
          | ok _ =>
            simp only at h
            cases hagain : ready.makeDirectory p with
            | ok after =>
              rw [hagain] at h
              cases h
              exact ⟨(hlast hready hagain).1, fun _ _ => (hlast hready hagain).2⟩
            | error e =>
              simp only [hagain] at h
              cases h
              exact ⟨hready, fun hok _ => isDirectory_of_excused hok⟩

/-- Where a directory is nothing has to be made. -/
theorem makeTree_again (h : d.isDirectory p = true) : d.makeTree p = (.ok (), d) := by
  have hstat := isDirectory_iff.mp h
  unfold stat at hstat
  cases hl : d.locate p with
  | error e => rw [hl] at hstat; cases hstat
  | ok l =>
    show d.makeAllFrom (p :: p.parents) = (.ok (), d)
    unfold makeAllFrom
    rw [makeDirectory_of_locate hl]
    by_cases hempty : p.isEmpty = true
    · rw [if_pos hempty]
    · rw [if_neg hempty]
      simp only
      rw [if_pos (by decide), if_pos h]

end Directories

/-! ## Writing files -/

/-- Following so many links at most, a file that is written by these steps stands at the place. -/
inductive Aims (d : Disk) : Nat → Location → List Step → Location → Prop where
  | nil {links : Nat} {l : Location} : Aims d links l [] l
  /-- The file is a new one. -/
  | free {links : Nat} {here : Location} {name : Name} :
    d.takeStep here (.down name) = .error .notFound → Aims d links here [.down name] (here ++ [name])
  | place {links : Nat} {here next l : Location} {step : Step} {rest : List Step} :
    d.takeStep here step = .ok (.place next) → Aims d links next rest l →
    Aims d links here (step :: rest) l
  | link {links : Nat} {here l : Location} {step : Step} {rest : List Step} {target : Path} :
    d.takeStep here step = .ok (.link target) → Aims d links here (stepsOf target ++ rest) l →
    Aims d (links + 1) here (step :: rest) l

section Files

variable {links : Nat} {here place : Location} {steps : List Step}

theorem site_nil (d : Disk) (links : Nat) (here : Location) : d.site links here [] = .ok here := by
  cases links <;> rfl

/-- A step that can be taken is taken as on the way to what stands. -/
theorem site_cons_ok {step : Step} {a : Arrival} (rest : List Step)
    (hs : d.takeStep here step = .ok a) :
    d.site links here (step :: rest) =
      match a with
      | .place l => d.site links l rest
      | .link target =>
        match links with
        | 0 => .error .tooManyLinks
        | links + 1 => d.site links here (stepsOf target ++ rest) := by
  cases a with
  | place l => cases links <;> simp only [site, siteWith, hs]
  | link target => cases links <;> simp only [site, siteWith, hs]

/-- Only a last name may be missing. -/
theorem site_cons_error {step : Step} {e : IoFault} {rest : List Step}
    (hs : d.takeStep here step = .error e) (h : d.site links here (step :: rest) = .ok place) :
    ∃ name, step = .down name ∧ rest = [] ∧ e = .notFound ∧ place = here ++ [name] := by
  have hsite : d.site links here (step :: rest) = siteMissing here e step rest := by
    cases links <;> simp only [site, siteWith, hs]
  rw [hsite] at h
  unfold siteMissing at h
  split at h
  · split_ifs at h with he
    cases h
    exact ⟨_, rfl, rfl, he, rfl⟩
  · split_ifs at h
  · cases h

theorem Aims.site (h : Aims d links here steps place) : d.site links here steps = .ok place := by
  induction h with
  | nil => exact site_nil ..
  | @free links here name hs =>
    cases links <;> simp only [Disk.site, siteWith, hs, siteMissing, if_true]
  | place hs _ ih => rw [site_cons_ok _ hs]; exact ih
  | link hs _ ih => rw [site_cons_ok _ hs]; exact ih

theorem aims_of_site (h : d.site links here steps = .ok place) : Aims d links here steps place := by
  -- behind a link there are fewer links left, but not fewer steps
  induction links using Nat.strong_induction_on generalizing here steps with
  | h links ihl =>
    induction steps generalizing here with
    | nil => rw [site_nil] at h; cases h; exact .nil
    | cons step rest ih =>
      cases hs : d.takeStep here step with
      | error e =>
        obtain ⟨name, rfl, rfl, rfl, rfl⟩ := site_cons_error hs h
        exact .free hs
      | ok a =>
        rw [site_cons_ok _ hs] at h
        cases a with
        | place next => exact .place hs (ih h)
        | link target =>
          cases links with
          | zero => cases h
          | succ links => exact .link hs (ihl links (Nat.lt_succ_self links) h)

/-- Nothing is missing but a name in a directory. -/
theorem takeStep_missing {name : Name} (h : d.takeStep here (.down name) = .error .notFound) :
    d.node? here = some .directory ∧ ¬ nameLimit < Text.byteCount name ∧
      d.node? (here ++ [name]) = none := by
  simp only [takeStep, ne_eq, ite_not] at h
  split_ifs at h with hd hlimit
  · cases h
  · cases hn : d.node? (here ++ [name]) with
    | none => exact ⟨hd, hlimit, rfl⟩
    | some n => rw [hn] at h; cases n <;> cases h
  · cases h

/-- No link stands where a file is written. -/
theorem Aims.not_link (h : Aims d links here steps place) (hs : Standing d here)
    (target : Path) : d.node? place ≠ some (.link target) := by
  induction h with
  | nil =>
    obtain ⟨n, hn, hlink⟩ := hs.here
    rw [hn]
    simpa using hlink target
  | free hmissing => rw [(takeStep_missing hmissing).2.2]; simp
  | place hstep _ ih => exact ih (standing_of_takeStep hs hstep)
  | link _ _ ih => exact ih hs

/-- On a disk that has grown the steps lead to the file that stands now at its place. -/
theorem Grows.leads_of_aims {n : Node} (hg : Grows d d') (h : Aims d links here steps place)
    (hn : d'.node? place = some n) (hlink : ∀ target, n ≠ .link target) :
    Leads d' links here steps place := by
  induction h with
  | nil => exact .nil
  | @free links here name hmissing =>
    obtain ⟨hdir, hlimit, -⟩ := takeStep_missing hmissing
    have hstep : d'.takeStep here (.down name) = .ok (.place (here ++ [name])) := by
      rw [Disk.takeStep, if_neg (by simp [hg.directory hdir]), if_neg hlimit, hn]
      cases n with
      | link target => exact absurd rfl (hlink target)
      | directory => rfl
      | file c => rfl
    exact .place hstep .nil
  | place hs _ ih => exact .place (hg.takeStep hs) (ih hn)
  | link hs _ ih => exact .link (hg.takeStep hs) (ih hn)

theorem Leads.aims (h : Leads d links here steps place) : Aims d links here steps place := by
  induction h with
  | nil => exact .nil
  | place hs _ ih => exact .place hs ih
  | link hs _ ih => exact .link hs ih

/-- On a disk that has grown the steps still aim at a place that is free. -/
theorem Grows.aims_of_free (hg : Grows d d') (h : Aims d links here steps place)
    (hfree : d'.node? place = none) : Aims d' links here steps place := by
  induction h with
  | nil => exact .nil
  | @free links here name hmissing =>
    obtain ⟨hdir, hlimit, -⟩ := takeStep_missing hmissing
    refine .free ?_
    rw [Disk.takeStep, if_neg (by simp [hg.directory hdir]), if_neg hlimit, hfree]
  | place hs _ ih => exact .place (hg.takeStep hs) (ih hfree)
  | link hs _ ih => exact .link (hg.takeStep hs) (ih hfree)

/-- A file can stand at the place: nothing does, or a file. -/
def FitsFile (d : Disk) (l : Location) : Prop :=
  d.node? l = none ∨ ∃ content, d.node? l = some (.file content)

theorem FitsFile.not_directory {l : Location} (h : FitsFile d l) : d.node? l ≠ some .directory := by
  rcases h with hfree | ⟨content, hfile⟩
  · rw [hfree]; simp
  · rw [hfile]; simp

/-- A file can be written by this path; it stands at the place then. -/
structure Writable (d : Disk) (p : Path) (place : Location) : Prop where
  accepted : refusal? p = none
  site : d.site linkLimit [] (stepsOf (d.absolute p)) = .ok place
  notDirectory : d.node? place ≠ some .directory

theorem Writable.writeFile (h : Writable d p place) (content : Content) :
    d.writeFile p content = .ok (d.put place (.file content)) := by
  unfold Disk.writeFile
  simp only [h.accepted, h.site, h.notDirectory, if_false]

theorem Writable.ne_nil (h : Writable d p place) : place ≠ [] := by
  rintro rfl
  exact h.notDirectory rfl

theorem Writable.fitsFile (h : Writable d p place) : FitsFile d place := by
  have hlink := (aims_of_site h.site).not_link (standing_nil d)
  cases hn : d.node? place with
  | none => exact Or.inl hn
  | some n =>
    cases n with
    | directory => exact absurd hn h.notDirectory
    | file content => exact Or.inr ⟨content, hn⟩
    | link target => exact absurd hn (hlink target)

/-- On a disk that has grown the file can be written at the same place. -/
theorem Writable.grows (h : Writable d p place) (hg : Grows d d') (hplace : FitsFile d' place) :
    Writable d' p place := by
  have haims := aims_of_site h.site
  refine ⟨h.accepted, ?_, hplace.not_directory⟩
  rw [hg.absolute]
  rcases hplace with hfree | ⟨content, hfile⟩
  · exact (hg.aims_of_free haims hfree).site
  · exact (hg.leads_of_aims haims hfile (by simp)).aims.site

/-- What writing a text to a file does: its path leads to a place that is not above any other, the
text stands there, and nothing else has changed. -/
structure Written (d d' : Disk) (p : Path) (content : Content) (place : Location) : Prop where
  notRoot : place ≠ []
  disk : d' = d.put place (.file content)
  grows : Grows d d'
  leads : d'.locate p = .ok place

theorem of_writeFile {content : Content} (h : d.writeFile p content = .ok d') :
    ∃ place, Written d d' p content place := by
  unfold writeFile at h
  cases hr : refusal? p with
  | some e => rw [hr] at h; cases h
  | none =>
    rw [hr] at h
    cases hsite : d.site linkLimit [] (stepsOf (d.absolute p)) with
    | error e => simp only [hsite] at h; cases h
    | ok place =>
      simp only [hsite] at h
      split_ifs at h with hdirectory
      cases h
      have haims := aims_of_site hsite
      have hne : place ≠ [] := by
        rintro rfl
        exact hdirectory rfl
      have hgrows : Grows d (d.put place (.file content)) := by
        refine grows_put hne fun n' hn' => ?_
        cases n' with
        | directory => exact absurd hn' hdirectory
        | link target => exact absurd hn' (haims.not_link (standing_nil d) target)
        | file c => exact .file c content
      have hnode : (d.put place (.file content)).node? place = some (.file content) := by
        rw [node?_put d hne, if_pos rfl]
      refine ⟨place, hne, rfl, hgrows, ?_⟩
      unfold locate
      rw [hr, hgrows.absolute]
      exact (hgrows.leads_of_aims haims hnode (by simp)).follow

theorem Written.node? {content : Content} (h : Written d d' p content place) (l : Location) :
    d'.node? l = if l = place then some (.file content) else d.node? l := by
  rw [h.disk, node?_put d h.notRoot]

/-- **Writing the same file again changes nothing.** -/
theorem writeFile_again {content : Content} (h : d.writeFile p content = .ok d') :
    Grows d d' ∧ d'.writeFile p content = .ok d' := by
  obtain ⟨place, hw⟩ := of_writeFile h
  have hnode : d'.node? place = some (.file content) := by rw [hw.node?, if_pos rfl]
  refine ⟨hw.grows, ?_⟩
  have hlocate := hw.leads
  unfold locate at hlocate
  unfold writeFile
  cases hr : refusal? p with
  | some e => rw [hr] at hlocate; cases hlocate
  | none =>
    rw [hr] at hlocate
    have hsite := (leads_of_follow hlocate).aims.site
    simp only [hsite]
    rw [if_neg (by simp [hnode])]
    have hsame : d'.put place (.file content) = d' := by rw [hw.disk, put_put]
    rw [hsame]

end Files

end ComponentRegistry.Disk
