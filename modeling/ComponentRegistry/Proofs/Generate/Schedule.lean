import ComponentRegistry.Proofs.Generate.Keeping
import Mathlib.Data.List.Basic

/-!
# Batches under a schedule

A schedule says whose step is next.  What a batch keeps along a schedule is a list of saves, each on
the disk that the one before it left (`Batch.chain_saves`), and the history of a component tells what
it was walked on and what was kept of it (`history`).  A schedule is fair if every component gets
its four steps; then all of them are reported (`reported_of_fair`).
-/

namespace ComponentRegistry.Generate

/-! ## Saves -/

/-- A manifest that is kept in the course of a batch: of which component, and on which disk. -/
structure Save where
  place : Nat
  task : Task
  manifest : Manifest
  disk : Disk

namespace Save

/-- What keeping it comes to. -/
def result (s : Setting) (x : Save) : Except Failure Generated :=
  (keep s x.task x.manifest x.disk).1

/-- The disk after it is kept. -/
def after (s : Setting) (x : Save) : Disk := (keep s x.task x.manifest x.disk).2

end Save

/-- Manifests kept one after the other, from a disk to another one. -/
inductive Chain (s : Setting) : Disk → List Save → Disk → Prop where
  | nil {d : Disk} : Chain s d [] d
  | cons {x : Save} {more : List Save} {d' : Disk} :
    Chain s (x.after s) more d' → Chain s x.disk (x :: more) d'

section Chains

variable {s : Setting} {d d' d'' : Disk} {xs ys : List Save} {x : Save}

theorem Save.grows (s : Setting) (x : Save) : x.disk.Grows (x.after s) := by
  have h := keeps s x.task x.manifest x.disk
  unfold Save.after
  cases hk : keep s x.task x.manifest x.disk with
  | mk result after =>
    rw [hk] at h
    cases h with
    | handedBack _ => exact .refl _
    | saved _ hextends hwritten => exact hextends.grows.trans hwritten.grows
    | refused _ hextends => exact hextends.grows

theorem Chain.grows (h : Chain s d xs d') : d.Grows d' := by
  induction h with
  | nil => exact .refl _
  | @cons x more d' _ ih => exact (x.grows s).trans ih

theorem Chain.append (h : Chain s d xs d') (h' : Chain s d' ys d'') : Chain s d (xs ++ ys) d'' := by
  induction h with
  | nil => exact h'
  | cons _ ih => exact .cons (ih h')

/-- A chain leads to the disk of each of its saves and goes on from the disk after it. -/
theorem Chain.split (h : Chain s d (xs ++ x :: ys) d') :
    Chain s d xs x.disk ∧ Chain s (x.after s) ys d' := by
  induction xs generalizing d with
  | nil => cases h with | cons h => exact ⟨.nil, h⟩
  | cons y xs ih =>
    cases h with
    | cons h =>
      obtain ⟨hbefore, hafter⟩ := ih h
      exact ⟨.cons hbefore, hafter⟩

end Chains

/-! ## Steps -/

/-- The manifest that the next step of the component at a place keeps, if it keeps one. -/
def Batch.save? (b : Batch) (i : Nat) : Option Save :=
  match b.work[i]? with
  | some (t, .walked m) => some ⟨i, t, m, b.disk⟩
  | _ => none

/-- What is kept along a schedule, in the order in which it is. -/
def Batch.saves (s : Setting) : Batch → List Nat → List Save
  | _, [] => []
  | b, i :: more => (b.save? i).toList ++ Batch.saves s (b.step s i) more

section Steps

variable {s : Setting} {b : Batch} {i j : Nat} {t : Task} {xs ys : List Nat}

/-- A step is one of its own component. -/
theorem Batch.work_step (s : Setting) (b : Batch) (i j : Nat) :
    (b.step s i).work[j]? =
      if j = i then b.work[i]?.map fun e => (e.1, (advance s b e.1 e.2).1) else b.work[j]? := by
  unfold Batch.step
  cases hi : b.work[i]? with
  | none =>
    by_cases hj : j = i
    · rw [if_pos hj, hj, hi]; rfl
    · rw [if_neg hj]
  | some e =>
    show (b.work.set i _)[j]? = _
    rw [List.getElem?_set]
    by_cases hj : j = i
    · subst hj
      have hlt : j < b.work.length := (List.getElem?_eq_some_iff.mp hi).1
      simp [hlt]
    · rw [if_neg (Ne.symm hj), if_neg hj]

theorem Batch.disk_step (s : Setting) (b : Batch) (i : Nat) :
    (b.step s i).disk = (b.save? i).elim b.disk (Save.after s) := by
  unfold Batch.step Batch.save?
  cases b.work[i]? with
  | none => rfl
  | some e =>
    obtain ⟨t, stage⟩ := e
    cases stage with
    | waiting =>
      simp only [advance]
      cases Walk.generate b.disk s.config t.file <;> rfl
    | walked m => simp only [advance, Save.after, Option.elim]
    | finished r => rfl
    | counted r n => rfl
    | reported r => rfl

theorem Batch.run_append (s : Setting) (b : Batch) (xs ys : List Nat) :
    b.run s (xs ++ ys) = (b.run s xs).run s ys :=
  List.foldl_append ..

theorem Batch.run_concat (s : Setting) (b : Batch) (xs : List Nat) (i : Nat) :
    b.run s (xs ++ [i]) = (b.run s xs).step s i :=
  Batch.run_append s b xs [i]

theorem Batch.saves_append (s : Setting) (b : Batch) (xs ys : List Nat) :
    b.saves s (xs ++ ys) = b.saves s xs ++ (b.run s xs).saves s ys := by
  induction xs generalizing b with
  | nil => rfl
  | cons i xs ih => rw [List.cons_append, saves, saves, ih, List.append_assoc]; rfl

theorem Batch.saves_concat (s : Setting) (b : Batch) (xs : List Nat) (i : Nat) :
    b.saves s (xs ++ [i]) = b.saves s xs ++ ((b.run s xs).save? i).toList := by
  rw [saves_append, saves, saves, List.append_nil]

theorem Batch.chain_step (s : Setting) (b : Batch) (i : Nat) :
    Chain s b.disk (b.save? i).toList (b.step s i).disk := by
  rw [disk_step]
  cases hx : b.save? i with
  | none => exact .nil
  | some x =>
    have hdisk : b.disk = x.disk := by
      unfold save? at hx
      split at hx
      · cases hx; rfl
      · cases hx
    rw [hdisk]
    exact .cons .nil

/-- **The disk of a batch is what its saves have made of the first one.** -/
theorem Batch.chain_saves (s : Setting) (b : Batch) (schedule : List Nat) :
    Chain s b.disk (b.saves s schedule) (b.run s schedule).disk := by
  induction schedule generalizing b with
  | nil => exact .nil
  | cons i more ih => exact (b.chain_step s i).append (ih (b.step s i))

end Steps

/-! ## Histories -/

/-- The disk that the component at a place is walked on: the one before its first step. -/
def walkDisk (s : Setting) (b : Batch) (schedule : List Nat) (i : Nat) : Disk :=
  (b.run s (schedule.takeWhile (· ≠ i))).disk

/-- The saves of the component at a place. -/
def savesOf (xs : List Save) (i : Nat) : List Save := xs.filter fun x => x.place = i

/-- The work on a component is done with this result: its walk has failed, or its manifest was kept,
once, with this result. -/
inductive Done (s : Setting) (walkedOn : Disk) (xs : List Save) (i : Nat) (t : Task) :
    Except Failure Generated → Prop where
  | failed {f : Failure} : Walk.generate walkedOn s.config t.file = .error f → savesOf xs i = [] →
    Done s walkedOn xs i t (.error f)
  | kept {x : Save} : Walk.generate walkedOn s.config t.file = .ok x.manifest → x.task = t →
    savesOf xs i = [x] → Done s walkedOn xs i t (x.result s)

/-- What has become of the component at a place, given the disk it was walked on and all saves. -/
inductive History (s : Setting) (walkedOn : Disk) (xs : List Save) (i : Nat) (t : Task) :
    Stage → Prop where
  | walked {m : Manifest} : Walk.generate walkedOn s.config t.file = .ok m → savesOf xs i = [] →
    History s walkedOn xs i t (.walked m)
  | finished {r : Except Failure Generated} : Done s walkedOn xs i t r →
    History s walkedOn xs i t (.finished r)
  | counted {r : Except Failure Generated} {n : Nat} : Done s walkedOn xs i t r →
    History s walkedOn xs i t (.counted r n)
  | reported {r : Except Failure Generated} : Done s walkedOn xs i t r →
    History s walkedOn xs i t (.reported r)

section Histories

variable {s : Setting} {b : Batch} {d d' : Disk} {tasks : List Task} {i j : Nat} {t : Task}
  {stage : Stage} {xs : List Save} {schedule : List Nat}

theorem savesOf_append (xs ys : List Save) (i : Nat) :
    savesOf (xs ++ ys) i = savesOf xs i ++ savesOf ys i :=
  List.filter_append ..

theorem Batch.place_of_save? {x : Save} (h : b.save? j = some x) :
    x.place = j ∧ x.disk = b.disk ∧ b.work[j]? = some (x.task, .walked x.manifest) := by
  unfold Batch.save? at h
  split at h
  next hwork => cases h; exact ⟨rfl, rfl, hwork⟩
  next => cases h

/-- A step of another component saves nothing of this one. -/
theorem savesOf_other (h : j ≠ i) : savesOf (xs ++ (b.save? j).toList) i = savesOf xs i := by
  rw [savesOf_append]
  cases hx : b.save? j with
  | none => exact List.append_nil _
  | some x =>
    have hne : ¬ x.place = i := by rw [(Batch.place_of_save? hx).1]; exact h
    simp [savesOf, hne]

theorem savesOf_none (h : b.save? j = none) : savesOf (xs ++ (b.save? j).toList) i = savesOf xs i := by
  rw [h, Option.toList_none, List.append_nil]

theorem Done.congr {xs ys : List Save} {r : Except Failure Generated} (h : Done s d xs i t r)
    (hsaves : savesOf ys i = savesOf xs i) : Done s d ys i t r := by
  cases h with
  | failed hwalk hnone => exact .failed hwalk (hsaves.trans hnone)
  | kept hwalk htask hone => exact .kept hwalk htask (hsaves.trans hone)

theorem History.congr {xs ys : List Save} (h : History s d xs i t stage)
    (hsaves : savesOf ys i = savesOf xs i) : History s d ys i t stage := by
  cases h with
  | walked hwalk hnone => exact .walked hwalk (hsaves.trans hnone)
  | finished hdone => exact .finished (hdone.congr hsaves)
  | counted hdone => exact .counted (hdone.congr hsaves)
  | reported hdone => exact .reported (hdone.congr hsaves)

/-- The first step of a component is its walk. -/
theorem History.first (hwork : b.work[i]? = some (t, .waiting)) (hnone : savesOf xs i = []) :
    History s b.disk (xs ++ (b.save? i).toList) i t (advance s b t .waiting).1 := by
  have hsave : b.save? i = none := by unfold Batch.save?; rw [hwork]
  simp only [advance]
  cases hwalk : Walk.generate b.disk s.config t.file with
  | error f => exact .finished (.failed hwalk ((savesOf_none hsave).trans hnone))
  | ok m => exact .walked hwalk ((savesOf_none hsave).trans hnone)

/-- The other steps keep the manifest and tell the result. -/
theorem History.next (hwork : b.work[i]? = some (t, stage)) (h : History s d xs i t stage) :
    History s d (xs ++ (b.save? i).toList) i t (advance s b t stage).1 := by
  cases h with
  | @walked m hwalk hnone =>
    have hsave : b.save? i = some ⟨i, t, m, b.disk⟩ := by unfold Batch.save?; rw [hwork]
    have hone : savesOf (xs ++ (b.save? i).toList) i = [⟨i, t, m, b.disk⟩] := by
      rw [savesOf_append, hnone, hsave]
      simp [savesOf]
    have hdone := Done.kept (s := s) (x := ⟨i, t, m, b.disk⟩) hwalk rfl hone
    simp only [Save.result] at hdone
    exact .finished hdone
  | finished hdone =>
    have hsave : b.save? i = none := by unfold Batch.save?; rw [hwork]
    exact .counted (hdone.congr (savesOf_none hsave))
  | counted hdone =>
    have hsave : b.save? i = none := by unfold Batch.save?; rw [hwork]
    exact .reported (hdone.congr (savesOf_none hsave))
  | reported hdone =>
    have hsave : b.save? i = none := by unfold Batch.save?; rw [hwork]
    exact .reported (hdone.congr (savesOf_none hsave))

theorem start_work (h : (Batch.start d tasks).work[i]? = some (t, stage)) :
    tasks[i]? = some t ∧ stage = .waiting := by
  have hmap : (tasks[i]?).map (fun t => (t, Stage.waiting)) = some (t, stage) := by
    rw [← List.getElem?_map]; exact h
  obtain ⟨u, hu, heq⟩ := Option.map_eq_some_iff.mp hmap
  cases heq
  exact ⟨hu, rfl⟩

/-- The disk a component is walked on is settled with its first step. -/
theorem walkDisk_concat (s : Setting) (b : Batch) (hi : i ∈ schedule) (j : Nat) :
    walkDisk s b (schedule ++ [j]) i = walkDisk s b schedule i := by
  unfold walkDisk
  rw [List.takeWhile_append]
  have hlen : (schedule.takeWhile (· ≠ i)).length ≠ schedule.length := by
    intro hlen
    have hall := List.takeWhile_eq_self_iff.mp
      (List.IsPrefix.eq_of_length (List.takeWhile_prefix _) hlen)
    simpa using hall i hi
  rw [if_neg hlen]

theorem walkDisk_first (s : Setting) (b : Batch) (hi : i ∉ schedule) :
    walkDisk s b (schedule ++ [i]) i = (b.run s schedule).disk := by
  unfold walkDisk
  have hall : schedule.takeWhile (· ≠ i) = schedule := by
    rw [List.takeWhile_eq_self_iff]
    intro j hj
    have hne : j ≠ i := fun h => hi (h ▸ hj)
    simpa using hne
  rw [List.takeWhile_append, hall]
  simp

/-- **What has become of a component along a schedule**: nothing before its first step, and then what
its history tells. -/
theorem history (s : Setting) (d : Disk) (tasks : List Task) (schedule : List Nat)
    (h : ((Batch.start d tasks).run s schedule).work[i]? = some (t, stage)) :
    tasks[i]? = some t ∧
      ((i ∉ schedule ∧ stage = .waiting ∧ savesOf ((Batch.start d tasks).saves s schedule) i = []) ∨
        (i ∈ schedule ∧ History s (walkDisk s (Batch.start d tasks) schedule i)
          ((Batch.start d tasks).saves s schedule) i t stage)) := by
  induction schedule using List.reverseRecOn generalizing stage with
  | nil =>
    obtain ⟨htask, hstage⟩ := start_work h
    exact ⟨htask, Or.inl ⟨List.not_mem_nil, hstage, rfl⟩⟩
  | append_singleton schedule j ih =>
    rw [Batch.run_concat, Batch.work_step] at h
    rw [Batch.saves_concat]
    by_cases hij : i = j
    · subst hij
      rw [if_pos rfl] at h
      obtain ⟨⟨u, before⟩, hwork, heq⟩ := Option.map_eq_some_iff.mp h
      cases heq
      obtain ⟨htask, ⟨hnew, rfl, hnone⟩ | ⟨hold, hhistory⟩⟩ := ih hwork
      · refine ⟨htask, Or.inr ⟨by simp, ?_⟩⟩
        rw [walkDisk_first s _ hnew]
        exact .first hwork hnone
      · refine ⟨htask, Or.inr ⟨by simp, ?_⟩⟩
        rw [walkDisk_concat s _ hold]
        exact .next hwork hhistory
    · rw [if_neg hij] at h
      obtain ⟨htask, ⟨hnew, hstage, hnone⟩ | ⟨hold, hhistory⟩⟩ := ih h
      · exact ⟨htask, Or.inl ⟨by simp [hnew, hij], hstage, (savesOf_other (Ne.symm hij)).trans hnone⟩⟩
      · refine ⟨htask, Or.inr ⟨by simp [hold], ?_⟩⟩
        rw [walkDisk_concat s _ hold]
        exact hhistory.congr (savesOf_other (Ne.symm hij))

end Histories

/-! ## Fair schedules -/

/-- A schedule for so many components is fair if each of them gets its four steps: walk, save, count
and report. -/
def Fair (count : Nat) (schedule : List Nat) : Prop := ∀ i < count, 4 ≤ schedule.count i

/-- How many steps of a component are done. -/
def Stage.rank : Stage → Nat
  | .waiting => 0
  | .walked _ => 1
  | .finished _ => 2
  | .counted _ _ => 3
  | .reported _ => 4

section Fairness

variable {s : Setting} {b : Batch} {d : Disk} {tasks : List Task} {i : Nat} {t : Task} {stage : Stage}
  {schedule : List Nat}

/-- One component after the other is fair. -/
theorem fair_inOrder (count : Nat) : Fair count (inOrder count) := by
  induction count with
  | zero => intro i hi; cases hi
  | succ count ih =>
    intro i hi
    have hsucc : inOrder (count + 1) = inOrder count ++ List.replicate 4 count := by
      unfold inOrder
      rw [List.range_succ, List.flatMap_append]
      simp
    rw [hsucc, List.count_append]
    by_cases hlast : i = count
    · rw [hlast, List.count_replicate_self]
      omega
    · have := ih i (by omega)
      omega

theorem rank_advance (s : Setting) (b : Batch) (t : Task) (stage : Stage) :
    min 4 (stage.rank + 1) ≤ (advance s b t stage).1.rank := by
  cases stage with
  | waiting =>
    simp only [advance]
    cases Walk.generate b.disk s.config t.file <;> simp [Stage.rank]
  | walked m => simp [advance, Stage.rank]
  | finished r => simp [advance, Stage.rank]
  | counted r n => simp [advance, Stage.rank]
  | reported r => simp [advance, Stage.rank]

theorem length_work (s : Setting) (b : Batch) (schedule : List Nat) :
    (b.run s schedule).work.length = b.work.length := by
  induction schedule using List.reverseRecOn with
  | nil => rfl
  | append_singleton schedule j ih =>
    rw [Batch.run_concat, ← ih]
    unfold Batch.step
    split <;> simp

theorem rank_le (s : Setting) (b : Batch) (schedule : List Nat)
    (h : (b.run s schedule).work[i]? = some (t, stage)) : min 4 (schedule.count i) ≤ stage.rank := by
  induction schedule using List.reverseRecOn generalizing stage with
  | nil => simp
  | append_singleton schedule j ih =>
    rw [Batch.run_concat, Batch.work_step] at h
    rw [List.count_append]
    by_cases hij : i = j
    · subst hij
      rw [if_pos rfl] at h
      obtain ⟨⟨u, before⟩, hwork, heq⟩ := Option.map_eq_some_iff.mp h
      cases heq
      have hbefore := ih hwork
      have hadvance := rank_advance s (b.run s schedule) u before
      rw [List.count_singleton_self]
      show min 4 _ ≤ (advance s (b.run s schedule) u before).1.rank
      omega
    · rw [if_neg hij] at h
      rw [List.count_singleton, if_neg (by simpa using Ne.symm hij)]
      exact ih h

/-- **Under a fair schedule every component is reported, with the result of its history.** -/
theorem reported_of_fair (s : Setting) (d : Disk) (hfair : Fair tasks.length schedule)
    (ht : tasks[i]? = some t) :
    ∃ r, ((Batch.start d tasks).run s schedule).work[i]? = some (t, .reported r) ∧
      Done s (walkDisk s (Batch.start d tasks) schedule i) ((Batch.start d tasks).saves s schedule)
        i t r := by
  have hlt : i < tasks.length := (List.getElem?_eq_some_iff.mp ht).1
  have hwork : i < ((Batch.start d tasks).run s schedule).work.length := by
    rw [length_work]
    simpa [Batch.start] using hlt
  obtain ⟨⟨u, stage⟩, he⟩ : ∃ e, ((Batch.start d tasks).run s schedule).work[i]? = some e :=
    ⟨_, List.getElem?_eq_getElem hwork⟩
  have hrank : 4 ≤ stage.rank := by
    have := rank_le s _ schedule he
    have := hfair i hlt
    omega
  obtain ⟨htask, ⟨-, rfl, -⟩ | ⟨-, hhistory⟩⟩ := history s d tasks schedule he
  · cases hrank
  · cases Option.some.inj (ht.symm.trans htask)
    cases hhistory with
    | walked _ _ => simp [Stage.rank] at hrank
    | finished _ => simp [Stage.rank] at hrank
    | counted _ => simp [Stage.rank] at hrank
    | reported hdone => exact ⟨_, he, hdone⟩

end Fairness

end ComponentRegistry.Generate
