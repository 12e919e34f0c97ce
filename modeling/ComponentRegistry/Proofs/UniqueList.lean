import ComponentRegistry.Manifest
import Mathlib.Data.Finset.Card

/-!
# Lists that keep each value once

A list of unique values holds what was inserted, in the order of first insertion (`Holds`).  This is
kept by each operation, so it holds after any number of them on a new list: the items stand once
each, they are the values that are remembered as inserted, and each answer says what was inserted
before (`performAll_insertion_ordered`).
-/

namespace ComponentRegistry.UniqueList

/-! ## First occurrences -/

/-- A value is added at the end, unless it was there before. -/
theorem eraseDups_concat (values : List String) (v : String) :
    (values ++ [v]).eraseDups =
      if v ∈ values then values.eraseDups else values.eraseDups ++ [v] := by
  rw [List.eraseDups_append]
  by_cases hv : v ∈ values
  · have hold : [v].removeAll values = [] := by simp [List.removeAll, hv]
    rw [if_pos hv, hold, List.eraseDups_nil, List.append_nil]
  · have hnew : [v].removeAll values = [v] := by simp [List.removeAll, hv]
    rw [if_neg hv, hnew]
    rfl

theorem nodup_eraseDups (values : List String) : values.eraseDups.Nodup := by
  induction values using List.reverseRecOn with
  | nil => exact List.nodup_nil
  | append_singleton values v ih =>
    rw [eraseDups_concat]
    split_ifs with hv
    · exact ih
    · refine ih.append (List.nodup_singleton v) ?_
      rw [List.disjoint_singleton, List.mem_eraseDups]
      exact hv

/-! ## One operation -/

/-- The list holds the values that were inserted in this order. -/
structure Holds (l : UniqueList) (inserted : List String) : Prop where
  items : l.items = inserted.eraseDups
  contains : ∀ v, l.contains v = true ↔ v ∈ inserted

theorem holds_empty : Holds .empty [] := ⟨rfl, by simp [empty, UniqueList.contains]⟩

theorem Holds.mem_items {l : UniqueList} {inserted : List String} (h : Holds l inserted)
    {v : String} : v ∈ l.items ↔ v ∈ inserted := by
  rw [h.items, List.mem_eraseDups]

theorem Holds.insert {l : UniqueList} {inserted : List String} (h : Holds l inserted) (v : String) :
    Holds (l.insert v).2 (inserted ++ [v]) := by
  refine ⟨?_, fun w => ?_⟩
  · rw [eraseDups_concat, ← h.items]
    by_cases hv : v ∈ inserted
    · rw [if_pos hv, UniqueList.insert, if_pos ((h.contains v).mpr hv)]
    · rw [if_neg hv, UniqueList.insert, if_neg (mt (h.contains v).mp hv)]
  · rw [contains_insert, List.mem_append, List.mem_singleton, ← h.contains w]
    simp

/-- Insert a value, if there is one. -/
def insert? (l : UniqueList) (v? : Option String) : UniqueList := v?.elim l fun v => (l.insert v).2

theorem Holds.insert? {l : UniqueList} {inserted : List String} (h : Holds l inserted)
    (v? : Option String) : Holds (l.insert? v?) (inserted ++ v?.toList) := by
  cases v? with
  | none => rw [Option.toList_none, List.append_nil]; exact h
  | some v => exact h.insert v

/-- An insertion is new if the value was not inserted before. -/
theorem Holds.insert_fst {l : UniqueList} {inserted : List String} (h : Holds l inserted)
    (v : String) : (l.insert v).1 = decide (v ∉ inserted) := by
  unfold UniqueList.insert
  by_cases hv : v ∈ inserted
  · rw [if_pos ((h.contains v).mpr hv)]
    simp [hv]
  · rw [if_neg (mt (h.contains v).mp hv)]
    simp [hv]

/-- The items are the values that are remembered. -/
theorem Holds.mem_seen {l : UniqueList} {inserted : List String} (h : Holds l inserted)
    {v : String} : v ∈ l.seen ↔ v ∈ inserted := by
  rw [← h.contains v]
  exact List.contains_iff_mem.symm

/-! ## Any number of operations -/

/-- What a list is used for. -/
inductive Op where
  | insert (value : String)
  | contains (value : String)
  deriving DecidableEq, Repr

/-- The value that an operation inserts. -/
def Op.inserted? : Op → Option String
  | .insert v => some v
  | .contains _ => none

/-- The answer of an operation, and the list after it. -/
def perform (l : UniqueList) : Op → Bool × UniqueList
  | .insert v => l.insert v
  | .contains v => (l.contains v, l)

/-- The answers of operations in their order, and the list after them. -/
def performAll (l : UniqueList) : List Op → List Bool × UniqueList
  | [] => ([], l)
  | op :: more =>
    let (answer, l) := l.perform op
    let (answers, l) := l.performAll more
    (answer :: answers, l)

/-- The values that are inserted, in their order. -/
def inserted (ops : List Op) : List String := ops.filterMap Op.inserted?

/-- The answer that an operation ought to have behind these insertions. -/
def Op.answer (before : List String) : Op → Bool
  | .insert v => decide (v ∉ before)
  | .contains v => decide (v ∈ before)

section Sequence

variable {l : UniqueList} {before : List String}

theorem Holds.perform (h : Holds l before) (op : Op) :
    (l.perform op).1 = op.answer before ∧
      Holds (l.perform op).2 (before ++ op.inserted?.toList) := by
  cases op with
  | insert v => exact ⟨h.insert_fst v, h.insert v⟩
  | contains v =>
    constructor
    · show l.contains v = decide (v ∈ before)
      rw [Bool.eq_iff_iff, decide_eq_true_iff]
      exact h.contains v
    · show Holds l (before ++ [])
      rw [List.append_nil]
      exact h

theorem inserted_cons (op : Op) (more : List Op) :
    inserted (op :: more) = op.inserted?.toList ++ inserted more := by
  cases op <;> rfl

/-- What one operation keeps, any number of them keep. -/
theorem Holds.performAll (h : Holds l before) (ops : List Op) :
    Holds (l.performAll ops).2 (before ++ inserted ops) := by
  induction ops generalizing l before with
  | nil =>
    show Holds l (before ++ [])
    rw [List.append_nil]
    exact h
  | cons op more ih =>
    rw [inserted_cons, ← List.append_assoc]
    exact ih (h.perform op).2

/-- Each operation is answered by what was inserted before it. -/
theorem Holds.answers (h : Holds l before) (earlier : List Op) (op : Op) (later : List Op) :
    (l.performAll (earlier ++ op :: later)).1[earlier.length]? =
      some (op.answer (before ++ inserted earlier)) := by
  induction earlier generalizing l before with
  | nil =>
    show some (l.perform op).1 = some (op.answer (before ++ []))
    rw [List.append_nil, (h.perform op).1]
  | cons first earlier ih =>
    rw [inserted_cons, ← List.append_assoc]
    exact ih (h.perform first).2

theorem length_answers (l : UniqueList) (ops : List Op) :
    (l.performAll ops).1.length = ops.length := by
  induction ops generalizing l with
  | nil => rfl
  | cons op more ih => exact congrArg (· + 1) (ih (l.perform op).2)

end Sequence

/-- **A list of unique values is a set in the order of insertion**, after any operations on a new
one. -/
theorem performAll_insertion_ordered (ops : List Op) :
    let (answers, l) := empty.performAll ops
    l.items.Nodup ∧ (∀ v, v ∈ l.items ↔ v ∈ l.seen) ∧
      l.items = (inserted ops).eraseDups ∧
      l.size = (inserted ops).toFinset.card ∧
      answers.length = ops.length ∧
      (∀ earlier v later, ops = earlier ++ .insert v :: later →
        (answers[earlier.length]? = some true ↔ v ∉ inserted earlier)) ∧
      ∀ earlier v later, ops = earlier ++ .contains v :: later →
        (answers[earlier.length]? = some true ↔ v ∈ inserted earlier) := by
  have h : Holds (empty.performAll ops).2 (inserted ops) := holds_empty.performAll ops
  have hnodup : (empty.performAll ops).2.items.Nodup := by
    rw [h.items]
    exact nodup_eraseDups _
  refine ⟨hnodup, fun v => ?_, h.items, ?_, length_answers _ _, ?_, ?_⟩
  · rw [h.mem_items, h.mem_seen]
  · show (empty.performAll ops).2.items.length = _
    rw [← List.toFinset_card_of_nodup hnodup]
    congr 1
    ext v
    rw [List.mem_toFinset, List.mem_toFinset, h.mem_items]
  · intro earlier v later hops
    have hanswer := holds_empty.answers earlier (.insert v) later
    rw [hops, hanswer, List.nil_append]
    simp [Op.answer]
  · intro earlier v later hops
    have hanswer := holds_empty.answers earlier (.contains v) later
    rw [hops, hanswer, List.nil_append]
    simp [Op.answer]

example : (empty.performAll [.insert "react", .insert "clsx", .insert "react", .contains "clsx"]) =
    ([true, true, false, true], ⟨["react", "clsx"], ["clsx", "react"]⟩) := by decide

end ComponentRegistry.UniqueList
