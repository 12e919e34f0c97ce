import ComponentRegistry.Proofs.Assurance
import ComponentRegistry.Proofs.Json.Reading
import ComponentRegistry.Proofs.KeyMap

/-!
# Objects that were read

Whatever order the members of an object are written in, and however often a key is written, the
object that is read has its keys in order and each one once (`sorted_of_parse`).
-/

namespace ComponentRegistry

namespace Json

/-- The keys of all objects in a value go up. -/
inductive Sorted : Json → Prop where
  | scalar {v : Json} : v.items? = none → v.members? = none → Sorted v
  | array {items : List Json} : (∀ v ∈ items, Sorted v) → Sorted (.array items)
  | object {members : List (String × Json)} : SortedEntries members →
      (∀ m ∈ members, Sorted m.2) → Sorted (.object members)

theorem Sorted.member {v w : Json} {key : String} (h : v.Sorted) (hw : v.member? key = some w) :
    w.Sorted := by
  cases h with
  | scalar _ hnone =>
    cases v with
    | object members => cases hnone
    | _ => cases hw
  | array _ => cases hw
  | object _ hmembers => exact hmembers _ (mem_of_entryValue? hw)

theorem Sorted.members {v : Json} {members : List (String × Json)} (h : v.Sorted)
    (hmembers : v.members? = some members) : SortedEntries members := by
  cases h with
  | scalar _ hnone => rw [hnone] at hmembers; cases hmembers
  | array _ => cases hmembers
  | object hsorted _ =>
    cases hmembers
    exact hsorted

namespace Reader

variable {α σ : Type}

/-- What a reader yields. -/
abbrev Yields (Q : α → Prop) (r : Reader α) : Prop := (Assurance.yields Cursor Fault).Gives Q r

theorem yields_true (r : Reader α) : Yields (fun _ => True) r := fun _ _ _ _ => trivial

/-- A fault yields nothing. -/
theorem yields_failHere (Q : α → Prop) (cause : Fault.Cause) : Yields Q (failHere cause) :=
  fun _ _ _ hrun => by cases hrun

theorem yields_failNext (Q : α → Prop) (cause : Fault.Cause) : Yields Q (failNext cause) :=
  fun _ _ _ hrun => by cases hrun

/-- Behind a reader of which nothing is said. -/
theorem Yields.behind {Q : α → Prop} {r : Reader σ} {f : σ → Reader α} (h : ∀ s, Yields Q (f s)) :
    Yields Q (r >>= f) :=
  (Assurance.yields _ _).bind (yields_true r) fun s _ => h s

theorem yields_pure {Q : α → Prop} {a : α} (h : Q a) : Yields Q (pure a) :=
  (Assurance.yields _ _).pure h

theorem yields_items {Q : α → Prop} {item : Reader α} (hitem : Yields Q item) (fuel : Nat)
    (first : Bool) (acc : List α) (hacc : ∀ a ∈ acc, Q a) :
    Yields (fun l => ∀ a ∈ l, Q a) (items item fuel first acc) := by
  induction fuel generalizing first acc with
  | zero => exact yields_failHere _ _
  | succ fuel ih =>
    unfold items
    refine .behind fun more => ?_
    cases more with
    | true =>
      refine (Assurance.yields _ _).bind hitem fun a ha => ih false _ ?_
      exact List.forall_mem_cons.mpr ⟨ha, hacc⟩
    | false => exact .behind fun _ => yields_pure (by simpa using hacc)

theorem yields_members {Q : σ → Prop} {member : σ → String → Reader σ}
    (hmember : ∀ acc key, Q acc → Yields Q (member acc key)) (fuel : Nat) (first : Bool) (acc : σ)
    (hacc : Q acc) : Yields Q (members member fuel first acc) := by
  induction fuel generalizing first acc with
  | zero => exact yields_failHere _ _
  | succ fuel ih =>
    unfold members
    refine .behind fun more => ?_
    cases more with
    | true =>
      refine .behind fun key => ?_
      exact (Assurance.yields _ _).bind (hmember acc key hacc) fun acc hacc => ih false acc hacc
    | false => exact .behind fun _ => yields_pure hacc

theorem yields_nested {Q : α → Prop} {depth : Nat} {body : Reader α} (h : Yields Q body) :
    Yields Q (nested depth body) := by
  unfold nested
  split_ifs
  · exact yields_failNext _ _
  · exact h

theorem yields_scalar (first : Char) : Yields Sorted (scalar first) := by
  unfold scalar
  split
  · exact .behind fun _ => .behind fun _ => yields_pure (.scalar rfl rfl)
  · exact .behind fun _ => .behind fun _ => yields_pure (.scalar rfl rfl)
  · exact .behind fun _ => .behind fun _ => yields_pure (.scalar rfl rfl)
  · exact .behind fun _ => .behind fun _ => yields_pure (.scalar rfl rfl)
  · exact .behind fun _ => yields_pure (.scalar rfl rfl)
  · split_ifs
    · exact .behind fun _ => yields_pure (.scalar rfl rfl)
    · exact yields_failNext _ _

/-- Members that were read: their keys go up, and so do those in their values. -/
def SortedMembers (members : List (String × Json)) : Prop :=
  SortedEntries members ∧ ∀ m ∈ members, m.2.Sorted

theorem yields_value (depth : Nat) : Yields Sorted (value depth) := by
  induction depth with
  | zero => exact yields_failNext _ _
  | succ depth ih =>
    unfold value
    refine .behind fun next => ?_
    split
    · exact yields_failNext _ _
    · refine yields_nested (.behind fun _ => .behind fun room => ?_)
      exact (Assurance.yields _ _).bind (yields_items ih room true [] (by simp))
        fun _ hitems => yields_pure (.array hitems)
    · refine yields_nested (.behind fun _ => .behind fun room => ?_)
      refine (Assurance.yields _ _).bind (yields_members
          (fun acc key (hacc : SortedMembers acc) => .behind fun _ => ?_) room true [] ?_)
        fun _ hmembers => yields_pure (.object hmembers.1 hmembers.2)
      · refine (Assurance.yields _ _).bind ih fun v hv => yields_pure ?_
        refine ⟨sortedEntries_insertEntry hacc.1 key v, fun m hm => ?_⟩
        rcases mem_insertEntry hm with rfl | hm
        · exact hv
        · exact hacc.2 m hm
      · exact ⟨List.Pairwise.nil, by simp⟩
    · exact yields_scalar _

end Reader

/-- **The keys of what is read go up**, in all objects. -/
theorem sorted_of_parse {text : String} {v : Json} (h : parse text = .ok v) : v.Sorted := by
  obtain ⟨c', hrun, -⟩ := parse_eq_ok_iff.mp h
  exact Reader.yields_value _ _ _ _ hrun

end Json

end ComponentRegistry
