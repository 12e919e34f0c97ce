import ComponentRegistry.KeyMap
import Mathlib.Data.List.Sort

/-!
# Sorted maps of bindings

Bindings whose keys go up and stand above those of a map come behind its own when they are laid
over it.  So a map laid over the empty one is the map itself (`empty_overlay`).  The keys of a map
of bindings are those of the bindings (`mem_keys_ofList`).  A map is known by what it finds
(`ext_find?`), and laid over another it finds its own bindings first (`find?_overlay`), so laying maps
over each other is associative (`overlay_assoc`).
-/

namespace ComponentRegistry

variable {α : Type}

theorem mem_of_entryValue? {k : String} {v : α} {entries : List (String × α)}
    (h : entryValue? k entries = some v) : (k, v) ∈ entries := by
  induction entries with
  | nil => cases h
  | cons e rest ih =>
    obtain ⟨k', v'⟩ := e
    unfold entryValue? at h
    split_ifs at h with hk
    · rw [hk, Option.some.inj h]
      exact List.mem_cons_self
    · exact List.mem_cons_of_mem _ (ih h)

theorem SortedEntries.entryValue?_eq_some_iff {entries : List (String × α)}
    (hs : SortedEntries entries) {key : String} {v : α} :
    entryValue? key entries = some v ↔ (key, v) ∈ entries := by
  refine ⟨mem_of_entryValue?, fun hmem => ?_⟩
  induction entries with
  | nil => cases hmem
  | cons e rest ih =>
    obtain ⟨key', v'⟩ := e
    obtain ⟨hfirst, hrest⟩ := List.pairwise_cons.mp hs
    unfold entryValue?
    rcases List.mem_cons.mp hmem with heq | hmem
    · cases heq
      rw [if_pos rfl]
    · have hne : key' ≠ key := fun heq => String.lt_irrefl key (heq ▸ hfirst _ hmem)
      rw [if_neg hne]
      exact ih hrest hmem

/-- A key above all others lands at the end. -/
theorem insertEntry_of_forall_lt {k : String} {v : α} {entries : List (String × α)}
    (h : ∀ e ∈ entries, e.1 < k) : insertEntry k v entries = entries ++ [(k, v)] := by
  induction entries with
  | nil => rfl
  | cons e rest ih =>
    have he : e.1 < k := h e List.mem_cons_self
    have hlt : ¬k < e.1 := fun hk => String.lt_irrefl k (String.lt_trans hk he)
    have hne : k ≠ e.1 := fun heq => String.lt_irrefl e.1 (heq ▸ he)
    simp [insertEntry, hlt, hne, ih fun e' he' => h e' (List.mem_cons_of_mem _ he')]

namespace KeyMap

theorem ext_entries {m n : KeyMap α} (h : m.entries = n.entries) : m = n := by
  cases m
  cases n
  cases h
  rfl

theorem entries_foldl_insert {entries : List (String × α)} (m : KeyMap α)
    (h : SortedEntries (m.entries ++ entries)) :
    (entries.foldl (fun m e => m.insert e.1 e.2) m).entries = m.entries ++ entries := by
  induction entries generalizing m with
  | nil => simp
  | cons e rest ih =>
    have hlast : (m.insert e.1 e.2).entries = m.entries ++ [e] :=
      insertEntry_of_forall_lt fun d hd =>
        (List.pairwise_append.1 h).2.2 d hd e List.mem_cons_self
    rw [List.foldl_cons, ih _ (by simpa [hlast] using h), hlast, List.append_assoc,
      List.singleton_append]

theorem empty_overlay (m : KeyMap α) : empty.overlay m = m :=
  ext_entries (entries_foldl_insert empty m.sorted)

/-! ## Bindings -/

theorem mem_entries_iff {m : KeyMap α} {k : String} {v : α} :
    (k, v) ∈ m.entries ↔ m.find? k = some v :=
  m.sorted.entryValue?_eq_some_iff.symm

/-- Maps that find the same for every key are equal. -/
theorem ext_find? {m n : KeyMap α} (h : ∀ k, m.find? k = n.find? k) : m = n := by
  let below : String × α → String × α → Prop := fun a b => a.1 < b.1
  have : Std.Irrefl below := ⟨fun a => String.lt_irrefl a.1⟩
  have : Std.Antisymm below := ⟨fun a b hab hba => absurd hba (String.lt_asymm hab)⟩
  have hmem : ∀ e, e ∈ m.entries ↔ e ∈ n.entries := fun (k, v) => by
    rw [mem_entries_iff, mem_entries_iff, h k]
  exact ext_entries (List.Pairwise.eq_of_mem_iff (r := below) m.sorted n.sorted hmem)

theorem find?_foldl_insert {entries : List (String × α)} (hs : SortedEntries entries)
    (m : KeyMap α) (k : String) :
    (entries.foldl (fun m e => m.insert e.1 e.2) m).find? k =
      (entryValue? k entries).or (m.find? k) := by
  induction entries generalizing m with
  | nil => rfl
  | cons e rest ih =>
    obtain ⟨key, v⟩ := e
    obtain ⟨hfirst, hrest⟩ := List.pairwise_cons.mp hs
    rw [List.foldl_cons, ih hrest, find?_insert]
    by_cases hk : key = k
    · -- the keys behind are larger, so nothing overrides the binding
      have hnone : entryValue? k rest = none := by
        rw [Option.eq_none_iff_forall_ne_some]
        intro w hw
        exact String.lt_irrefl key (hk ▸ hfirst _ (mem_of_entryValue? hw))
      simp [entryValue?, hk, hnone]
    · simp [entryValue?, hk]

/-- The upper map's bindings count where it has them. -/
theorem find?_overlay (m n : KeyMap α) (k : String) :
    (m.overlay n).find? k = (n.find? k).or (m.find? k) :=
  find?_foldl_insert n.sorted m k

theorem overlay_assoc (m n o : KeyMap α) : (m.overlay n).overlay o = m.overlay (n.overlay o) := by
  refine ext_find? fun k => ?_
  rw [find?_overlay, find?_overlay, find?_overlay, find?_overlay, Option.or_assoc]

/-! ## Keys -/

theorem mem_keys_iff {m : KeyMap α} {k : String} : k ∈ m.keys ↔ (m.find? k).isSome = true := by
  unfold keys find?
  induction m.entries with
  | nil => simp [entryValue?]
  | cons e rest ih =>
    by_cases he : e.1 = k
    · simp [entryValue?, he]
    · simp [entryValue?, he, Ne.symm he, ← ih]

theorem mem_keys_foldl_insert {entries : List (String × α)} {m : KeyMap α} {k : String} :
    k ∈ (entries.foldl (fun m e => m.insert e.1 e.2) m).keys ↔
      k ∈ m.keys ∨ k ∈ entries.map (·.1) := by
  induction entries generalizing m with
  | nil => simp
  | cons e rest ih =>
    have hinsert : k ∈ (m.insert e.1 e.2).keys ↔ k = e.1 ∨ k ∈ m.keys := by
      rw [mem_keys_iff, mem_keys_iff, find?_insert]
      by_cases he : e.1 = k
      · subst he
        simp
      · simp [he, Ne.symm he]
    rw [List.foldl_cons, ih, hinsert, List.map_cons, List.mem_cons, or_assoc, or_left_comm]

theorem mem_keys_ofList {entries : List (String × α)} {k : String} :
    k ∈ (ofList entries).keys ↔ k ∈ entries.map (·.1) :=
  mem_keys_foldl_insert.trans (by simp [empty, keys])

theorem pairwise_keys (m : KeyMap α) : m.keys.Pairwise (· < ·) := List.pairwise_map.mpr m.sorted

end KeyMap

end ComponentRegistry
