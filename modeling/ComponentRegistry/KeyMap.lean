/-!
# Maps with sorted keys

A map from text keys to values is the list of its entries in the order of their keys, which for
text is the order of its UTF-8 bytes.  A key is bound once; binding it again replaces the value.
-/

namespace ComponentRegistry

/-- Bind `k` to `v` in a sorted list of entries. -/
def insertEntry {α : Type} (k : String) (v : α) : List (String × α) → List (String × α)
  | [] => [(k, v)]
  | (k', v') :: rest =>
    if k < k' then (k, v) :: (k', v') :: rest
    else if k = k' then (k, v) :: rest
    else (k', v') :: insertEntry k v rest

/-- The value bound to `k`. -/
def entryValue? {α : Type} (k : String) : List (String × α) → Option α
  | [] => none
  | (k', v) :: rest => if k' = k then some v else entryValue? k rest

/-- The keys go up. -/
def SortedEntries {α : Type} (entries : List (String × α)) : Prop :=
  entries.Pairwise (fun a b => a.1 < b.1)

theorem mem_insertEntry {α : Type} {k : String} {v : α} {e : String × α}
    {entries : List (String × α)} (h : e ∈ insertEntry k v entries) : e = (k, v) ∨ e ∈ entries := by
  induction entries with
  | nil => exact Or.inl (by simpa [insertEntry] using h)
  | cons d rest ih =>
    obtain ⟨k', v'⟩ := d
    simp only [insertEntry] at h
    split at h
    · simpa using h
    · split at h
      · rcases List.mem_cons.1 h with h | h
        · exact Or.inl h
        · exact Or.inr (List.mem_cons_of_mem _ h)
      · rcases List.mem_cons.1 h with h | h
        · exact Or.inr (h ▸ List.mem_cons_self)
        · exact (ih h).imp id (List.mem_cons_of_mem _)

theorem sortedEntries_insertEntry {α : Type} {entries : List (String × α)}
    (h : SortedEntries entries) (k : String) (v : α) : SortedEntries (insertEntry k v entries) := by
  induction entries with
  | nil => simp [insertEntry, SortedEntries]
  | cons d rest ih =>
    obtain ⟨k', v'⟩ := d
    obtain ⟨hd, hr⟩ := List.pairwise_cons.1 h
    simp only [insertEntry]
    split
    · rename_i hlt
      refine List.pairwise_cons.2 ⟨fun e he => ?_, h⟩
      rcases List.mem_cons.1 he with rfl | he
      · exact hlt
      · exact String.lt_trans hlt (hd e he)
    · split
      · rename_i heq
        subst heq
        exact List.pairwise_cons.2 ⟨hd, hr⟩
      · rename_i hnlt hne
        refine List.pairwise_cons.2 ⟨fun e he => ?_, ih hr⟩
        rcases mem_insertEntry he with rfl | he
        · have hle : k' ≤ k := String.not_lt.1 hnlt
          rcases Decidable.em (k' < k) with hlt | hn
          · exact hlt
          · exact absurd (String.le_antisymm (String.not_lt.1 hn) hle) hne
        · exact hd e he

theorem entryValue?_insertEntry {α : Type} (k : String) (v : α) (entries : List (String × α))
    (j : String) :
    entryValue? j (insertEntry k v entries) = if k = j then some v else entryValue? j entries := by
  induction entries with
  | nil => simp [insertEntry, entryValue?]
  | cons d rest ih =>
    obtain ⟨k', v'⟩ := d
    simp only [insertEntry]
    split
    · simp [entryValue?]
    · split
      · rename_i heq
        subst heq
        by_cases h : k = j <;> simp [entryValue?, h]
      · rename_i hne
        by_cases h : k' = j
        · subst h
          simp [entryValue?, hne]
        · simp [entryValue?, h, ih]

/-- A map from text keys to values. -/
structure KeyMap (α : Type) where
  entries : List (String × α)
  sorted : SortedEntries entries

namespace KeyMap

variable {α : Type}

instance [DecidableEq α] : DecidableEq (KeyMap α) := fun m n =>
  if h : m.entries = n.entries then isTrue (by cases m; cases n; simp_all)
  else isFalse fun e => h (e ▸ rfl)

def empty : KeyMap α := ⟨[], List.Pairwise.nil⟩

instance : Inhabited (KeyMap α) := ⟨empty⟩

def insert (m : KeyMap α) (k : String) (v : α) : KeyMap α :=
  ⟨insertEntry k v m.entries, sortedEntries_insertEntry m.sorted k v⟩

def find? (m : KeyMap α) (k : String) : Option α := entryValue? k m.entries

/-- The map of these bindings; a later one replaces an earlier one of its key. -/
def ofList (entries : List (String × α)) : KeyMap α :=
  entries.foldl (fun m e => m.insert e.1 e.2) empty

/-- The bindings of `n` laid over those of `m`. -/
def overlay (m n : KeyMap α) : KeyMap α := n.entries.foldl (fun m e => m.insert e.1 e.2) m

def keys (m : KeyMap α) : List String := m.entries.map (·.1)

theorem find?_insert (m : KeyMap α) (k : String) (v : α) (j : String) :
    (m.insert k v).find? j = if k = j then some v else m.find? j :=
  entryValue?_insertEntry k v m.entries j

end KeyMap

end ComponentRegistry
