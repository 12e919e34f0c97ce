import ComponentRegistry.Proofs.Generate.Runs
import ComponentRegistry.Proofs.Disk.Ways

/-!
# Components of a directory

A directory run takes the component files that stand in the directory, in the order of their paths
(`listComponents_sorted`).  On a disk where no place is listed twice each of them is taken once
(`listComponents_nodup`), and runs leave such a disk as one (`run_listed`).
-/

namespace ComponentRegistry

namespace Disk

/-- A disk lists what stands on it: each place once, and by proper names. -/
structure Listed (d : Disk) : Prop where
  once : d.locations.Nodup
  names : ∀ l ∈ d.locations, ∀ s ∈ l, Proper s

theorem listed_iff (d : Disk) :
    d.Listed ↔ d.locations.Nodup ∧ ∀ l ∈ d.locations, ∀ s ∈ l, Proper s :=
  ⟨fun h => ⟨h.once, h.names⟩, fun ⟨honce, hnames⟩ => ⟨honce, hnames⟩⟩

instance (d : Disk) : Decidable d.Listed := decidable_of_iff _ (listed_iff d).symm

/-- The disk goes on to list each place once when something is put on it. -/
theorem Listed.put {d : Disk} {l : Location} (h : d.Listed) (hl : ∀ s ∈ l, Proper s) (n : Node) :
    (d.put l n).Listed := by
  unfold Disk.put
  split_ifs with hany
  · have hsame : (d.nodes.map fun e => if e.1 = l then (l, n) else e).map Prod.fst = d.locations := by
      rw [List.map_map]
      refine List.map_congr_left fun e _ => ?_
      by_cases he : e.1 = l
      · simp [he]
      · simp [he]
    exact ⟨by rw [locations, hsame]; exact h.once, by rw [locations, hsame]; exact h.names⟩
  · have hnew : l ∉ d.locations := by
      intro hmem
      obtain ⟨e, he, hel⟩ := List.mem_map.mp hmem
      exact hany (List.any_eq_true.mpr ⟨e, he, by simpa using hel⟩)
    have happend : (d.nodes ++ [(l, n)]).map Prod.fst = d.locations ++ [l] := by simp [locations]
    refine ⟨?_, ?_⟩
    · rw [locations, happend]
      refine List.nodup_append.mpr ⟨h.once, List.pairwise_singleton .., fun l' hl' m hm heq => ?_⟩
      exact hnew (List.mem_singleton.mp hm ▸ heq ▸ hl')
    · rw [locations, happend]
      intro l' hl'
      rcases List.mem_append.mp hl' with hl' | hl'
      · exact h.names l' hl'
      · rw [List.mem_singleton.mp hl']
        exact hl

theorem Listed.makes {d d' : Disk} {paths : List Path} (h : d.Listed) (hmakes : Makes paths d d') :
    d'.Listed := by
  induction hmakes with
  | nothing => exact h
  | more _ _ hmade ih =>
    rw [hmade.disk]
    exact ih.put (proper_of_locate hmade.leads) _

theorem Listed.written {d d' : Disk} {file : Path} {content : Content} {place : Location}
    (h : d.Listed) (hwritten : Written d d' file content place) : d'.Listed := by
  rw [hwritten.disk]
  exact h.put (proper_of_locate hwritten.leads) _

/-- An entry of a directory stands in it by its name. -/
theorem place_of_entry {e : Location × Node} {place : Location} {name : Name} {n : Node}
    (h : (match e.1.getLast? with
      | some name => if e.1.dropLast = place then some (name, e.2) else none
      | none => none) = some (name, n)) : e.1 = place ++ [name] := by
  cases hlast : e.1.getLast? with
  | none => rw [hlast] at h; cases h
  | some last =>
    obtain ⟨front, hfront⟩ := List.getLast?_eq_some_iff.mp hlast
    rw [hlast] at h
    simp only [hfront, List.dropLast_concat] at h
    split_ifs at h with hplace
    cases h
    rw [hfront, hplace]

/-- **The names of the entries of a directory are different ones.** -/
theorem Listed.pairwise_entries {d : Disk} (h : d.Listed) (place : Location) :
    (d.entries place).Pairwise fun e f => e.1 ≠ f.1 := by
  have honce := h.once
  rw [locations, List.Nodup, List.pairwise_map] at honce
  unfold entries
  rw [List.pairwise_filterMap]
  refine honce.imp fun {e f} hne a ha b hb hname => hne ?_
  rw [place_of_entry (n := a.2) ha, place_of_entry (n := b.2) hb, hname]

theorem Listed.proper {d : Disk} (h : d.Listed) {place : Location} {name : Name} {n : Node}
    (hmem : (name, n) ∈ d.entries place) : Proper name := by
  obtain ⟨e, he, hentry⟩ := List.mem_filterMap.mp hmem
  have hplace : e.1 = place ++ [name] := place_of_entry hentry
  exact h.names e.1 (List.mem_map_of_mem he) name (by rw [hplace]; simp)

end Disk

namespace Generate

variable {d : Disk} {dir : Path} {files : List Path}

/-- Files of different names in a directory are different ones. -/
theorem child_inj {s t : Name} (hs : Disk.Proper s) (ht : Disk.Proper t)
    (h : dir.child s = dir.child t) : s = t := by
  have hnames : ∀ u : Name, Disk.Proper u → (dir.child u).names = dir.names ++ [u] := by
    intro u hu
    obtain ⟨habs, hone, -⟩ := Path.of_oneName (p := Path.ofName u) hu.isStep hu.free
    rw [Path.child, Path.names_join habs, hone]
    rfl
  have hsame : dir.names ++ [s] = dir.names ++ [t] := by rw [← hnames s hs, ← hnames t ht, h]
  exact List.singleton_inj.mp (List.append_cancel_left hsame)

/-- **The components of a directory are in the order of their paths.** -/
theorem listComponents_sorted (h : listComponents d dir = .ok files) :
    files.Pairwise fun a b => a.precedes b = true := by
  unfold listComponents at h
  cases hl : d.locate dir with
  | error e => rw [hl] at h; cases h
  | ok place =>
    rw [hl] at h
    cases h
    have htotal : ∀ a b : Path, (a.precedes b || b.precedes a) = true := fun a b => by
      simpa using Path.precedes_total a b
    exact @List.pairwise_mergeSort _ Path.precedes (fun _ _ _ => Path.precedes_trans) htotal _

/-- **The components of a directory are taken once each.** -/
theorem listComponents_nodup (hd : d.Listed) (h : listComponents d dir = .ok files) : files.Nodup := by
  unfold listComponents at h
  cases hl : d.locate dir with
  | error e => rw [hl] at h; cases h
  | ok place =>
    rw [hl] at h
    cases h
    rw [(List.mergeSort_perm _ _).nodup_iff]
    refine List.Pairwise.filter _ ?_
    rw [List.pairwise_filterMap]
    refine (hd.pairwise_entries place).imp_of_mem fun {e f} he hf hne p hp q hq hpq => hne ?_
    obtain ⟨name, n⟩ := e
    obtain ⟨name', n'⟩ := f
    subst hpq
    have hchild : dir.child name = dir.child name' := by
      cases n with
      | directory | link target => cases hp
      | file c =>
        cases n' with
        | directory | link target => cases hq
        | file c' => exact (Option.some.inj hp).trans (Option.some.inj hq).symm
    exact child_inj (hd.proper he) (hd.proper hf) hchild

/-! ## Runs -/

section Runs

variable {d' : Disk} {s : Setting} {xs : List Save} {file : Path} {text : String}

theorem listed_writeText (h : d.Listed) : (writeText d file text).2.Listed := by
  unfold writeText
  cases hwrite : d.writeFile file (.text text) with
  | error e => exact h
  | ok written =>
    obtain ⟨place, hwritten⟩ := Disk.of_writeFile hwrite
    exact h.written hwritten

theorem listed_writeOutput (h : d.Listed) : (writeOutput d file text).2.Listed := by
  obtain ⟨ready, hmakes, ⟨f, hwrite⟩ | hwrite⟩ := writeOutput_steps d file text
  · rw [hwrite]
    exact h.makes hmakes
  · rw [hwrite]
    exact listed_writeText (h.makes hmakes)

theorem Save.listed (x : Save) (h : x.disk.Listed) : (x.after s).Listed := by
  unfold Save.after
  cases hraw : s.rawJson with
  | true => rw [keep_of_rawJson hraw]; exact h
  | false => rw [disk_keep hraw]; exact listed_writeOutput h

theorem Chain.listed (h : Chain s d xs d') (hd : d.Listed) : d'.Listed := by
  induction h with
  | nil => exact hd
  | @cons x more d' _ ih => exact ih (x.listed hd)

/-- **After a run the disk still lists each place once.** -/
theorem run_listed {schedule : Nat → List Nat} {config : Config} {o : Options} (hd : d.Listed) :
    (runScheduled schedule d config dir o).disk.Listed := by
  cases hvalid : o.validate d dir with
  | error f =>
    rw [disk_of_refused hvalid]
    exact hd
  | ok u => exact (chain_runSaves hvalid).listed hd

end Runs

end Generate

end ComponentRegistry
