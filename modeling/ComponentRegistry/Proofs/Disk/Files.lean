import ComponentRegistry.Proofs.Resolver.Answers
import Mathlib.Data.Finset.Card

/-!
# The files of a disk

A disk has finitely many files (`Disk.files`), no more than it has places (`Disk.card_files_le`).
Their canonical paths are those of the places where a file stands below directories only
(`Disk.mem_files_iff`), and what can be read by a canonical path is such a file
(`Disk.isPlaceOfFile_of_readText`).
-/

namespace ComponentRegistry

open Resolver (IsPlaceOfFile)

def Node.isFile : Node → Bool
  | .file _ => true
  | _ => false

namespace Disk

variable {d : Disk} {q : Path}

theorem isPlaceOfFile_iff : IsPlaceOfFile d q ↔ q = pathOf q.names ∧ (∀ s ∈ q.names, Proper s) ∧
    (∀ m ∈ q.names.inits, m = q.names ∨ d.node? m = some .directory) ∧
    (d.node? q.names).any Node.isFile = true := by
  have hfile : (d.node? q.names).any Node.isFile = true ↔
      ∃ content, d.node? q.names = some (.file content) := by
    cases d.node? q.names with
    | none => simp
    | some n => cases n <;> simp [Node.isFile]
  rw [hfile]
  constructor
  · intro h
    refine ⟨h.written, h.proper, fun m hm => ?_, h.file⟩
    by_cases hne : m = q.names
    · exact Or.inl hne
    · exact Or.inr (h.standing.above m ((List.mem_inits _ _).mp hm) hne)
  · rintro ⟨hwritten, hproper, habove, content, hn⟩
    refine ⟨hwritten, hproper, ⟨⟨_, hn, by simp⟩, fun m hm hne => ?_⟩, content, hn⟩
    exact (habove m ((List.mem_inits _ _).mpr hm)).resolve_left hne

instance (d : Disk) (q : Path) : Decidable (IsPlaceOfFile d q) :=
  decidable_of_iff _ isPlaceOfFile_iff.symm

/-- The canonical paths of the files of a disk. -/
def files (d : Disk) : Finset Path := d.places.toFinset.filter (IsPlaceOfFile d)

theorem mem_files_iff : q ∈ d.files ↔ IsPlaceOfFile d q := by
  unfold files
  rw [Finset.mem_filter, List.mem_toFinset]
  refine ⟨And.right, fun h => ⟨?_, h⟩⟩
  obtain ⟨content, hn⟩ := h.file
  have hne : q.names ≠ [] := by
    intro hnil
    rw [hnil] at hn
    cases hn
  rw [h.written]
  exact List.mem_map_of_mem (List.mem_cons_of_mem _ (mem_locations_of_node? hne hn))

theorem card_files_le (d : Disk) : d.files.card ≤ d.nodes.length + 1 := by
  rw [← length_places]
  exact (Finset.card_filter_le ..).trans (List.toFinset_card_le _)

/-- What has a canonical path and can be read is a file, and its path is that of its place. -/
theorem isPlaceOfFile_of_readText {path : Path} {text : String} (hq : d.canonical path = .ok q)
    (h : d.readText q = .ok text) : IsPlaceOfFile d q := by
  obtain ⟨l, content, hl, hn⟩ := isFile_iff.mp (isFile_of_readText h)
  have hplace := Resolver.isPlaceOfFile_pathOf hl hn
  have hsame : pathOf l = q := canonical_unique hq (by rw [canonical, hl]; rfl)
  rwa [hsame] at hplace

end Disk

end ComponentRegistry
