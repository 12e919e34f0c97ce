import ComponentRegistry.Manifest
import ComponentRegistry.Proofs.Json.Printing

/-!
# Manifests as JSON

A manifest is read from an object by the keys that it is written with, whatever their order
(`Manifest.ofJson?`).  The text of a manifest gives the manifest back (`wire_faithful`): each part
is read from what it is written as, a list element by element.
-/

namespace ComponentRegistry

variable {α : Type}

/-! ## Reading manifests from values -/

/-- The elements of a list, each read in the same way. -/
def Json.listOf? (read : Json → Option α) (v : Json) : Option (List α) := do (← v.items?).mapM read

/-- A member that has to be there. -/
def Json.field? (key : String) (read : Json → Option α) (v : Json) : Option α :=
  (v.member? key).bind read

def RegistryType.ofJson? (v : Json) : Option RegistryType := v.string?.bind ofTag?

def RegistryFile.ofJson? (v : Json) : Option RegistryFile := do
  let path ← v.field? "path" Json.string?
  let content ← v.field? "content" Json.string?
  let type ← v.field? "type" RegistryType.ofJson?
  return ⟨path, content, type⟩

namespace Manifest

/-- The type of a manifest, which may be null or missing. -/
def typeOf? : Option Json → Option (Option RegistryType)
  | none | some .null => some none
  | some v => (RegistryType.ofJson? v).map some

/-- The manifest that an object describes; members with other keys are passed over. -/
def ofJson? (v : Json) : Option Manifest := do
  let name ← v.field? "name" Json.string?
  let type ← typeOf? (v.member? "type")
  let dependencies ← v.field? "dependencies" (Json.listOf? Json.string?)
  let devDependencies ← v.field? "devDependencies" (Json.listOf? Json.string?)
  let registryDependencies ← v.field? "registryDependencies" (Json.listOf? Json.string?)
  let files ← v.field? "files" (Json.listOf? RegistryFile.ofJson?)
  return ⟨name, type, dependencies, devDependencies, registryDependencies, files⟩

/-- The manifest that a text describes. -/
def decode (text : String) : Option Manifest := (Json.parse text).toOption.bind ofJson?

/-- The manifests that a text lists. -/
def decodeList (text : String) : Option (List Manifest) :=
  (Json.parse text).toOption.bind (Json.listOf? ofJson?)

end Manifest

/-! ## Members -/

namespace Json

/-- Of members with one key the last one counts. -/
theorem member?_ofMembers (key : String) (ms : List (String × Json)) :
    (ofMembers ms).member? key = entryValue? key ms.reverse := by
  induction ms using List.reverseRecOn with
  | nil => rfl
  | append_singleton ms m ih =>
    rw [List.reverse_append]
    simp only [ofMembers, member?, List.foldl_append, List.foldl_cons, List.foldl_nil,
      entryValue?_insertEntry] at ih ⊢
    rw [ih]
    rfl

/-- What is read back from each element is read back from the list of them. -/
theorem listOf?_map (write : α → Json) {read : Json → Option α} (h : ∀ a, read (write a) = some a)
    (as : List α) : listOf? read (.array (as.map write)) = some as := by
  have hread : read ∘ write = fun a => some a := funext h
  change (as.map write).mapM read = some as
  rw [List.mapM_map, hread]
  exact (List.mapM_pure (m := Option) (f := id)).trans (congrArg some (List.map_id as))

end Json

/-! ## Manifests as values -/

namespace Manifest

open Json

theorem ofTag?_tag (t : RegistryType) : RegistryType.ofTag? t.tag = some t := by
  cases t <;> rfl

theorem exact_strings (items : List String) : Exact (strings items) := by
  refine .array fun v hv => ?_
  obtain ⟨s, -, rfl⟩ := List.mem_map.mp hv
  exact .string s

theorem exact_fileJson (f : RegistryFile) : Exact (fileJson f) := by
  refine .object fun m hm => ?_
  simp only [List.mem_cons, List.not_mem_nil, or_false] at hm
  rcases hm with rfl | rfl | rfl
  all_goals exact .string _

theorem exact_toJson (m : Manifest) : Exact m.toJson := by
  refine .object fun e he => ?_
  simp only [List.mem_cons, List.not_mem_nil, or_false] at he
  rcases he with rfl | rfl | rfl | rfl | rfl | rfl
  · exact .string _
  · cases m.type with
    | none => exact .null
    | some t => exact .string _
  · exact exact_strings _
  · exact exact_strings _
  · exact exact_strings _
  · refine .array fun v hv => ?_
    obtain ⟨f, -, rfl⟩ := List.mem_map.mp hv
    exact exact_fileJson f

theorem sorted_strings (items : List String) : (strings items).sorted = strings items := by
  simp [strings, sorted, sortedItems_eq_map]

theorem ofJson?_fileJson (f : RegistryFile) : RegistryFile.ofJson? (fileJson f).sorted = some f := by
  simp [RegistryFile.ofJson?, field?, fileJson, sorted, sortedMembers, member?_ofMembers, entryValue?,
    string?, RegistryType.ofJson?, ofTag?_tag]

theorem typeOf?_sorted (t : Option RegistryType) :
    typeOf? (some ((t.elim .null fun t => .string t.tag : Json).sorted)) = some t := by
  cases t with
  | none => rfl
  | some t => exact congrArg (Option.map some) (ofTag?_tag t)

theorem listOf?_strings (items : List String) :
    listOf? string? (strings items).sorted = some items := by
  rw [sorted_strings]
  exact listOf?_map Json.string (fun _ => rfl) items

theorem listOf?_files (files : List RegistryFile) :
    listOf? RegistryFile.ofJson? (Json.array (files.map fileJson)).sorted = some files := by
  rw [sorted, sortedItems_eq_map, List.map_map]
  exact listOf?_map (sorted ∘ fileJson) ofJson?_fileJson files

/-- **A manifest is read back from its value**, its members in order. -/
theorem ofJson?_toJson (m : Manifest) : ofJson? m.toJson.sorted = some m := by
  have hmember : ∀ key, m.toJson.sorted.member? key = entryValue? key [
      ("files", (Json.array (m.files.map fileJson)).sorted),
      ("registryDependencies", (strings m.registryDependencies).sorted),
      ("devDependencies", (strings m.devDependencies).sorted),
      ("dependencies", (strings m.dependencies).sorted),
      ("type", (m.type.elim .null fun t => .string t.tag : Json).sorted),
      ("name", .string m.name)] := fun key => member?_ofMembers key _
  simp [ofJson?, field?, hmember, entryValue?, string?, typeOf?_sorted, listOf?_strings,
    listOf?_files]

/-! ## Manifests as texts -/

theorem depthItems_le {n : Nat} {vs : List Json} (h : ∀ v ∈ vs, v.depth ≤ n) : depthItems vs ≤ n := by
  induction vs with
  | nil => exact Nat.zero_le n
  | cons v vs ih =>
    obtain ⟨hv, hvs⟩ := List.forall_mem_cons.mp h
    exact Nat.max_le.mpr ⟨hv, ih hvs⟩

theorem depth_strings (items : List String) : (strings items).depth ≤ 1 := by
  refine Nat.succ_le_succ (depthItems_le fun v hv => ?_)
  obtain ⟨s, -, rfl⟩ := List.mem_map.mp hv
  exact Nat.le_refl 0

theorem depth_toJson (m : Manifest) : m.toJson.depth ≤ 3 := by
  have hfiles : (Json.array (m.files.map fileJson)).depth ≤ 2 := by
    refine Nat.succ_le_succ (depthItems_le fun v hv => ?_)
    obtain ⟨f, -, rfl⟩ := List.mem_map.mp hv
    exact Nat.le_refl 1
  have htype : (m.type.elim .null fun t => .string t.tag : Json).depth = 0 := by
    cases m.type <;> rfl
  have hdependencies := depth_strings m.dependencies
  have hdev := depth_strings m.devDependencies
  have hregistry := depth_strings m.registryDependencies
  simp only [toJson, depth, depthMembers] at hfiles htype ⊢
  omega

/-- **The text of a manifest is JSON that the manifest is read from.** -/
theorem read_pretty (m : Manifest) :
    ∃ v, IsText v m.pretty ∧ parse m.pretty = .ok v ∧ ofJson? v = some m := by
  obtain ⟨ts, hts, hs⟩ := m.exact_toJson.spaced_pretty
  have hread := m.exact_toJson.parse_pretty (m.depth_toJson.trans (by decide))
  exact ⟨m.toJson.sorted, ⟨_, ts, hts, hs⟩, hread, m.ofJson?_toJson⟩

theorem decode_pretty (m : Manifest) : decode m.pretty = some m := by
  obtain ⟨v, -, hread, hm⟩ := m.read_pretty
  rw [decode, hread]
  exact hm

/-- **Manifests go over the wire unchanged.**  The text of a manifest is JSON, the manifest is read
from it, and no other manifest has the same text. -/
theorem wire_faithful :
    (∀ m : Manifest, (∃ v, IsText v m.pretty) ∧ decode m.pretty = some m) ∧
      Function.Injective pretty := by
  refine ⟨fun m => ?_, fun m n h => ?_⟩
  · obtain ⟨v, htext, -, -⟩ := m.read_pretty
    exact ⟨⟨v, htext⟩, m.decode_pretty⟩
  · have hdecode := m.decode_pretty
    rw [h, n.decode_pretty] at hdecode
    exact (Option.some.inj hdecode).symm

/-- A quote, a backslash, two controls, and characters beyond ASCII. -/
def awkward : Manifest := ⟨"\"\\\n\x1fé𝔘", none, [], [], [], []⟩

example : decode awkward.pretty = some awkward := by decide +kernel

/-! ## Lists of manifests -/

/-- The list of manifests as a value. -/
def listJson (ms : List Manifest) : Json := .array (ms.map toJson)

theorem listOf?_listJson (ms : List Manifest) : listOf? ofJson? (listJson ms).sorted = some ms := by
  rw [listJson, sorted, sortedItems_eq_map, List.map_map]
  exact listOf?_map (sorted ∘ toJson) ofJson?_toJson ms

/-- The text of a list of manifests is JSON that they are read from, in their order. -/
theorem read_pretty_list (ms : List Manifest) :
    (∃ v, IsText v (listJson ms).pretty) ∧ decodeList (listJson ms).pretty = some ms := by
  have hexact : Exact (listJson ms) := by
    refine .array fun v hv => ?_
    obtain ⟨m, -, rfl⟩ := List.mem_map.mp hv
    exact m.exact_toJson
  have hdepth : (listJson ms).depth ≤ 4 := by
    refine Nat.succ_le_succ (depthItems_le fun v hv => ?_)
    obtain ⟨m, -, rfl⟩ := List.mem_map.mp hv
    exact m.depth_toJson
  obtain ⟨ts, hts, hs⟩ := hexact.spaced_pretty
  refine ⟨⟨_, _, ts, hts, hs⟩, ?_⟩
  rw [decodeList, hexact.parse_pretty (hdepth.trans (by decide))]
  exact listOf?_listJson ms

end Manifest

end ComponentRegistry
