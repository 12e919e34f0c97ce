import ComponentRegistry.Proofs.Json.Ordering
import ComponentRegistry.Proofs.Resolver.Relative
import Mathlib.Data.List.Nodup

/-!
# Keys of mappings

A mapping is read from a key and stands where the sort by the length of the text before the star puts
it: the longest first, and of equally long ones the smallest key, since the keys that are read go up
and the sort is stable (`Settings.Sorted.pairwise`).  Among the keys that have the form of one
specifier this is the order in which they count (`outranks_of_stem`): a key without a star has no text
before a star, but it is all of the specifier, and smaller than the keys that begin with it.
-/

namespace ComponentRegistry

/-! ## Lists -/

section Lists

variable {α β γ : Type}

/-- A stable sort keeps the order of what it holds equal. -/
theorem filter_mergeSort {le : α → α → Bool} {p : α → Bool}
    (htrans : ∀ a b c, le a b = true → le b c = true → le a c = true)
    (htotal : ∀ a b, (le a b || le b a) = true) (hp : ∀ a b, p a = true → p b = true → le a b = true)
    (l : List α) : (l.mergeSort le).filter p = l.filter p := by
  have hpairwise : (l.filter p).Pairwise fun a b => le a b = true :=
    List.pairwise_iff_forall_sublist.mpr fun {a b} hab =>
      hp a b (List.of_mem_filter (hab.subset (by simp))) (List.of_mem_filter (hab.subset (by simp)))
  have hsub := (List.sublist_mergeSort htrans htotal hpairwise List.filter_sublist).filter p
  rw [List.filter_filter] at hsub
  simp only [Bool.and_self] at hsub
  exact (hsub.eq_of_length ((List.mergeSort_perm l le).filter p).length_eq.symm).symm

/-- What holds of the elements in their order holds, after a stable sort by weight, of those with
equal weight. -/
theorem pairwise_mergeSort_of_pairwise {weight : α → Nat} {R : α → α → Prop} {l : List α}
    (h : l.Pairwise R) : (l.mergeSort fun a b => weight b ≤ weight a).Pairwise fun a b =>
      weight b < weight a ∨ weight b = weight a ∧ R a b := by
  have htrans : ∀ a b c : α, decide (weight b ≤ weight a) = true → decide (weight c ≤ weight b) = true →
      decide (weight c ≤ weight a) = true := by
    simp only [decide_eq_true_eq]
    omega
  have htotal : ∀ a b : α, (decide (weight b ≤ weight a) || decide (weight a ≤ weight b)) = true := by
    simp only [Bool.or_eq_true, decide_eq_true_eq]
    omega
  refine List.pairwise_iff_forall_sublist.mpr fun {a b} hab => ?_
  have hle : weight b ≤ weight a := of_decide_eq_true
    (List.pairwise_iff_forall_sublist.mp (List.pairwise_mergeSort htrans htotal l) hab)
  rcases Nat.lt_or_eq_of_le hle with hlt | heq
  · exact .inl hlt
  · -- among those with the weight of both, nothing has moved
    have hkept := hab.filter fun x => weight x == weight a
    rw [filter_mergeSort htrans htotal (by simp +contextual)] at hkept
    have hpair : [a, b].filter (fun x => weight x == weight a) = [a, b] := by simp [heq]
    rw [hpair] at hkept
    exact .inr ⟨heq, List.pairwise_iff_forall_sublist.mp h (hkept.trans List.filter_sublist)⟩

theorem findSome?_flatMap (f : β → Option γ) (g : α → List β) (l : List α) :
    (l.flatMap g).findSome? f = l.findSome? fun a => (g a).findSome? f := by
  induction l with
  | nil => rfl
  | cons a l ih =>
    rw [List.flatMap_cons, List.findSome?_append, ih, List.findSome?_cons]
    cases (g a).findSome? f <;> rfl

end Lists

namespace Text

variable {c : Char} {s a b : List Char}

theorem splitOnce?_eq_some (ha : c ∉ a) (hs : s = a ++ c :: b) : splitOnce? c s = some (a, b) := by
  subst hs
  induction a with
  | nil => simp [splitOnce?]
  | cons x a ih =>
    have hx : x ≠ c := fun h => ha (h ▸ List.mem_cons_self)
    simp [splitOnce?, hx, ih fun h => ha (List.mem_cons_of_mem _ h)]

theorem splitOnce?_eq_none (hs : c ∉ s) : splitOnce? c s = none := by
  induction s with
  | nil => rfl
  | cons x s ih =>
    have hx : x ≠ c := fun h => hs (h ▸ List.mem_cons_self)
    simp [splitOnce?, hx, ih fun h => hs (List.mem_cons_of_mem _ h)]

/-- Where there is a `c`, there is a first one. -/
theorem exists_split (hs : c ∈ s) : ∃ a b, s = a ++ c :: b ∧ c ∉ a := by
  induction s with
  | nil => cases hs
  | cons x s ih =>
    by_cases hx : x = c
    · exact ⟨[], s, by simp [hx], by simp⟩
    · obtain ⟨a, b, rfl, ha⟩ := ih ((List.mem_cons.mp hs).resolve_left (Ne.symm hx))
      exact ⟨x :: a, b, rfl, by simp [ha, Ne.symm hx]⟩

theorem byteLength_append (a b : List Char) : byteLength (a ++ b) = byteLength a + byteLength b := by
  induction a with
  | nil => simp [byteLength]
  | cons x a ih => simp [byteLength, ih, Nat.add_assoc]

theorem byteLength_eq_zero_iff : byteLength s = 0 ↔ s = [] := by
  cases s with
  | nil => simp [byteLength]
  | cons x s => simp [byteLength, Nat.ne_of_gt x.utf8Size_pos]

end Text

/-! ## Keys -/

namespace PathMapping

variable {key key' specifier : String} {captured captured' : List Char} {base : Path} {v : Json}
  {m : PathMapping}

/-- The text of a key before its first star, or all of it. -/
def stem (key : String) : List Char := key.toList.takeWhile (· ≠ '*')

/-- The specifier is the key, which has no star, or it has a text in place of the key's first star. -/
inductive Fits (specifier : String) : String → List Char → Prop where
  | exact : '*' ∉ specifier.toList → Fits specifier specifier []
  | pattern {key : String} {before captured after : List Char} : key.toList = before ++ '*' :: after →
      '*' ∉ before → specifier.toList = before ++ captured ++ after → Fits specifier key captured

/-- A key without a star counts before those with one.  Of these, one with more bytes before its star
counts before one with fewer, and of equally many bytes the smaller key. -/
def Outranks (key key' : String) : Prop :=
  '*' ∉ key.toList ∨ '*' ∈ key'.toList ∧
    (Text.byteLength (stem key') < Text.byteLength (stem key) ∨
      Text.byteLength (stem key') = Text.byteLength (stem key) ∧ key < key')

instance (key key' : String) : Decidable (Outranks key key') :=
  inferInstanceAs (Decidable (_ ∨ _))

theorem stem_of_split {before after : List Char} (h : key.toList = before ++ '*' :: after)
    (hbefore : '*' ∉ before) : stem key = before := by
  have hfree : ∀ c ∈ before, decide (c ≠ '*') = true := fun c hc =>
    decide_eq_true fun heq => hbefore (heq ▸ hc)
  unfold stem
  rw [h, List.takeWhile_append_of_pos hfree]
  simp

theorem stem_of_free (h : '*' ∉ key.toList) : stem key = key.toList :=
  List.takeWhile_eq_self_iff.mpr fun _ hc => decide_eq_true fun heq => h (heq ▸ hc)

/-- The key that a mapping has been read from. -/
def written (m : PathMapping) : String :=
  String.ofList (m.before.toList ++ (m.after?.elim [] fun after => '*' :: after.toList))

theorem ofMember?_eq_some_iff : ofMember? base (key, v) = some m ↔
    ∃ items, v = .array items ∧
      m = ⟨(form key).1, (form key).2, items.filterMap Json.string?, base⟩ := by
  cases v with
  | array items => simp [ofMember?, Json.items?, eq_comm]
  | _ => simp [ofMember?, Json.items?]

theorem form_of_split {before after : List Char} (h : key.toList = before ++ '*' :: after)
    (hbefore : '*' ∉ before) : form key = (String.ofList before, some (String.ofList after)) := by
  unfold form
  rw [Text.splitOnce?_eq_some hbefore h]

theorem form_of_free (h : '*' ∉ key.toList) : form key = (key, none) := by
  unfold form
  rw [Text.splitOnce?_eq_none h]

/-- What a mapping that was read from a member has of its key. -/
theorem of_ofMember? (h : ofMember? base (key, v) = some m) :
    m.written = key ∧ m.weight = Text.byteLength (stem key) ∧
      ∀ specifier captured, m.Matches specifier captured ↔ Fits specifier key captured := by
  obtain ⟨items, -, rfl⟩ := ofMember?_eq_some_iff.mp h
  unfold written weight Matches
  by_cases hstar : '*' ∈ key.toList
  · obtain ⟨before, after, hkey, hbefore⟩ := Text.exists_split hstar
    rw [form_of_split hkey hbefore, stem_of_split hkey hbefore]
    refine ⟨?_, by simp, fun specifier captured => ?_⟩
    · rw [← String.toList_inj, hkey]
      simp
    · constructor
      · exact fun hmatches => .pattern hkey hbefore (by simpa using hmatches)
      · rintro (hfree | ⟨hkey', hbefore', hspecifier⟩)
        · exact absurd hstar hfree
        · obtain ⟨rfl, rfl⟩ := Prod.mk.inj (Option.some.inj
            ((Text.splitOnce?_eq_some hbefore hkey).symm.trans (Text.splitOnce?_eq_some hbefore' hkey')))
          simpa using hspecifier
  · rw [form_of_free hstar, stem_of_free hstar]
    refine ⟨by simp, rfl, fun specifier captured => ?_⟩
    constructor
    · rintro ⟨rfl, rfl⟩
      exact .exact hstar
    · rintro (- | ⟨hkey', -, -⟩)
      · exact ⟨rfl, rfl⟩
      · exact absurd (by simp [hkey']) hstar

/-- Among the keys of one specifier, the one with more bytes before its star, or of equally many the
smaller one, counts first: also if it has no star. -/
theorem outranks_of_stem (h : Fits specifier key captured) (h' : Fits specifier key' captured')
    (hstem : Text.byteLength (stem key') < Text.byteLength (stem key) ∨
      Text.byteLength (stem key') = Text.byteLength (stem key) ∧ key < key') : Outranks key key' := by
  cases h with
  | exact hfree => exact .inl hfree
  | pattern hkey hbefore hspecifier =>
    refine .inr ⟨?_, hstem⟩
    cases h' with
    | pattern hkey' => simp [hkey']
    | exact hfree =>
      -- all of the specifier stands before the star, so it is smaller than the key
      rename_i before after
      rw [stem_of_split hkey hbefore, stem_of_free hfree, hspecifier, List.append_assoc,
        Text.byteLength_append] at hstem
      obtain hlt | ⟨hlength, hlt⟩ := hstem
      · omega
      · have hnil : captured ++ after = [] := Text.byteLength_eq_zero_iff.mp (by omega)
        have hsmaller : key' < key := by
          rw [String.lt_iff, hspecifier, List.append_assoc, hnil, hkey]
          exact List.append_left_lt (List.nil_lt_cons _ _)
        exact absurd hlt (String.lt_asymm hsmaller)

/-- Of two keys of one specifier only one counts before the other. -/
theorem eq_of_outranks (h : Fits specifier key captured) (h' : Fits specifier key' captured')
    (hkey : Outranks key key') (hkey' : Outranks key' key) : key = key' := by
  rcases hkey with hfree | ⟨hstar, hstem⟩
  · rcases hkey' with hfree' | ⟨hstar', -⟩
    · cases h with
      | pattern heq => exact absurd (by simp [heq]) hfree
      | exact =>
        cases h' with
        | pattern heq => exact absurd (by simp [heq]) hfree'
        | exact => rfl
    · exact absurd hstar' hfree
  · rcases hkey' with hfree' | ⟨-, hstem'⟩
    · exact absurd hstar hfree'
    · exfalso
      rcases hstem with hlt | ⟨heq, hlt⟩
      · omega
      · rcases hstem' with hlt' | ⟨-, hlt'⟩
        · omega
        · exact String.lt_asymm hlt hlt'

end PathMapping

/-! ## Settings -/

namespace ProjectConfig

variable {d : Disk} {s : Settings}

/-- The keys of the mappings go up. -/
def Settings.Sorted (s : Settings) : Prop :=
  ∀ members dir, s.paths = some (members, dir) → SortedEntries members

theorem Settings.Sorted.overlay {inherited : Settings} {v : Json} (hinherited : inherited.Sorted)
    (hv : v.Sorted) (own : Path) : (inherited.overlay own v).Sorted := by
  intro members dir h
  unfold Settings.overlay at h
  cases hoptions : v.member? "compilerOptions" with
  | none =>
    rw [hoptions] at h
    exact hinherited _ _ h
  | some options =>
    rw [hoptions] at h
    simp only at h
    cases hpaths : (options.member? "paths").bind Json.members? with
    | none =>
      rw [hpaths] at h
      exact hinherited _ _ h
    | some listed =>
      rw [hpaths] at h
      obtain ⟨rfl, rfl⟩ := Prod.mk.inj (Option.some.inj h)
      obtain ⟨w, hw, hlisted⟩ := Option.bind_eq_some_iff.mp hpaths
      exact ((hv.member hoptions).member hw).members hlisted

theorem settings?_zero (d : Disk) (file : Path) : settings? d 0 file = (do
    let text ← (d.readText file).toOption
    let v ← (Json.parse (Json.stripExtras text)).toOption
    let own ← file.parent?
    return Settings.absent.overlay own v) := rfl

-- By hand: to derive the equations of `settings?`, Lean reduces the reader of JSON text.
theorem settings?_succ (d : Disk) (chain : Nat) (file : Path) : settings? d (chain + 1) file = (do
    let text ← (d.readText file).toOption
    let v ← (Json.parse (Json.stripExtras text)).toOption
    let own ← file.parent?
    return (((parentFile? d own v).bind (settings? d chain)).getD .absent).overlay own v) := by
  delta settings? Nat.brecOn Nat.brecOn.go
  refine bind_congr fun text => bind_congr fun v => bind_congr fun own => ?_
  cases parentFile? d own v <;> rfl

/-- The file can be read, and what it says, between comments, is `v`. -/
def Says (d : Disk) (file : Path) (v : Json) : Prop :=
  ∃ text, d.readText file = .ok text ∧ Json.parse (Json.stripExtras text) = .ok v

theorem Says.sorted {file : Path} {v : Json} (h : Says d file v) : v.Sorted := by
  obtain ⟨text, -, hparse⟩ := h
  exact Json.sorted_of_parse hparse

/-- What a configuration says is laid over settings that are found from it. -/
theorem read_eq_some_iff {file : Path} (inherited : Path → Json → Settings) : (do
    let text ← (d.readText file).toOption
    let v ← (Json.parse (Json.stripExtras text)).toOption
    let own ← file.parent?
    return (inherited own v).overlay own v) = some s ↔
      ∃ v own, Says d file v ∧ file.parent? = some own ∧ (inherited own v).overlay own v = s := by
  have htoOption : ∀ {ε α : Type} {x : Except ε α} {a : α}, x.toOption = some a ↔ x = .ok a := by
    intro ε α x a
    cases x <;> simp [Except.toOption]
  simp only [Option.bind_eq_bind, Option.bind_eq_some_iff, htoOption, Option.pure_def, Option.some_inj]
  constructor
  · rintro ⟨text, htext, v, hparse, own, hown, hs⟩
    exact ⟨v, own, ⟨text, htext, hparse⟩, hown, hs⟩
  · rintro ⟨v, own, ⟨text, htext, hparse⟩, hown, hs⟩
    exact ⟨text, htext, v, hparse, own, hown, hs⟩

/-- The settings of what a configuration extends, with so many more that may be extended. -/
def inheritedFrom (d : Disk) (chain : Nat) (own : Path) (v : Json) : Settings :=
  ((parentFile? d own v).bind (settings? d chain)).getD .absent

/-- Whatever order they are written in, the keys of mappings that are read go up. -/
theorem sorted_of_settings? {chain : Nat} {file : Path} (h : settings? d chain file = some s) :
    s.Sorted := by
  have habsent : Settings.absent.Sorted := fun _ _ hpaths => by cases hpaths
  induction chain generalizing file s with
  | zero =>
    rw [settings?_zero] at h
    obtain ⟨v, own, hv, -, rfl⟩ := (read_eq_some_iff fun _ _ => .absent).mp h
    exact habsent.overlay hv.sorted own
  | succ chain ih =>
    rw [settings?_succ] at h
    obtain ⟨v, own, hv, -, rfl⟩ := (read_eq_some_iff (inheritedFrom d chain)).mp h
    refine Settings.Sorted.overlay ?_ hv.sorted own
    unfold inheritedFrom
    cases hparent : (parentFile? d own v).bind (settings? d chain) with
    | none => exact habsent
    | some inherited =>
      obtain ⟨parent, -, hsettings⟩ := Option.bind_eq_some_iff.mp hparent
      exact ih hsettings

theorem Settings.mem_mappings {m : PathMapping} : m ∈ s.mappings ↔
    ∃ members dir, s.paths = some (members, dir) ∧
      ∃ e ∈ members, PathMapping.ofMember? (s.baseUrl.getD dir) e = some m := by
  unfold Settings.mappings
  cases hpaths : s.paths with
  | none => simp
  | some listed =>
    constructor
    · intro hm
      exact ⟨listed.1, listed.2, rfl, List.mem_filterMap.mp (List.mem_mergeSort.mp hm)⟩
    · rintro ⟨members, dir, hlisted, hm⟩
      cases hlisted
      exact List.mem_mergeSort.mpr (List.mem_filterMap.mpr hm)

theorem pairwise_written {members : List (String × Json)} (h : SortedEntries members) (base : Path) :
    (members.filterMap (PathMapping.ofMember? base)).Pairwise fun a b => a.written < b.written := by
  refine List.Pairwise.filterMap _ ?_ h
  rintro ⟨key, v⟩ ⟨key', v'⟩ hlt m hm m' hm'
  rw [(PathMapping.of_ofMember? hm).1, (PathMapping.of_ofMember? hm').1]
  exact hlt

/-- Mappings stand by the length of the text before the star, and by key where it is the same. -/
theorem Settings.Sorted.pairwise (h : s.Sorted) : s.mappings.Pairwise fun a b =>
    b.weight < a.weight ∨ b.weight = a.weight ∧ a.written < b.written := by
  unfold Settings.mappings
  cases hpaths : s.paths with
  | none => exact .nil
  | some listed => exact pairwise_mergeSort_of_pairwise (pairwise_written (h _ _ hpaths) _)

/-- A key has one mapping. -/
theorem Settings.Sorted.nodup (h : s.Sorted) : (s.mappings.map PathMapping.written).Nodup := by
  unfold Settings.mappings
  cases hpaths : s.paths with
  | none => exact .nil
  | some listed =>
    refine ((List.mergeSort_perm _ _).map _).nodup_iff.mpr (List.pairwise_map.mpr ?_)
    refine (pairwise_written (h _ _ hpaths) _).imp fun {a b} hlt heq => ?_
    rw [heq] at hlt
    exact String.lt_irrefl _ hlt

end ProjectConfig

end ComponentRegistry
