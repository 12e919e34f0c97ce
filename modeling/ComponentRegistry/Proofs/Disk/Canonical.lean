import ComponentRegistry.Disk.Ancestor
import ComponentRegistry.Proofs.Disk.Spelling

/-!
# Canonical paths

The canonical path of what stands on a disk is written with the names of its place, one slash before
each (`of_canonical`).  The paths above it are those of the places above it (`of_mem_parents`), and
they lead there where they can be asked for (`locate_pathOf`).  The names behind such a path, put
together with slashes and joined to it, give the path again (`join_behind`).
-/

namespace ComponentRegistry

namespace Text

variable {α : Type} {c : α} {ps : List (List α)}

/-- Pieces that are put together end as the last one does. -/
theorem getLast?_joinWith {p : List α} (hlast : ps.getLast? = some p) (hp : p ≠ []) :
    (joinWith c ps).getLast? = p.getLast? := by
  obtain ⟨front, rfl⟩ := List.getLast?_eq_some_iff.mp hlast
  by_cases hfront : front = []
  · subst hfront
    rfl
  · rw [joinWith_append c hfront (by simp), List.getLast?_append_of_ne_nil _ (by simp)]
    show (c :: p).getLast? = _
    rw [List.getLast?_cons_of_ne_nil hp]

end Text

/-- A relative path is written behind its base. -/
theorem Path.glyphs_prefix_join (base : Path) {p : Path} (hp : p.isAbsolute = false) :
    base.glyphs <+: (base.join p).glyphs := by
  unfold Path.join
  by_cases hbase : base.isEmpty = true
  · have hnil : base.glyphs = [] := by simpa [isEmpty] using hbase
    rw [hnil]
    exact List.nil_prefix
  · rw [if_neg (by simp [hp, hbase])]
    split_ifs
    · exact List.prefix_append ..
    · exact List.prefix_append ..

namespace Disk

variable {d : Disk} {p q : Path} {l m rest : Location}

/-! ## Paths of places -/

theorem of_canonical (h : d.canonical p = .ok q) :
    ∃ l, d.locate p = .ok l ∧ q = pathOf l ∧ Standing d l ∧ ∀ s ∈ l, Proper s := by
  unfold canonical at h
  cases hl : d.locate p with
  | error e => rw [hl] at h; cases h
  | ok l =>
    rw [hl] at h
    exact ⟨l, rfl, (Except.ok.inj h).symm, standing_of_locate hl, proper_of_locate hl⟩

/-- Paths of places begin one another as the places do. -/
theorem startsWith_pathOf_iff (hl : ∀ s ∈ l, Proper s) (hm : ∀ s ∈ m, Proper s) :
    (pathOf l).startsWith (pathOf m) = true ↔ m <+: l := by
  obtain ⟨habs, hnames⟩ := of_pathOf hl
  obtain ⟨habs', hnames'⟩ := of_pathOf hm
  constructor
  · intro h
    obtain ⟨-, rest, hrest⟩ := Path.of_startsWith h (Path.components_ne_nil rfl)
    rw [hnames, hnames'] at hrest
    exact ⟨rest, hrest.symm⟩
  · rintro ⟨rest, rfl⟩
    unfold Path.startsWith
    rw [Path.components_of_isAbsolute habs, Path.components_of_isAbsolute habs', hnames, hnames',
      Text.startsWith_iff]
    exact ⟨rest.map Path.Component.ofName, by simp⟩

theorem trimEnd_of_proper (h : ∀ s ∈ l, Proper s) : Path.trimEnd l = l := by
  unfold Path.trimEnd
  cases hl : l.reverse with
  | nil => simpa using hl.symm
  | cons s more =>
    have hs : s ∈ l := List.mem_reverse.mp (hl ▸ List.mem_cons_self ..)
    rw [List.dropWhile_cons_of_neg (by simp [(h s hs).isStep]), ← hl, List.reverse_reverse]

/-- The segments of the path of a place are its names. -/
theorem parts_pathOf (h : ∀ s ∈ l, Proper s) (hl : l ≠ []) : (pathOf l).parts = (.root, l) := by
  have hsplit : Text.splitAt Path.separator (Text.joinWith Path.separator l) = l :=
    Text.splitAt_joinWith hl fun s hs => (h s hs).free
  obtain ⟨s, more, rfl⟩ := List.exists_cons_of_ne_nil hl
  unfold Path.parts pathOf
  rw [Text.splitAt_cons_self, hsplit]
  rfl

/-- Above a place are the place that holds it and those above that one. -/
theorem parents_concat {s : Name} (h : ∀ t ∈ l ++ [s], Proper t) :
    (pathOf (l ++ [s])).parents = pathOf l :: (pathOf l).parents := by
  have hl : ∀ t ∈ l, Proper t := fun t ht => h t (List.mem_append_left _ ht)
  have hs : Path.isStep s = true := (h s (by simp)).isStep
  have habove : Path.parentsOf .root l.reverse = (pathOf l).parents := by
    unfold Path.parents
    by_cases hnil : l = []
    · subst hnil
      rfl
    · rw [parts_pathOf hl hnil]
  unfold Path.parents at habove ⊢
  rw [parts_pathOf h (by simp), List.reverse_append, List.reverse_singleton, List.singleton_append,
    Path.parentsOf, if_pos hs, List.reverse_reverse, trimEnd_of_proper hl, habove]
  rfl

theorem ne_concat (h : m <+: l) (s : Name) : m ≠ l ++ [s] := by
  rintro rfl
  have hle := h.length_le
  rw [List.length_append, List.length_singleton] at hle
  omega

/-- A path above that of a place is the path of a place above it. -/
theorem of_mem_parents (h : ∀ s ∈ l, Proper s) (hq : q ∈ (pathOf l).parents) :
    ∃ m, m <+: l ∧ m ≠ l ∧ q = pathOf m := by
  induction l using List.reverseRecOn with
  | nil => cases hq
  | append_singleton front s ih =>
    have hne : ∀ m, m <+: front → m ≠ front ++ [s] := fun m hm => ne_concat hm s
    rw [parents_concat h] at hq
    rcases List.mem_cons.mp hq with rfl | hq
    · exact ⟨front, List.prefix_append .., hne front (List.prefix_refl _), rfl⟩
    · obtain ⟨m, hm, -, rfl⟩ := ih (fun t ht => h t (List.mem_append_left _ ht)) hq
      exact ⟨m, hm.trans (List.prefix_append ..), hne m hm, rfl⟩

/-! ## Asking for a place -/

theorem byteCount_append (xs ys : List Text.Glyph) :
    Text.byteCount (xs ++ ys) = Text.byteCount xs + Text.byteCount ys := by
  induction xs with
  | nil => simp [Text.byteCount]
  | cons x xs ih => simp [Text.byteCount, ih, Nat.add_assoc]

theorem byteCount_le_of_sublist {xs ys : List Text.Glyph} (h : xs.Sublist ys) :
    Text.byteCount xs ≤ Text.byteCount ys := by
  induction h with
  | slnil => exact le_rfl
  | cons y _ ih => exact ih.trans (Nat.le_add_left ..)
  | cons_cons x _ ih => exact Nat.add_le_add_left ih _

theorem refusal?_eq_none_iff : refusal? p = none ↔ p.isEmpty = false ∧ .char '\x00' ∉ p.glyphs ∧
    Text.byteCount p.glyphs < pathLimit := by
  unfold refusal?
  split_ifs with hempty hnul hlong
  · simp [hempty]
  · simp [show .char '\x00' ∈ p.glyphs by simpa using hnul]
  · simp [hlong]
  · simp only [true_iff]
    exact ⟨by simpa using hempty, by simpa using hnul, Nat.not_le.mp hlong⟩

/-- What is left of a path that can be asked for can be asked for itself. -/
theorem refusal?_of_sublist (hp : p.isEmpty = false) (h : p.glyphs.Sublist q.glyphs)
    (hq : refusal? q = none) : refusal? p = none := by
  obtain ⟨-, hnul, hshort⟩ := refusal?_eq_none_iff.mp hq
  exact refusal?_eq_none_iff.mpr
    ⟨hp, fun hmem => hnul (h.subset hmem), (byteCount_le_of_sublist h).trans_lt hshort⟩

/-- The path of a place leads to it, if it can be asked for. -/
theorem locate_pathOf (hs : Standing d l) (h : ∀ s ∈ l, Proper s) (hr : refusal? (pathOf l) = none) :
    d.locate (pathOf l) = .ok l := by
  obtain ⟨habs, hnames⟩ := of_pathOf h
  refine locate_eq hr ?_
  rw [show d.absolute (pathOf l) = pathOf l from Path.join_of_isAbsolute _ habs]
  by_cases hnil : l = []
  · -- the root has a slash at its end
    subst hnil
    show d.follow linkLimit [] [.toRoot, .stay] = .ok []
    rw [follow_toRoot, follow_stay (node?_nil d), follow_nil]
  · have hends : (pathOf l).EndsInName := by
      obtain ⟨s, hlast⟩ : ∃ s, l.getLast? = some s := ⟨_, List.getLast?_eq_some_getLast hnil⟩
      refine ⟨s, ?_, (h s (List.mem_of_getLast? hlast)).isStep⟩
      unfold Path.segments pathOf
      rw [Text.splitAt_cons_self, Text.splitAt_joinWith hnil fun s hs => (h s hs).free,
        List.getLast?_cons_of_ne_nil hnil, hlast]
    refine follow_of_turnsOf hends ?_
    have hs' : Standing d ([] ++ l) := hs
    unfold turnsOf
    rw [habs, if_pos rfl, hnames, List.singleton_append, follow_toRoot,
      ← List.append_nil (l.map turn), follow_turns hs' h, follow_nil]
    rfl

/-- A canonical path has no other canonical path. -/
theorem canonical_unique {q' : Path} (h : d.canonical p = .ok q) (h' : d.canonical q = .ok q') :
    q' = q := by
  obtain ⟨l, -, rfl, hstanding, hproper⟩ := of_canonical h
  obtain ⟨l', hl', rfl, -, -⟩ := of_canonical h'
  rw [locate_pathOf hstanding hproper (of_locate hl').1] at hl'
  rw [Except.ok.inj hl']

/-- Canonical paths with the same components are one path. -/
theorem eq_of_canonical {p' q' : Path} (h : d.canonical p = .ok q) (h' : d.canonical p' = .ok q')
    (hkey : q.components = q'.components) : q = q' := by
  obtain ⟨l, -, rfl, -, hproper⟩ := of_canonical h
  obtain ⟨l', -, rfl, -, hproper'⟩ := of_canonical h'
  have hnames := (Path.sameWay_of_components hkey).names
  rw [(of_pathOf hproper).2, (of_pathOf hproper').2] at hnames
  rw [hnames]

/-- What has a canonical path is there. -/
theorem has_of_canonical (h : d.canonical p = .ok q) : d.has p = true := by
  obtain ⟨l, hl, -, hstanding, -⟩ := of_canonical h
  obtain ⟨n, hn, -⟩ := hstanding.here
  unfold has stat
  rw [hl]
  simp [hn, Except.isOk, Except.toBool]

/-- The nearest directory above a place that holds a file of some name is that of a place above it,
by its canonical path. -/
theorem of_ancestorWith? {name : String} (hs : Standing d l) (h : ∀ s ∈ l, Proper s)
    (hl : l ≠ []) (hname : (Path.ofString name).isAbsolute = false)
    (hp : (pathOf l).parent? = some p) (hq : d.ancestorWith? p name = some q) :
    ∃ m, m <+: l ∧ q = pathOf m ∧ d.node? m = some .directory ∧ d.locate q = .ok m := by
  obtain ⟨front, s, rfl⟩ := (List.eq_nil_or_concat l).resolve_left hl
  rw [List.concat_eq_append] at h hs hp ⊢
  have hfront : ∀ t ∈ front, Proper t := fun t ht => h t (List.mem_append_left _ ht)
  obtain rfl : pathOf front = p := by
    unfold Path.parent? at hp
    rw [parents_concat h] at hp
    exact Option.some.inj hp
  have hq' : q ∈ (pathOf front).ancestors := List.mem_of_find?_eq_some hq
  obtain ⟨m, hm, rfl⟩ : ∃ m, m <+: front ∧ q = pathOf m := by
    rcases List.mem_cons.mp hq' with rfl | hq'
    · exact ⟨front, List.prefix_refl _, rfl⟩
    · obtain ⟨m, hm, -, rfl⟩ := of_mem_parents hfront hq'
      exact ⟨m, hm, rfl⟩
  have hml : m <+: front ++ [s] := hm.trans (List.prefix_append ..)
  -- the file in the directory can be asked for
  have hfile : d.isFile (pathOf m / name) = true := by simpa using List.find?_some hq
  have hr : refusal? (pathOf m) = none := by
    exact refusal?_of_sublist rfl (Path.glyphs_prefix_join _ hname).sublist
      (spelling_of_isFile hfile).2
  have hstanding : Standing d m := by
    rw [List.prefix_iff_eq_take.mp hml]
    exact hs.take m.length
  exact ⟨m, hml, rfl, hs.above m hml (ne_concat hm s),
    locate_pathOf hstanding (fun t ht => h t (hml.subset ht)) hr⟩

/-! ## Behind a place -/

theorem Proper.ne_nil {s : Name} (h : Proper s) : s ≠ [] := by
  rintro rfl
  exact absurd h.isStep (by decide)

/-- There is no slash at the end of the path of a place below the root. -/
theorem getLast?_pathOf (h : ∀ s ∈ l, Proper s) (hl : l ≠ []) :
    (pathOf l).glyphs.getLast? ≠ some Path.separator := by
  obtain ⟨s, hs⟩ : ∃ s, l.getLast? = some s := ⟨_, List.getLast?_eq_some_getLast hl⟩
  have hproper := h s (List.mem_of_getLast? hs)
  have hend := Text.getLast?_joinWith (c := Path.separator) hs hproper.ne_nil
  have hbody : Text.joinWith Path.separator l ≠ [] := by
    intro hnil
    rw [hnil] at hend
    exact hproper.ne_nil (List.getLast?_eq_none_iff.mp hend.symm)
  unfold pathOf
  rw [List.getLast?_cons_of_ne_nil hbody, hend]
  exact fun hsep => hproper.free (List.mem_of_getLast? hsep)

/-- A path of proper names begins with a name. -/
theorem isAbsolute_joinWith (h : ∀ s ∈ l, Proper s) :
    (Path.mk (Text.joinWith Path.separator l)).isAbsolute = false := by
  show (Path.render .none l).isAbsolute = false
  rw [← Bool.not_eq_true, Path.isAbsolute_render fun s hs => (h s hs).free]
  · simp
  · exact fun _ hhead => absurd rfl (h [] (List.mem_of_mem_head? hhead)).ne_nil

/-- The names behind a place, put together and joined to its path. -/
theorem join_behind (hm : ∀ s ∈ m, Proper s) (hrest : ∀ s ∈ rest, Proper s) (hne : rest ≠ []) :
    (pathOf m).join ⟨Text.joinWith Path.separator rest⟩ = pathOf (m ++ rest) := by
  unfold Path.join
  rw [if_neg (by simp [isAbsolute_joinWith hrest, pathOf, Path.isEmpty])]
  by_cases hnil : m = []
  · subst hnil
    rfl
  · rw [if_neg (getLast?_pathOf hm hnil)]
    unfold pathOf
    rw [Text.joinWith_append _ hnil hne]
    rfl

end Disk

end ComponentRegistry
