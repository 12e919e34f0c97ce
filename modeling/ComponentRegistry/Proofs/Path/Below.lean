import ComponentRegistry.Proofs.Path.Joining

/-!
# Paths below a path

Segments put behind a path one by one.  The names of the path come before theirs (`names_below`),
and behind a path from the root they are written as they are behind the root itself
(`glyphs_below`), whatever the path is.
-/

namespace ComponentRegistry

namespace Text

theorem eq_of_ofChars {s t : String} (h : ofChars s.toList = ofChars t.toList) : s = t :=
  String.toList_inj.mp (List.map_injective_iff.mpr (fun _ _ => Glyph.char.inj) h)

variable {α : Type} [DecidableEq α] {c : α} {ps : List (List α)}

omit [DecidableEq α] in
theorem cons_joinWith (h : ps ≠ []) : c :: joinWith c ps = ps.flatMap (c :: ·) := by
  induction ps with
  | nil => exact absurd rfl h
  | cons p ps ih =>
    by_cases hps : ps = []
    · subst hps
      simp [joinWith]
    · rw [joinWith_cons c p hps, ih hps]
      rfl

/-- Pieces that a separator stands before each of. -/
theorem splitAt_flatMap (h : ∀ p ∈ ps, c ∉ p) : splitAt c (ps.flatMap (c :: ·)) = [] :: ps := by
  induction ps with
  | nil => rfl
  | cons p ps ih =>
    have hp := h p List.mem_cons_self
    have hps := ih fun q hq => h q (List.mem_cons_of_mem _ hq)
    rw [List.flatMap_cons, List.cons_append, splitAt_cons_self]
    cases ps with
    | nil => simp [splitAt_of_not_mem hp]
    | cons q qs =>
      rw [List.flatMap_cons, List.cons_append] at hps ⊢
      rw [splitAt_append, splitAt_of_not_mem hp]
      rw [splitAt_cons_self] at hps
      rw [List.tail_eq_of_cons_eq hps]
      rfl

end Text

namespace Path

variable {p q : Path} {s : String} {segments : List String}

/-- The path of the root. -/
def top : Path := ⟨[separator]⟩

/-- The path of segments below another path. -/
def below (p : Path) (segments : List String) : Path := segments.foldl (· / ·) p

/-- The path without a slash at its end. -/
def trunk (p : Path) : List Text.Glyph :=
  if p.glyphs.getLast? = some separator then p.glyphs.dropLast else p.glyphs

/-- A text that can stand between two slashes. -/
def IsSegment (s : String) : Prop := separator ∉ Text.ofChars s.toList

instance (s : String) : Decidable (IsSegment s) := inferInstanceAs (Decidable (_ ∉ _))

theorem below_cons (p : Path) (s : String) (rest : List String) :
    p.below (s :: rest) = (p / s).below rest := rfl

theorem below_append (p : Path) (front back : List String) :
    p.below (front ++ back) = (p.below front).below back := List.foldl_append ..

theorem isAbsolute_of_isSegment (h : IsSegment s) : (ofString s).isAbsolute = false := by
  rw [← Bool.not_eq_true, isAbsolute_iff_head?]
  exact fun hhead => h (List.mem_of_mem_head? hhead)

/-! ## Names -/

theorem names_ofString (h : IsSegment s) :
    (ofString s).names = [Text.ofChars s.toList].filter isStep := by
  unfold names segments
  rw [show Text.splitAt separator (ofString s).glyphs = [Text.ofChars s.toList] from
    Text.splitAt_of_not_mem h]

theorem names_below (p : Path) (h : ∀ s ∈ segments, IsSegment s) :
    (p.below segments).names =
      p.names ++ (segments.map fun s => Text.ofChars s.toList).filter isStep := by
  induction segments generalizing p with
  | nil => simp [below]
  | cons s rest ih =>
    have hs := h s List.mem_cons_self
    have hjoin : (p / s).names = p.names ++ (ofString s).names :=
      names_join (isAbsolute_of_isSegment hs)
    show ((p / s).below rest).names = _
    rw [ih _ fun t ht => h t (List.mem_cons_of_mem _ ht), hjoin, names_ofString hs,
      List.append_assoc, ← List.filter_append]
    rfl

theorem isAbsolute_below (hp : p.isAbsolute = true) (segments : List String) :
    (p.below segments).isAbsolute = true := by
  induction segments generalizing p with
  | nil => exact hp
  | cons s rest ih => exact ih (isAbsolute_join_base _ hp)

theorem isAbsolute_top_below (segments : List String) : (top.below segments).isAbsolute = true :=
  isAbsolute_below (by decide) segments

/-- Segments that lead down to a name at their end. -/
structure LeadsDown (segments : List String) : Prop where
  isSegment : ∀ s ∈ segments, IsSegment s
  notUp : ∀ s ∈ segments, Text.ofChars s.toList ≠ dotDot
  last : ∃ s, segments.getLast? = some s ∧ isStep (Text.ofChars s.toList) = true

theorem LeadsDown.ne_nil (h : LeadsDown segments) : segments ≠ [] := by
  rintro rfl
  obtain ⟨s, hs, -⟩ := h.last
  cases hs

/-- A path ends in a name that stands at its end. -/
theorem LeadsDown.endsInName (h : LeadsDown segments) (p : Path) :
    (p.below segments).EndsInName := by
  obtain ⟨s, hlast, hs⟩ := h.last
  obtain ⟨front, rfl⟩ := List.getLast?_eq_some_iff.mp hlast
  rw [below_append]
  exact (of_oneName (p := ofString s) hs (h.isSegment s (by simp))).2.2.join _

/-! ## Texts -/

theorem glyphs_join (hp : p.isEmpty = false) (hq : q.isAbsolute = false) :
    (p.join q).glyphs = p.trunk ++ separator :: q.glyphs := by
  unfold join trunk
  rw [if_neg (by simp [hp, hq])]
  split_ifs with hlast
  · obtain ⟨front, hfront⟩ := List.getLast?_eq_some_iff.mp hlast
    simp [hfront]
  · rfl

theorem isEmpty_join (hp : p.isEmpty = false) (hq : q.isAbsolute = false) :
    (p.join q).isEmpty = false := by
  simp [isEmpty, glyphs_join hp hq]

theorem trunk_of_append (xs : List Text.Glyph) (hq : q.isEmpty = false) :
    (Path.mk (xs ++ q.glyphs)).trunk = xs ++ q.trunk := by
  have hne : q.glyphs ≠ [] := by simpa [isEmpty] using hq
  unfold trunk
  rw [List.getLast?_append_of_ne_nil xs hne]
  split_ifs
  · exact List.dropLast_append_of_ne_nil hne
  · rfl

/-- What is put behind a text only depends on how it ends. -/
theorem below_of_append (xs : List Text.Glyph) (hq : q.isEmpty = false)
    (h : ∀ s ∈ segments, (ofString s).isAbsolute = false) :
    (Path.mk (xs ++ q.glyphs)).below segments = ⟨xs ++ (q.below segments).glyphs⟩ := by
  induction segments generalizing q with
  | nil => rfl
  | cons s rest ih =>
    have hs := h s List.mem_cons_self
    have hempty : (Path.mk (xs ++ q.glyphs)).isEmpty = false := by
      have hne : q.glyphs ≠ [] := by simpa [isEmpty] using hq
      simp [isEmpty, hne]
    have hone : (Path.mk (xs ++ q.glyphs)) / s = ⟨xs ++ (q / s).glyphs⟩ := by
      show (Path.mk (xs ++ q.glyphs)).join (ofString s) = ⟨xs ++ (q.join (ofString s)).glyphs⟩
      rw [glyphs_join hq hs, ← List.append_assoc, ← trunk_of_append xs hq, ← glyphs_join hempty hs]
    show ((Path.mk (xs ++ q.glyphs)) / s).below rest = _
    rw [hone]
    exact ih (isEmpty_join hq hs) fun t ht => h t (List.mem_cons_of_mem _ ht)

/-- **Below a path, segments are written as below the root.** -/
theorem glyphs_below (hp : p.isEmpty = false)
    (h : ∀ s ∈ segments, (ofString s).isAbsolute = false) (hne : segments ≠ []) :
    (p.below segments).glyphs = p.trunk ++ (top.below segments).glyphs := by
  obtain ⟨s, rest, rfl⟩ := List.exists_cons_of_ne_nil hne
  have hs := h s List.mem_cons_self
  have htop : (top / s).glyphs = separator :: (ofString s).glyphs := glyphs_join rfl hs
  have hone : p / s = ⟨p.trunk ++ (top / s).glyphs⟩ := by
    show p.join (ofString s) = _
    rw [htop, ← glyphs_join hp hs]
  show ((p / s).below rest).glyphs = _
  rw [hone, below_of_append (q := top / s) _ (isEmpty_join rfl hs) fun t ht =>
    h t (List.mem_cons_of_mem _ ht)]
  rfl

/-- Texts behind a path of characters give one. -/
theorem exists_chars_below (segments : List String) {cs : List Char}
    (hp : p.glyphs = Text.ofChars cs) : ∃ cs', (p.below segments).glyphs = Text.ofChars cs' := by
  induction segments generalizing p cs with
  | nil => exact ⟨cs, hp⟩
  | cons s rest ih =>
    have hjoin : p / s = p.join (ofString s) := rfl
    have hone : ∃ cs', (p / s).glyphs = Text.ofChars cs' := by
      rw [hjoin, join]
      split_ifs
      · exact ⟨s.toList, rfl⟩
      · exact ⟨cs ++ s.toList, by simp [hp, ofString, Text.ofChars]⟩
      · exact ⟨cs ++ '/' :: s.toList, by simp [hp, ofString, Text.ofChars, separator]⟩
    obtain ⟨cs', hcs'⟩ := hone
    exact ih hcs'

/-- Behind the root texts give a text from the root. -/
theorem glyphs_below_top (segments : List String) :
    ∃ rest, (top.below segments).glyphs = Text.ofChars ('/' :: rest) := by
  have htop : top.glyphs = Text.ofChars ['/'] := rfl
  obtain ⟨cs, hcs⟩ := exists_chars_below segments htop
  have hhead := isAbsolute_iff_head?.mp (isAbsolute_top_below segments)
  rw [hcs] at hhead ⊢
  cases cs with
  | nil => cases hhead
  | cons c rest =>
    obtain rfl := Text.Glyph.char.inj (Option.some.inj hhead)
    exact ⟨rest, rfl⟩

/-! ## Spellings -/

theorem trunk_isPrefix (p : Path) : p.trunk <+: p.glyphs := by
  unfold trunk
  split_ifs
  · exact List.dropLast_prefix _
  · exact List.prefix_refl _

theorem exists_chars_trunk {cs : List Char} (hcs : p.glyphs = Text.ofChars cs) :
    ∃ front, p.trunk = Text.ofChars front := by
  have hprefix := trunk_isPrefix p
  rw [hcs, Text.ofChars, List.prefix_map_iff] at hprefix
  obtain ⟨front, -, hfront⟩ := hprefix
  exact ⟨front, hfront⟩

/-- An absolute path is spelled with segments, a slash before each; one more may stand at its
end. -/
structure Spelled (p : Path) (segments : List String) : Prop where
  isAbsolute : p.isAbsolute = true
  isSegment : ∀ s ∈ segments, IsSegment s
  trunk : p.trunk = segments.flatMap fun s => separator :: Text.ofChars s.toList

theorem Spelled.names (h : p.Spelled segments) :
    p.names = (segments.map fun s => Text.ofChars s.toList).filter isStep := by
  have hsplit : Text.splitAt separator p.trunk =
      [] :: segments.map fun s => Text.ofChars s.toList := by
    have hflat :
        p.trunk = (segments.map fun s => Text.ofChars s.toList).flatMap (separator :: ·) := by
      rw [h.trunk, List.flatMap_map]
    rw [hflat, Text.splitAt_flatMap (List.forall_mem_map.mpr h.isSegment)]
  unfold Path.names Path.segments
  by_cases hlast : p.glyphs.getLast? = some separator
  · obtain ⟨front, hfront⟩ := List.getLast?_eq_some_iff.mp hlast
    have htrunk : p.trunk = front := by simp [Path.trunk, hfront]
    rw [hfront, Text.splitAt_append, ← htrunk, hsplit]
    simp [Text.splitAt, isStep_nil]
  · have htrunk : p.trunk = p.glyphs := if_neg hlast
    rw [← htrunk, hsplit, List.filter_cons_of_neg (by simp [isStep_nil])]

/-- Put behind the root, the segments say what the path says. -/
theorem Spelled.sameWay (h : p.Spelled segments) : SameWay p (top.below segments) := by
  refine ⟨?_, ?_⟩
  · rw [h.isAbsolute, isAbsolute_top_below]
  · rw [names_below _ h.isSegment, h.names]
    rfl

theorem sublist_below (p : Path) (hp : p.isEmpty = false)
    (h : ∀ s ∈ segments, IsSegment s) (hne : segments ≠ []) :
    (p.below segments).glyphs.Sublist
      (p.trunk ++ segments.flatMap fun s => separator :: Text.ofChars s.toList) := by
  induction segments generalizing p with
  | nil => exact absurd rfl hne
  | cons s rest ih =>
    have hs := isAbsolute_of_isSegment (h s List.mem_cons_self)
    have hjoin : (p / s).glyphs = p.trunk ++ separator :: Text.ofChars s.toList := glyphs_join hp hs
    rw [below_cons, List.flatMap_cons, ← List.append_assoc, ← hjoin]
    by_cases hrest : rest = []
    · subst hrest
      simp [below]
    · have htail : ∀ t ∈ rest, IsSegment t := fun t ht => h t (List.mem_cons_of_mem _ ht)
      refine (ih (p / s) (isEmpty_join hp hs) htail hrest).trans ?_
      exact (trunk_isPrefix _).sublist.append (List.Sublist.refl _)

/-- Behind the root, the segments are written with no more than in the path. -/
theorem Spelled.sublist (h : p.Spelled segments) :
    (top.below segments).glyphs.Sublist p.glyphs := by
  by_cases hne : segments = []
  · subst hne
    refine List.singleton_sublist.mpr (List.mem_of_mem_head? ?_)
    exact isAbsolute_iff_head?.mp h.isAbsolute
  · refine (sublist_below top rfl h.isSegment hne).trans ?_
    have htop : top.trunk = [] := rfl
    rw [htop, List.nil_append, ← h.trunk]
    exact (trunk_isPrefix p).sublist

theorem Spelled.trunk_sublist (h : p.Spelled segments) :
    (top.below segments).trunk.Sublist p.trunk := by
  by_cases hne : segments = []
  · subst hne
    exact List.nil_sublist _
  · refine (trunk_isPrefix _).sublist.trans ?_
    have htop : top.trunk = [] := rfl
    have hsub := sublist_below top rfl h.isSegment hne
    rwa [htop, List.nil_append, ← h.trunk] at hsub

/-- An absolute path of characters is spelled with the pieces of its text. -/
theorem exists_spelled {cs : List Char} (hp : p.isAbsolute = true)
    (hcs : p.glyphs = Text.ofChars cs) : ∃ segments, p.Spelled segments := by
  obtain ⟨front, hfront⟩ := exists_chars_trunk hcs
  cases front with
  | nil => exact ⟨[], hp, by simp, hfront⟩
  | cons c rest =>
    have hhead : p.glyphs.head? = some (.char c) := by
      obtain ⟨more, hmore⟩ := trunk_isPrefix p
      rw [← hmore, hfront]
      rfl
    rw [isAbsolute_iff_head?.mp hp] at hhead
    obtain rfl : '/' = c := Text.Glyph.char.inj (Option.some.inj hhead)
    refine ⟨(Text.splitAt '/' rest).map String.ofList, hp, ?_, ?_⟩
    · refine List.forall_mem_map.mpr fun piece hpiece => ?_
      have hfree := Text.not_mem_piece hpiece
      simpa [IsSegment, separator, Text.ofChars] using hfree
    · have hpieces := Text.cons_joinWith (c := '/') (Text.splitAt_ne_nil '/' rest)
      rw [Text.joinWith_splitAt] at hpieces
      rw [hfront, hpieces, Text.ofChars, List.map_flatMap, List.flatMap_map]
      simp [separator, Text.ofChars]

end Path

end ComponentRegistry
