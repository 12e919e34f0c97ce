import ComponentRegistry.Path.Relative
import Mathlib.Data.List.Basic
import Mathlib.Data.List.Induction

/-!
# Joined and relative paths

What a path says is whether it begins at the root, and which names follow (`Path.names`); an empty
segment and a `.` say nothing.  Joining paths joins their names (`names_join`).  A path that is
expressed from another one says, joined to it, the same as before, or it first goes up again where
the two differ (`sameWay_join_relative`, `names_relative`).
-/

namespace ComponentRegistry.Text

/-! ## Pieces -/

section Pieces

variable {α : Type} [DecidableEq α] {c x : α} {xs ys p : List α} {ps qs : List (List α)}

theorem splitAt_cons_self (c : α) (xs : List α) : splitAt c (c :: xs) = [] :: splitAt c xs := by
  simp [splitAt]

/-- A character that separates nothing goes to the first piece. -/
theorem splitAt_cons_other (h : x ≠ c) (hs : splitAt c xs = p :: ps) :
    splitAt c (x :: xs) = (x :: p) :: ps := by
  simp [splitAt, h, hs]

theorem exists_splitAt (c : α) (xs : List α) : ∃ p ps, splitAt c xs = p :: ps :=
  List.exists_cons_of_ne_nil (splitAt_ne_nil c xs)

/-- At a separator that stands between two texts the pieces of the one end and those of the other
begin. -/
theorem splitAt_append (c : α) (xs ys : List α) :
    splitAt c (xs ++ c :: ys) = splitAt c xs ++ splitAt c ys := by
  induction xs with
  | nil => exact splitAt_cons_self c ys
  | cons x xs ih =>
    by_cases hx : x = c
    · rw [hx, List.cons_append, splitAt_cons_self, splitAt_cons_self, ih]
      rfl
    · obtain ⟨p, ps, hs⟩ := exists_splitAt c xs
      rw [hs] at ih
      rw [List.cons_append, splitAt_cons_other hx ih, splitAt_cons_other hx hs]
      rfl

theorem splitAt_of_not_mem (h : c ∉ xs) : splitAt c xs = [xs] := by
  induction xs with
  | nil => rfl
  | cons x xs ih =>
    obtain ⟨hx, hxs⟩ := not_or.mp (mt List.mem_cons.mpr h)
    exact splitAt_cons_other (Ne.symm hx) (ih hxs)

/-- No piece has a separator in it. -/
theorem not_mem_piece (h : p ∈ splitAt c xs) : c ∉ p := by
  induction xs generalizing p with
  | nil =>
    rw [List.mem_singleton.mp h]
    exact List.not_mem_nil
  | cons x xs ih =>
    by_cases hx : x = c
    · rw [hx, splitAt_cons_self] at h
      rcases List.mem_cons.mp h with rfl | h
      · exact List.not_mem_nil
      · exact ih h
    · obtain ⟨q, qs, hs⟩ := exists_splitAt c xs
      rw [hs] at ih
      rw [splitAt_cons_other hx hs] at h
      rcases List.mem_cons.mp h with rfl | h
      · rw [List.mem_cons, not_or]
        exact ⟨Ne.symm hx, ih (List.mem_cons_self ..)⟩
      · exact ih (List.mem_cons_of_mem q h)

omit [DecidableEq α] in
theorem joinWith_cons (c : α) (p : List α) (h : ps ≠ []) :
    joinWith c (p :: ps) = p ++ c :: joinWith c ps := by
  cases ps with
  | nil => exact absurd rfl h
  | cons q qs => rfl

omit [DecidableEq α] in
theorem joinWith_append (c : α) (hp : ps ≠ []) (hq : qs ≠ []) :
    joinWith c (ps ++ qs) = joinWith c ps ++ c :: joinWith c qs := by
  induction ps with
  | nil => exact absurd rfl hp
  | cons p ps ih =>
    by_cases hps : ps = []
    · subst hps
      exact joinWith_cons c p hq
    · rw [List.cons_append, joinWith_cons c p (by simp [hps]), joinWith_cons c p hps, ih hps,
        List.append_assoc, List.cons_append]

/-- Pieces without separators that are put together are the pieces of the text. -/
theorem splitAt_joinWith (hne : ps ≠ []) (h : ∀ p ∈ ps, c ∉ p) : splitAt c (joinWith c ps) = ps := by
  induction ps with
  | nil => exact absurd rfl hne
  | cons p ps ih =>
    have hp : splitAt c p = [p] := splitAt_of_not_mem (h p (List.mem_cons_self ..))
    by_cases hps : ps = []
    · subst hps
      exact hp
    · rw [joinWith_cons c p hps, splitAt_append, hp,
        ih hps fun q hq => h q (List.mem_cons_of_mem p hq)]
      rfl

/-- What follows the last separator goes on with what is written behind it. -/
theorem getLast?_splitAt_append (c : α) (xs ys : List α) (h : c ∉ ys) :
    ∃ last, (splitAt c (xs ++ ys)).getLast? = some (last ++ ys) := by
  induction xs with
  | nil => exact ⟨[], by rw [List.nil_append, splitAt_of_not_mem h]; rfl⟩
  | cons x xs ih =>
    obtain ⟨last, hlast⟩ := ih
    obtain ⟨p, ps, hs⟩ := exists_splitAt c (xs ++ ys)
    rw [hs] at hlast
    by_cases hx : x = c
    · refine ⟨last, ?_⟩
      rw [hx, List.cons_append, splitAt_cons_self, hs, List.getLast?_cons_cons]
      exact hlast
    · rw [List.cons_append, splitAt_cons_other hx hs]
      cases ps with
      | nil =>
        cases hlast
        exact ⟨x :: last, rfl⟩
      | cons q qs => exact ⟨last, by rw [List.getLast?_cons_cons] at hlast ⊢; exact hlast⟩

end Pieces

/-! ## Names that are text -/

theorem text?_eq_some_iff {gs : List Glyph} {s : String} :
    text? gs = some s ↔ gs = ofChars s.toList := by
  have hall : ∀ cs : List Char, gs.mapM Glyph.char? = some cs ↔ gs = ofChars cs := by
    induction gs with
    | nil => intro cs; cases cs <;> simp [ofChars]
    | cons g gs ih =>
      intro cs
      rw [List.mapM_cons]
      cases g with
      | bytes run => cases cs <;> simp [ofChars, Glyph.char?]
      | char c =>
        simp only [Glyph.char?, bind, Option.bind_some, Option.bind_eq_some_iff, ih, pure,
          Option.some_inj]
        constructor
        · rintro ⟨more, rfl, rfl⟩
          rfl
        · intro h
          cases cs with
          | nil => cases h
          | cons x cs =>
            obtain ⟨hc, hgs⟩ := List.cons.inj h
            cases hc
            exact ⟨cs, hgs, rfl⟩
  unfold text?
  rw [Option.map_eq_some_iff]
  constructor
  · rintro ⟨cs, hcs, rfl⟩
    rw [(hall cs).mp hcs, String.toList_ofList]
  · intro h
    exact ⟨s.toList, (hall _).mpr h, String.ofList_toList⟩

/-- A name that is text is what is shown of it. -/
theorem ofChars_shown {gs : List Glyph} (h : (text? gs).isSome) : ofChars (shown gs).toList = gs := by
  obtain ⟨s, hs⟩ := Option.isSome_iff_exists.mp h
  rw [text?_eq_some_iff.mp hs, shown_ofChars, String.toList_ofList]

theorem intercalate_eq_joinWith {α : Type} (c : α) (ps : List (List α)) :
    [c].intercalate ps = joinWith c ps := by
  induction ps with
  | nil => rfl
  | cons p ps ih =>
    cases ps with
    | nil => simp [List.intercalate, joinWith]
    | cons q qs =>
      rw [List.intercalate_cons_cons, ih, joinWith_cons c p (by simp), List.append_assoc]
      rfl

theorem map_joinWith {α β : Type} (f : α → β) (c : α) (ps : List (List α)) :
    (joinWith c ps).map f = joinWith (f c) (ps.map (List.map f)) := by
  induction ps with
  | nil => rfl
  | cons p ps ih =>
    by_cases hps : ps = []
    · subst hps
      rfl
    · rw [joinWith_cons c p hps, List.map_cons, joinWith_cons (f c) _ (by simpa using hps),
        List.map_append, List.map_cons, ih]

end ComponentRegistry.Text

namespace ComponentRegistry.Path

/-! ## Names -/

/-- What stands between the slashes of a path. -/
def segments (p : Path) : List Name := Text.splitAt separator p.glyphs

/-- The names and the `..` of a path. -/
def names (p : Path) : List Name := p.segments.filter isStep

section Names

variable {p q base : Path} {s : Name}

theorem segments_ne_nil (p : Path) : p.segments ≠ [] :=
  Text.splitAt_ne_nil _ _

theorem names_empty : empty.names = [] := rfl

theorem isStep_of_mem_names (h : s ∈ p.names) : isStep s = true := (List.mem_filter.mp h).2

theorem separator_not_mem_name (h : s ∈ p.names) : separator ∉ s :=
  Text.not_mem_piece (List.mem_filter.mp h).1

theorem isStep_nil : isStep [] = false := rfl

theorem isStep_dot : isStep dot = false := by decide

/-- A path begins at the root if its first segment is empty and is not the only one. -/
theorem isAbsolute_iff : p.isAbsolute = true ↔ ∃ t rest, p.segments = [] :: t :: rest := by
  unfold isAbsolute parts segments
  rcases Text.splitAt separator p.glyphs with - | ⟨s, - | ⟨t, rest⟩⟩
  · simp
  · by_cases hdot : s = dot <;> simp [hdot]
  · by_cases hs : s = []
    · simp [hs]
    · by_cases hdot : s = dot
      · simp [hdot, show dot ≠ [] by decide]
      · simp [hs, hdot]

/-- A path begins at the root if it begins with a slash. -/
theorem isAbsolute_iff_head? : p.isAbsolute = true ↔ p.glyphs.head? = some separator := by
  rw [isAbsolute_iff]
  unfold segments
  cases p.glyphs with
  | nil => simp [Text.splitAt]
  | cons x xs =>
    obtain ⟨t, rest, hs⟩ := Text.exists_splitAt separator xs
    by_cases hx : x = separator
    · rw [hx, Text.splitAt_cons_self, hs]
      simp
    · rw [Text.splitAt_cons_other hx hs]
      simp [hx]

theorem filter_parts (p : Path) : p.parts.2.filter isStep = p.names := by
  unfold names parts segments
  rcases Text.splitAt separator p.glyphs with - | ⟨s, - | ⟨t, rest⟩⟩
  · rfl
  · by_cases hdot : s = dot
    · simp [hdot, isStep_dot]
    · simp [hdot]
  · by_cases hs : s = []
    · simp [hs, isStep_nil]
    · by_cases hdot : s = dot
      · simp [hdot, isStep_dot, show dot ≠ [] by decide]
      · simp [hs, hdot]

/-- Of the segments of a path its start is at most the first. -/
theorem parts_suffix (p : Path) : p.parts.2 <:+ p.segments := by
  unfold parts segments
  rcases Text.splitAt separator p.glyphs with - | ⟨s, - | ⟨t, rest⟩⟩
  · exact List.suffix_refl _
  · by_cases hdot : s = dot
    · simp [hdot]
    · simp [hdot]
  · by_cases hs : s = []
    · simp [hs, List.suffix_cons]
    · by_cases hdot : s = dot
      · simp [hdot, show dot ≠ [] by decide, List.suffix_cons]
      · simp [hs, hdot]

theorem mem_of_mem_trimEnd {segs : List Name} (h : s ∈ trimEnd segs) : s ∈ segs := by
  unfold trimEnd at h
  exact List.mem_reverse.mp ((List.dropWhile_suffix _).mem (List.mem_reverse.mp h))

theorem separator_not_mem_fileName (h : p.fileName? = some s) : separator ∉ s := by
  unfold fileName? at h
  split at h
  · next last hlast =>
    split_ifs at h
    cases h
    exact Text.not_mem_piece ((parts_suffix p).mem (mem_of_mem_trimEnd (List.mem_of_getLast? hlast)))
  · cases h

/-- The name of a file is shown without slashes. -/
theorem slash_not_mem_fileNameShown (p : Path) : '/' ∉ p.fileNameShown.toList := by
  unfold fileNameShown
  cases hname : p.fileName? with
  | none => simp
  | some s =>
    simp only [Option.map_some, Option.getD_some, Text.shown, String.toList_ofList, List.mem_map,
      not_exists, not_and]
    intro g hg heq
    cases g with
    | bytes b => exact absurd heq (by simp [Text.Glyph.char?])
    | char c =>
      cases heq
      exact separator_not_mem_fileName hname hg

/-- The components of a path are its start and its names. -/
theorem components_eq (p : Path) :
    p.components = p.parts.1.components ++ p.names.map Component.ofName := by
  rw [← filter_parts]
  rfl

theorem components_of_isAbsolute (h : p.isAbsolute = true) :
    p.components = .root :: p.names.map Component.ofName := by
  rw [components_eq, show p.parts.1 = .root by simpa [isAbsolute] using h]
  rfl

theorem ofName_injective : Function.Injective Component.ofName := by
  intro s t h
  unfold Component.ofName at h
  split_ifs at h with hs ht
  · exact hs.trans ht.symm
  · exact Component.normal.inj h

end Names

/-! ## Joining -/

/-- Two paths that say the same: the same names, from the same start. -/
structure SameWay (p q : Path) : Prop where
  isAbsolute : q.isAbsolute = p.isAbsolute
  names : q.names = p.names

section Joining

variable {p q base : Path} {s : Name}

theorem join_of_isAbsolute (base : Path) (h : p.isAbsolute = true) : base.join p = p := by
  unfold join
  rw [if_pos (by simp [h])]

theorem join_of_isEmpty (p : Path) (h : base.isEmpty = true) : base.join p = p := by
  unfold join
  rw [if_pos (by simp [h])]

/-- A relative path is written behind the base, with one slash between them. -/
theorem segments_join (hp : p.isAbsolute = false) (hbase : base.isEmpty = false) :
    ∃ start, base.segments.filter isStep = start.filter isStep ∧
      (base.join p).segments = start ++ p.segments := by
  unfold join segments
  rw [if_neg (by simp [hp, hbase])]
  by_cases hlast : base.glyphs.getLast? = some separator
  · obtain ⟨front, hfront⟩ := List.getLast?_eq_some_iff.mp hlast
    refine ⟨Text.splitAt separator front, ?_, ?_⟩
    · rw [hfront, Text.splitAt_append, List.filter_append]
      simp [Text.splitAt, isStep_nil]
    · rw [if_pos hlast, hfront, List.append_assoc]
      exact Text.splitAt_append ..
  · exact ⟨_, rfl, by rw [if_neg hlast]; exact Text.splitAt_append ..⟩

theorem names_join (hp : p.isAbsolute = false) : (base.join p).names = base.names ++ p.names := by
  by_cases hbase : base.isEmpty = true
  · rw [join_of_isEmpty p hbase]
    have hnil : base.glyphs = [] := by simpa [isEmpty] using hbase
    simp [names, segments, hnil, Text.splitAt, isStep_nil]
  · obtain ⟨start, hstart, hsegments⟩ := segments_join hp (by simpa using hbase)
    unfold names
    rw [hsegments, hstart, List.filter_append]

theorem isAbsolute_join (hp : p.isAbsolute = false) : (base.join p).isAbsolute = base.isAbsolute := by
  rw [Bool.eq_iff_iff]
  by_cases hbase : base.isEmpty = true
  · rw [join_of_isEmpty p hbase, hp, isAbsolute_iff_head?]
    have hnil : base.glyphs = [] := by simpa [isEmpty] using hbase
    simp [hnil]
  · rw [isAbsolute_iff_head?, isAbsolute_iff_head?]
    have hne : base.glyphs ≠ [] := by simpa [isEmpty] using hbase
    unfold join
    rw [if_neg (by simp [hp, hbase])]
    split_ifs
    · rw [List.head?_append_of_ne_nil _ hne]
    · rw [List.head?_append_of_ne_nil _ hne]

/-- The last segment of a joined path is that of the second one. -/
theorem getLast?_segments_join (base p : Path) :
    (base.join p).segments.getLast? = p.segments.getLast? := by
  by_cases hp : p.isAbsolute = true
  · rw [join_of_isAbsolute base hp]
  · by_cases hbase : base.isEmpty = true
    · rw [join_of_isEmpty p hbase]
    · obtain ⟨start, -, hsegments⟩ := segments_join (by simpa using hp) (by simpa using hbase)
      rw [hsegments, List.getLast?_append_of_ne_nil _ (segments_ne_nil p)]

theorem isAbsolute_join_base (p : Path) (h : base.isAbsolute = true) :
    (base.join p).isAbsolute = true := by
  by_cases hp : p.isAbsolute = true
  · rw [join_of_isAbsolute base hp]
    exact hp
  · rw [isAbsolute_join (by simpa using hp)]
    exact h

/-- The paths above a path from the root are paths from the root. -/
theorem isAbsolute_of_mem_parents (hp : p.isAbsolute = true) (h : q ∈ p.parents) :
    q.isAbsolute = true := by
  have hroot : p.parts.1 = .root := by simpa [isAbsolute] using hp
  unfold parents at h
  rw [hroot] at h
  generalize p.parts.2.reverse = segs at h
  induction segs with
  | nil => simp [parentsOf] at h
  | cons s rest ih =>
    rw [parentsOf] at h
    split_ifs at h
    · rcases List.mem_cons.mp h with rfl | h
      · exact isAbsolute_iff_head?.mpr rfl
      · exact ih h
    · exact ih h

/-- Joining a path to a joined path is joining it to the second and both to the first. -/
theorem join_join (root : Path) (hp : p.isAbsolute = false) :
    (root.join (base.join p)).isAbsolute = (root.join base).isAbsolute ∧
      (root.join (base.join p)).names = (root.join base).names ++ p.names := by
  by_cases hbase : base.isAbsolute = true
  · rw [join_of_isAbsolute root hbase, join_of_isAbsolute root (isAbsolute_join_base p hbase)]
    exact ⟨isAbsolute_join hp, names_join hp⟩
  · have hbase' : base.isAbsolute = false := by simpa using hbase
    have hjoined : (base.join p).isAbsolute = false := (isAbsolute_join hp).trans hbase'
    rw [isAbsolute_join hjoined, isAbsolute_join hbase', names_join hjoined, names_join hbase',
      names_join hp, List.append_assoc]
    exact ⟨rfl, rfl⟩

theorem SameWay.join (h : SameWay p q) (base : Path) : SameWay (base.join p) (base.join q) := by
  by_cases hp : p.isAbsolute = true
  · rw [join_of_isAbsolute base hp, join_of_isAbsolute base (h.isAbsolute.trans hp)]
    exact h
  · have hp' : p.isAbsolute = false := by simpa using hp
    have hq' : q.isAbsolute = false := h.isAbsolute.trans hp'
    exact ⟨by rw [isAbsolute_join hp', isAbsolute_join hq'],
      by rw [names_join hp', names_join hq', h.names]⟩

end Joining

/-! ## Relative paths -/

section Relative

variable {p q base : Path} {s : Name} {a : Anchor} {segs : List Name} {n : Nat}

theorem filter_dropWhile_not (segs : List Name) :
    (segs.dropWhile fun s => !isStep s).filter isStep = segs.filter isStep := by
  induction segs with
  | nil => rfl
  | cons s segs ih =>
    cases hs : isStep s with
    | true => simp [hs]
    | false => simp [hs, ih]

theorem filter_trimStart (segs : List Name) : (trimStart segs).filter isStep = segs.filter isStep :=
  filter_dropWhile_not segs

theorem filter_trimEnd (segs : List Name) : (trimEnd segs).filter isStep = segs.filter isStep := by
  unfold trimEnd
  rw [List.filter_reverse, filter_dropWhile_not, List.filter_reverse, List.reverse_reverse]

theorem filter_dropSteps (n : Nat) (segs : List Name) :
    (dropSteps n segs).filter isStep = (segs.filter isStep).drop n := by
  induction segs generalizing n with
  | nil => cases n <;> simp [dropSteps]
  | cons s segs ih =>
    cases n with
    | zero => rfl
    | succ n =>
      cases hs : isStep s with
      | true => simp [dropSteps, hs, ih]
      | false => simp [dropSteps, hs, ih]

theorem dropSteps_suffix (n : Nat) (segs : List Name) : dropSteps n segs <:+ segs := by
  induction segs generalizing n with
  | nil => cases n <;> simp [dropSteps]
  | cons s segs ih =>
    cases n with
    | zero => exact List.suffix_refl _
    | succ n =>
      unfold dropSteps
      split_ifs
      · exact (ih n).trans (List.suffix_cons ..)
      · exact (ih (n + 1)).trans (List.suffix_cons ..)

/-- What is left after the first components begins with a component. -/
theorem isStep_of_head?_trimStart (h : (trimStart segs).head? = some s) : isStep s = true := by
  have := List.head?_dropWhile_not (fun s => !isStep s) segs
  unfold trimStart at h
  rw [h] at this
  simpa using this

theorem isStep_of_getLast?_trimEnd (segs : List Name) (h : (trimEnd segs).getLast? = some s) :
    isStep s = true := by
  unfold trimEnd at h
  rw [List.getLast?_reverse] at h
  have := List.head?_dropWhile_not (fun s => !isStep s) segs.reverse
  rw [h] at this
  simpa using this

/-- A path that is written with segments has their names. -/
theorem names_render (a : Anchor) (h : ∀ s ∈ segs, separator ∉ s) :
    (render a segs).names = segs.filter isStep := by
  by_cases hnil : segs = []
  · subst hnil
    cases a <;> decide
  · have hsplit := Text.splitAt_joinWith hnil h
    cases a with
    | root =>
      show (Text.splitAt separator (separator :: _)).filter isStep = _
      rw [Text.splitAt_cons_self, hsplit]
      simp [isStep_nil]
    | current =>
      have hdot : Text.splitAt separator dot = [dot] := by decide
      have hglyphs : (render .current segs).glyphs =
          dot ++ separator :: Text.joinWith separator segs := by
        simp [render, hnil]
      unfold names segments
      rw [hglyphs, Text.splitAt_append, hdot, hsplit]
      simp [isStep_dot]
    | none =>
      show (Text.splitAt separator (Text.joinWith separator segs)).filter isStep = _
      rw [hsplit]

/-- A path that is written with segments begins at the root if it is to. -/
theorem isAbsolute_render (h : ∀ s ∈ segs, separator ∉ s)
    (hhead : a = .none → segs.head? ≠ some []) :
    (render a segs).isAbsolute = true ↔ a = .root := by
  rw [isAbsolute_iff_head?]
  cases a with
  | root => simp [render]
  | current =>
    have hdot : dot.head? ≠ some separator := by decide
    by_cases hnil : segs = []
    · simp [render, hnil, hdot]
    · have hne : dot ≠ [] := by decide
      simp [render, hnil, List.head?_append_of_ne_nil _ hne, hdot]
  | none =>
    simp only [render, reduceCtorEq, iff_false]
    cases segs with
    | nil => simp [Text.joinWith]
    | cons s rest =>
      have hs : s ≠ [] := by simpa using hhead rfl
      have hfirst : s.head? ≠ some separator := fun hsep =>
        h s (List.mem_cons_self ..) (List.mem_of_mem_head? hsep)
      by_cases hrest : rest = []
      · rw [hrest]
        exact hfirst
      · rw [Text.joinWith_cons _ _ hrest, List.head?_append_of_ne_nil _ hs]
        exact hfirst

/-- The start of a path that has this component first. -/
def startOf : Component → Anchor
  | .root => .root
  | .current => .current
  | .parent | .normal _ => .none

theorem startOf_head {c : Component} (h : p.components.head? = some c) : startOf c = p.parts.1 := by
  rw [components_eq] at h
  cases hp : p.parts.1 with
  | root => rw [hp] at h; cases h; rfl
  | current => rw [hp] at h; cases h; rfl
  | none =>
    rw [hp, Anchor.components, List.nil_append, List.head?_map] at h
    obtain ⟨s, -, rfl⟩ := Option.map_eq_some_iff.mp h
    unfold Component.ofName
    split_ifs <;> rfl

/-- The components of the base begin those of the path: with the same start, and with its names. -/
theorem of_startsWith (h : p.startsWith base = true) (hbase : base.components ≠ []) :
    base.parts.1 = p.parts.1 ∧ ∃ rest, p.names = base.names ++ rest := by
  obtain ⟨tail, htail⟩ := Option.isSome_iff_exists.mp h
  rw [Text.stripStart?_eq_some_iff] at htail
  have hstart : base.parts.1 = p.parts.1 := by
    obtain ⟨c, more, hcomponents⟩ := List.exists_cons_of_ne_nil hbase
    have hhead : base.components.head? = some c := by rw [hcomponents]; rfl
    have hhead' : p.components.head? = some c := by
      rw [htail, List.head?_append_of_ne_nil _ hbase, hhead]
    exact (startOf_head hhead).symm.trans (startOf_head hhead')
  rw [components_eq, components_eq] at htail
  refine ⟨hstart, ?_⟩
  rw [hstart, List.append_assoc] at htail
  have hmap : p.names.map Component.ofName = base.names.map Component.ofName ++ tail :=
    List.append_cancel_left htail
  obtain ⟨first, rest, hnames, hfirst, -⟩ := List.map_eq_append_iff.mp hmap
  exact ⟨rest, by rw [hnames, List.map_injective_iff.mpr ofName_injective hfirst]⟩

/-- The last segment of a path is one of its names. -/
def EndsInName (p : Path) : Prop := ∃ s, p.segments.getLast? = some s ∧ isStep s = true

theorem EndsInName.join (h : p.EndsInName) (base : Path) : (base.join p).EndsInName := by
  obtain ⟨s, hlast, hs⟩ := h
  exact ⟨s, (getLast?_segments_join base p).trans hlast, hs⟩

theorem endsInName_render_none (h : ∀ s ∈ segs, separator ∉ s) (hlast : segs.getLast? = some s)
    (hs : isStep s = true) : (render .none segs).EndsInName := by
  have hne : segs ≠ [] := by
    rintro rfl
    cases hlast
  refine ⟨s, ?_, hs⟩
  rw [← hlast]
  exact congrArg List.getLast? (Text.splitAt_joinWith hne h)

/-- The segments of a path behind its first names, from a name to a name. -/
def segmentsBehind (p : Path) (n : Nat) : List Name := trimStart (dropSteps n (trimEnd p.parts.2))

theorem segmentsBehind_suffix (p : Path) (n : Nat) : p.segmentsBehind n <:+ trimEnd p.parts.2 :=
  (List.dropWhile_suffix _).trans (dropSteps_suffix ..)

theorem separator_not_mem_behind {n : Nat} (h : s ∈ p.segmentsBehind n) : separator ∉ s :=
  Text.not_mem_piece
    (p.parts_suffix.mem (mem_of_mem_trimEnd ((segmentsBehind_suffix p n).mem h)))

theorem isStep_of_getLast?_behind {n : Nat} (h : (p.segmentsBehind n).getLast? = some s) :
    isStep s = true := by
  refine isStep_of_getLast?_trimEnd p.parts.2 ?_
  obtain ⟨before, hbefore⟩ := segmentsBehind_suffix p n
  rw [← hbefore, List.getLast?_append, h]
  rfl

theorem filter_segmentsBehind (p : Path) (n : Nat) :
    (p.segmentsBehind n).filter isStep = p.names.drop n := by
  rw [segmentsBehind, filter_trimStart, filter_dropSteps, filter_trimEnd, filter_parts]

/-- Of a path that the base begins the segments behind the names of the base are left. -/
theorem relative_of_startsWith (h : p.startsWith base = true) (hbase : base.components ≠ []) :
    p.relative base = render .none (p.segmentsBehind base.names.length) := by
  obtain ⟨hstart, -⟩ := of_startsWith h hbase
  obtain ⟨n, hn⟩ : ∃ n, base.components.length = n + 1 :=
    Nat.exists_eq_succ_of_ne_zero (by simpa using hbase)
  have hcount : (if p.parts.1 = .none then n + 1 else n) = base.names.length := by
    rw [components_eq, hstart] at hn
    cases hp : p.parts.1 <;> simp [hp, Anchor.components] at hn ⊢ <;> omega
  unfold relative stripStart? segmentsBehind
  rw [if_neg (by simp [h]), hn, ← hcount]

/-- What is left of a path behind the base: its names are the names that are left. -/
theorem of_stripStart (h : p.startsWith base = true) (hbase : base.components ≠ []) :
    (p.relative base).isAbsolute = false ∧ p.names = base.names ++ (p.relative base).names ∧
      ((p.relative base).names ≠ [] → (p.relative base).EndsInName) := by
  obtain ⟨-, rest, hnames⟩ := of_startsWith h hbase
  have hfree : ∀ s ∈ p.segmentsBehind base.names.length, separator ∉ s :=
    fun s hs => separator_not_mem_behind hs
  have hleft : (render .none (p.segmentsBehind base.names.length)).names = rest := by
    rw [names_render _ hfree, filter_segmentsBehind, hnames]
    exact List.drop_left
  rw [relative_of_startsWith h hbase]
  refine ⟨?_, by rw [hleft]; exact hnames, fun hne => ?_⟩
  · rw [← Bool.not_eq_true, isAbsolute_render hfree]
    · simp
    · intro _ hhead
      have hempty := isStep_of_head?_trimStart hhead
      rw [isStep_nil] at hempty
      cases hempty
  · rw [names_render _ hfree] at hne
    obtain ⟨s, hs⟩ : ∃ s, (p.segmentsBehind base.names.length).getLast? = some s := by
      rw [← Option.ne_none_iff_exists', Ne, List.getLast?_eq_none_iff]
      intro hnil
      exact hne (by rw [hnil]; rfl)
    exact endsInName_render_none hfree hs (isStep_of_getLast?_behind hs)

/-- **Joined to the base, what is left of a path behind the base says the same as the path.** -/
theorem sameWay_join_relative (h : p.startsWith base = true) (hbase : base.components ≠ []) :
    SameWay p (base.join (p.relative base)) := by
  obtain ⟨hrelative, hnames, -⟩ := of_stripStart h hbase
  obtain ⟨hstart, -⟩ := of_startsWith h hbase
  refine ⟨?_, ?_⟩
  · rw [isAbsolute_join hrelative]
    unfold isAbsolute
    rw [hstart]
  · rw [names_join hrelative, hnames]

/-- A path of no components is empty. -/
theorem components_ne_nil (h : p.isEmpty = false) : p.components ≠ [] := by
  intro hnil
  obtain ⟨hanchor, hnames⟩ := List.append_eq_nil_iff.mp ((components_eq p).symm.trans hnil)
  have hnone : p.parts.1 = .none := by
    cases hp : p.parts.1 <;> simp [hp, Anchor.components] at hanchor ⊢
  have hsteps : ∀ s ∈ p.segments, isStep s = false := by
    simpa [names, List.filter_eq_nil_iff] using hnames
  have hjoin : Text.joinWith separator p.segments = p.glyphs := Text.joinWith_splitAt ..
  unfold parts at hnone
  unfold segments at hsteps hjoin
  rcases hsplit : Text.splitAt separator p.glyphs with - | ⟨s, - | ⟨t, rest⟩⟩
  · exact Text.splitAt_ne_nil _ _ hsplit
  · rw [hsplit] at hsteps hjoin hnone
    have hs := hsteps s (List.mem_cons_self ..)
    have hdot : s ≠ dot := by
      rintro rfl
      simp at hnone
    have hempty : s = [] := by simpa [isStep, hdot] using hs
    rw [hempty] at hjoin
    simp [isEmpty, ← hjoin, Text.joinWith] at h
  · rw [hsplit] at hsteps hnone
    have hs := hsteps s (List.mem_cons_self ..)
    by_cases hempty : s = []
    · simp [hempty] at hnone
    · have hdot : s = dot := by simpa [isStep, hempty] using hs
      simp [hdot, show dot ≠ [] by decide] at hnone

/-! ## Paths through a common start -/

theorem commonLength_append {α : Type} [DecidableEq α] (xs ys : List α) :
    commonLength (xs ++ ys) xs = xs.length := by
  induction xs with
  | nil => cases ys <;> rfl
  | cons x xs ih => simp [commonLength, ih]

theorem commonLength_map {α β : Type} [DecidableEq α] [DecidableEq β] {f : α → β}
    (hf : Function.Injective f) (xs ys : List α) :
    commonLength (xs.map f) (ys.map f) = commonLength xs ys := by
  induction xs generalizing ys with
  | nil => rfl
  | cons x xs ih =>
    cases ys with
    | nil => rfl
    | cons y ys =>
      by_cases hxy : x = y
      · simp [commonLength, hxy, ih]
      · have hne : f x ≠ f y := fun h => hxy (hf h)
        simp [commonLength, hxy, hne]

theorem commonLength_le {α : Type} [DecidableEq α] (xs ys : List α) :
    commonLength xs ys ≤ ys.length := by
  induction xs generalizing ys with
  | nil => simp [commonLength]
  | cons x xs ih =>
    cases ys with
    | nil => simp [commonLength]
    | cons y ys =>
      have := ih ys
      unfold commonLength
      split_ifs <;> simp only [List.length_cons] <;> omega

/-- Two lists have their common start in common. -/
theorem take_commonLength {α : Type} [DecidableEq α] (xs ys : List α) :
    xs.take (commonLength xs ys) = ys.take (commonLength xs ys) := by
  induction xs generalizing ys with
  | nil => simp [commonLength]
  | cons x xs ih =>
    cases ys with
    | nil => simp [commonLength]
    | cons y ys =>
      by_cases hxy : x = y
      · simp [commonLength, hxy, ih]
      · simp [commonLength, hxy]

/-- A path of one name. -/
theorem of_oneName (hs : isStep p.glyphs = true) (hfree : separator ∉ p.glyphs) :
    p.isAbsolute = false ∧ p.names = [p.glyphs] ∧ p.EndsInName := by
  have hsegments : p.segments = [p.glyphs] := Text.splitAt_of_not_mem hfree
  refine ⟨?_, ?_, p.glyphs, ?_, hs⟩
  · rw [← Bool.not_eq_true, isAbsolute_iff, hsegments]
    simp
  · unfold names
    rw [hsegments]
    simp [hs]
  · rw [hsegments]
    rfl

theorem glyphs_ofName (s : Name) : (Component.ofName s).path.glyphs = s := by
  unfold Component.ofName
  split_ifs with h
  · exact h.symm
  · rfl

theorem of_ofName_path (hs : isStep s = true) (hfree : separator ∉ s) :
    (Component.ofName s).path.isAbsolute = false ∧ (Component.ofName s).path.names = [s] ∧
      (Component.ofName s).path.EndsInName := by
  have hname := glyphs_ofName s
  obtain ⟨habs, hnames, hends⟩ := of_oneName (p := (Component.ofName s).path) (by rwa [hname])
    (by rwa [hname])
  exact ⟨habs, by rw [hnames, hname], hends⟩

/-- Joining names one after the other. -/
theorem foldl_join (base : Path) (xs : List Name) (h : ∀ s ∈ xs, isStep s = true ∧ separator ∉ s)
    (hbase : base.isAbsolute = false) :
    ((xs.map fun s => (Component.ofName s).path).foldl join base).isAbsolute = false ∧
      ((xs.map fun s => (Component.ofName s).path).foldl join base).names = base.names ++ xs ∧
      (xs ≠ [] → ((xs.map fun s => (Component.ofName s).path).foldl join base).EndsInName) := by
  induction xs using List.reverseRecOn with
  | nil => simpa using hbase
  | append_singleton xs s ih =>
    obtain ⟨hs, hfree⟩ := h s (by simp)
    obtain ⟨habs, hnames, -⟩ := ih fun t ht => h t (by simp [ht])
    obtain ⟨hname, hone, hends⟩ := of_ofName_path hs hfree
    rw [List.map_append, List.foldl_append]
    simp only [List.map_cons, List.map_nil, List.foldl_cons, List.foldl_nil]
    refine ⟨?_, ?_, fun _ => hends.join _⟩
    · rw [isAbsolute_join hname, habs]
    · rw [names_join hname, hnames, hone, List.append_assoc]

/-- **A path as seen from a base leads up to what the two have in common, and down from there.** -/
theorem of_relative (hp : p.isAbsolute = true) (hbase : base.isAbsolute = true) :
    (p.relative base).isAbsolute = false ∧
      (p.relative base).names =
        List.replicate (base.names.length - commonLength p.names base.names) dotDot ++
          p.names.drop (commonLength p.names base.names) ∧
      ((p.relative base).names ≠ [] → (p.relative base).EndsInName) := by
  have hcp := components_of_isAbsolute hp
  have hcb := components_of_isAbsolute hbase
  by_cases h : p.startsWith base = true
  · obtain ⟨habs, hnames, hends⟩ := of_stripStart h (by simp [hcb])
    refine ⟨habs, ?_, hends⟩
    have hcommon : commonLength p.names base.names = base.names.length := by
      rw [hnames, commonLength_append]
    rw [hcommon, Nat.sub_self, hnames]
    simp
  · have hcommon : commonLength p.components base.components =
        commonLength p.names base.names + 1 := by
      rw [hcp, hcb, commonLength, if_pos rfl, commonLength_map ofName_injective]
    have hrelative : p.relative base =
        ((List.replicate (base.names.length - commonLength p.names base.names) dotDot ++
          p.names.drop (commonLength p.names base.names)).map
            fun s => (Component.ofName s).path).foldl join empty := by
      have hstrip : p.stripStart? base = none := by
        unfold stripStart?
        rw [if_pos (by simpa using h)]
      unfold relative
      rw [hstrip]
      simp only [hcommon]
      rw [if_neg (Nat.succ_ne_zero _), hcp, hcb]
      have hup : (Component.ofName dotDot).path = ⟨dotDot⟩ := rfl
      simp [List.map_replicate, hup, List.map_drop, List.map_map, Function.comp_def]
    have hnames : ∀ s ∈ List.replicate (base.names.length - commonLength p.names base.names) dotDot ++
        p.names.drop (commonLength p.names base.names), isStep s = true ∧ separator ∉ s := by
      intro s hs
      rcases List.mem_append.mp hs with hs | hs
      · rw [List.eq_of_mem_replicate hs]
        exact ⟨by decide, by decide⟩
      · exact ⟨isStep_of_mem_names (List.mem_of_mem_drop hs),
          separator_not_mem_name (List.mem_of_mem_drop hs)⟩
    obtain ⟨habs, hall, hends⟩ := foldl_join empty _ hnames (by decide)
    rw [hrelative]
    rw [names_empty, List.nil_append] at hall
    exact ⟨habs, hall, fun hne => hends (by rwa [hall] at hne)⟩

end Relative

end ComponentRegistry.Path
