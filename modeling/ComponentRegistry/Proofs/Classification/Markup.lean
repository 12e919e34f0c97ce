import ComponentRegistry.Proofs.Classification.BelowRoot

/-!
# Files that return markup

A file whose type nothing else decides is one for the interface if its text holds `return (` or
`return<`, and holds the beginning of a tag (`classify_of_leftOpen`, `returnsMarkup_iff`).  A `return` of
a tag may be written in other ways: with blanks before the tag, with none or several before the
parenthesis.  By itself such a `return` is seen only if it is written tightly (`announces_returned_iff`).
-/

namespace ComponentRegistry.Text

variable {w s t : List Char} {c : Char}

theorem containsWord_iff : containsWord w s = true ↔ w <:+: s := by
  induction s with
  | nil => simp [containsWord]
  | cons c r ih => simp [containsWord, startsWith_iff, ih, List.infix_cons_iff]

/-- A word stands behind characters that are not its first one. -/
theorem infix_of_not_mem (h : (c :: w) <:+: s ++ t) (hc : c ∉ s) : (c :: w) <:+: t := by
  induction s with
  | nil => exact h
  | cons x s ih =>
    obtain ⟨hx, hs⟩ := not_or.mp (mt List.mem_cons.mpr hc)
    rcases List.infix_cons_iff.mp h with hstarts | hwithin
    · exact absurd (List.cons_prefix_cons.mp hstarts).1 hx
    · exact ih hwithin hs

end ComponentRegistry.Text

namespace ComponentRegistry.Classification

open Text (isBlank)

/-- The beginning of a tag: that of a component, or that of an element with more in it than its
name. -/
inductive TagStart : List Char → Prop
  | component {c : Char} : isUpper c = true → TagStart ['<', c]
  | element {name : List Char} {c : Char} : name ≠ [] → (∀ x ∈ name, isLower x = true) →
      isBlank c = true → TagStart ('<' :: (name ++ [c]))

/-- What may stand between `return` and a tag: blanks, and among them maybe a parenthesis. -/
inductive Between : List Char → Prop
  | bare {gap : List Char} : (∀ c ∈ gap, isBlank c = true) → Between gap
  | opened {gap inner : List Char} : (∀ c ∈ gap, isBlank c = true) →
      (∀ c ∈ inner, isBlank c = true) → Between (gap ++ '(' :: inner)

/-- Nothing stands before the tag, or one space before the parenthesis. -/
def Tight (between : List Char) : Prop := between = [] ∨ ∃ inner, between = ' ' :: '(' :: inner

/-- A `return` of what begins with a tag. -/
def returned (between tag : List Char) : List Char := "return".toList ++ (between ++ tag)

/-- One of the two words that are looked for stands in the text. -/
def Announces (text : List Char) : Prop :=
  "return (".toList <:+: text ∨ "return<".toList <:+: text

variable {path root : Path} {s : SourceSummary} {text between tag rest : List Char} {c : Char}

theorem Announces.mono (h : Announces rest) (hwithin : rest <:+: text) : Announces text :=
  h.imp (·.trans hwithin) (·.trans hwithin)

/-! ## Tags -/

theorem isLower_iff : isLower c = true ↔ 97 ≤ c.toNat ∧ c.toNat ≤ 122 := by
  simp [isLower, Char.le_def, UInt32.le_iff_toNat_le]

/-- A letter is no blank. -/
theorem isLower_of_isBlank (h : isBlank c = true) : isLower c = false := by
  rw [← Bool.not_eq_true, isLower_iff]
  simp only [isBlank, Bool.or_eq_true, Bool.and_eq_true, decide_eq_true_eq, beq_iff_eq] at h
  omega

theorem TagStart.eq_cons (h : TagStart tag) : ∃ body, tag = '<' :: body ∧ body ≠ [] := by
  cases h with
  | component => exact ⟨_, rfl, by simp⟩
  | element => exact ⟨_, rfl, by simp⟩

theorem opensTag_iff : opensTag rest = true ↔ ∃ body, TagStart ('<' :: body) ∧ body <+: rest := by
  cases rest with
  | nil =>
    refine ⟨fun h => (by cases h), ?_⟩
    rintro ⟨body, htag, hstarts⟩
    obtain ⟨body', heq, hne⟩ := htag.eq_cons
    cases heq
    exact absurd (List.prefix_nil.mp hstarts) hne
  | cons c rest =>
    unfold opensTag
    rw [Bool.or_eq_true, Bool.and_eq_true, Option.any_eq_true]
    constructor
    · rintro (hupper | ⟨hlower, b, hb, hblank⟩)
      · exact ⟨[c], .component hupper, rest, rfl⟩
      · obtain ⟨after, hafter⟩ := List.head?_eq_some_iff.mp hb
        refine ⟨(c :: rest).takeWhile isLower ++ [b], .element ?_ ?_ hblank, after, ?_⟩
        · simp [hlower]
        · exact fun x hx => List.mem_takeWhile_imp hx
        · rw [List.append_assoc, List.singleton_append, ← hafter, List.takeWhile_append_dropWhile]
    · rintro ⟨body, htag, after, hafter⟩
      cases htag with
      | component hupper =>
        cases hafter
        exact .inl hupper
      | @element name b hne hname hblank =>
        obtain ⟨x, more, rfl⟩ := List.exists_cons_of_ne_nil hne
        have hx : x = c := (List.cons.inj hafter).1
        refine .inr ⟨hx ▸ hname x List.mem_cons_self, b, ?_, hblank⟩
        rw [← hafter, List.append_assoc, List.dropWhile_append_of_pos hname, List.singleton_append,
          List.dropWhile_cons_of_neg (by simp [isLower_of_isBlank hblank])]
        rfl

theorem hasTag_iff : hasTag text = true ↔ ∃ tag, TagStart tag ∧ tag <:+: text := by
  induction text with
  | nil =>
    refine ⟨fun h => (by cases h), ?_⟩
    rintro ⟨tag, htag, hwithin⟩
    rw [List.infix_nil.mp hwithin] at htag
    nomatch htag
  | cons c r ih =>
    unfold hasTag
    rw [Bool.or_eq_true, Bool.and_eq_true, beq_iff_eq, opensTag_iff, ih]
    constructor
    · rintro (⟨rfl, body, htag, hstarts⟩ | ⟨tag, htag, hwithin⟩)
      · exact ⟨_, htag, (List.cons_prefix_cons.mpr ⟨rfl, hstarts⟩).isInfix⟩
      · exact ⟨tag, htag, hwithin.trans (List.suffix_cons c r).isInfix⟩
    · rintro ⟨tag, htag, hwithin⟩
      rcases List.infix_cons_iff.mp hwithin with hstarts | hwithin
      · obtain ⟨body, rfl, -⟩ := htag.eq_cons
        obtain ⟨rfl, hbody⟩ := List.cons_prefix_cons.mp hstarts
        exact .inl ⟨rfl, body, htag, hbody⟩
      · exact .inr ⟨tag, htag, hwithin⟩

theorem returnsMarkup_iff : returnsMarkup text = true ↔
    Announces text ∧ ∃ tag, TagStart tag ∧ tag <:+: text := by
  unfold returnsMarkup Announces
  rw [Bool.and_eq_true, Bool.or_eq_true, Text.containsWord_iff, Text.containsWord_iff, hasTag_iff]

/-! ## A return by itself -/

/-- In a tag neither a parenthesis nor another tag begins. -/
theorem TagStart.not_mem_body {body : List Char} (h : TagStart ('<' :: body)) :
    '(' ∉ body ∧ '<' ∉ body := by
  have hmem : ∀ c, isUpper c = false → isLower c = false → isBlank c = false → c ∉ body := by
    intro c hupper hlower hblank hc
    cases h with
    | component h => simp_all
    | element hne hname h =>
      rcases List.mem_append.mp hc with hc | hc
      · simp_all
      · simp_all
  exact ⟨hmem '(' (by decide) (by decide) (by decide), hmem '<' (by decide) (by decide) (by decide)⟩

theorem Between.not_mem {c : Char} (h : Between between) (hblank : isBlank c = false)
    (hopen : c ≠ '(') : c ∉ between := by
  intro hc
  cases h with
  | bare hgap => simp_all
  | opened hgap hinner =>
    simp only [List.mem_append, List.mem_cons] at hc
    rcases hc with hc | hc | hc
    · simp_all
    · exact hopen hc
    · simp_all

/-- A word that begins with `return` and goes on to a parenthesis or a tag stands at the beginning of
a `return`, or nowhere in it. -/
theorem infix_returned_iff {next : List Char} (hb : Between between) (ht : TagStart tag)
    (hnext : '(' ∈ next ∨ '<' ∈ next) :
    "return".toList ++ next <:+: returned between tag ↔ next <+: between ++ tag := by
  have hword : "return".toList = ['r', 'e', 't', 'u', 'r', 'n'] := by decide
  unfold returned
  constructor
  · intro h
    rw [hword] at h
    rcases List.infix_cons_iff.mp h with hstarts | hwithin
    · exact (List.prefix_append_right_inj ['r', 'e', 't', 'u', 'r', 'n']).mp hstarts
    · exfalso
      obtain ⟨body, rfl, -⟩ := ht.eq_cons
      have hsecond := Text.infix_of_not_mem (s := ['e', 't', 'u']) hwithin (by decide)
      rcases List.infix_cons_iff.mp hsecond with hstarts | hwithin
      · simp [List.cons_prefix_cons] at hstarts
      · -- no `r` stands before the body of the tag, and what has to follow is not in the body
        have hfree : 'r' ∉ 'n' :: between ++ ['<'] := by
          simp [hb.not_mem (c := 'r') (by decide) (by decide)]
        have hbody := Text.infix_of_not_mem (s := 'n' :: between ++ ['<']) (t := body)
          (by simpa using hwithin) hfree
        have hmem : ∀ c ∈ next, c ∈ body := fun c hc => hbody.subset (by simp [hc])
        exact hnext.elim (fun h => ht.not_mem_body.1 (hmem _ h)) fun h => ht.not_mem_body.2 (hmem _ h)
  · intro h
    exact ((List.prefix_append_right_inj _).mpr h).isInfix

/-- The blanks before a character that is none are those before the first such character. -/
theorem blanks_unique (blanks : List Char) {gap : List Char} {d : Char} (hc : isBlank c = false)
    (hd : isBlank d = false) (hblanks : ∀ x ∈ blanks, isBlank x = true)
    (hgap : ∀ x ∈ gap, isBlank x = true) (h : blanks ++ [c] <+: gap ++ d :: rest) :
    gap = blanks ∧ d = c := by
  induction gap generalizing blanks with
  | nil =>
    cases blanks with
    | nil => exact ⟨rfl, (List.cons_prefix_cons.mp h).1.symm⟩
    | cons x blanks =>
      have hx : x = d := (List.cons_prefix_cons.mp h).1
      simp [← hx, hblanks x List.mem_cons_self] at hd
  | cons y gap ih =>
    have hy : isBlank y = true := hgap y List.mem_cons_self
    cases blanks with
    | nil =>
      have hcy : c = y := (List.cons_prefix_cons.mp h).1
      simp [hcy, hy] at hc
    | cons x blanks =>
      obtain ⟨rfl, hrest⟩ := List.cons_prefix_cons.mp h
      obtain ⟨rfl, hdc⟩ := ih blanks (fun z hz => hblanks z (List.mem_cons_of_mem x hz))
        (fun z hz => hgap z (List.mem_cons_of_mem x hz)) hrest
      exact ⟨rfl, hdc⟩

/-- **A return of a tag is seen by itself if it is written tightly, and only then.** -/
theorem announces_returned_iff (hb : Between between) (ht : TagStart tag) :
    Announces (returned between tag) ↔ Tight between := by
  have hopen : "return (".toList = "return".toList ++ [' ', '('] := by decide
  have htag : "return<".toList = "return".toList ++ ['<'] := by decide
  have hspace : ∀ x ∈ [' '], isBlank x = true := List.forall_mem_singleton.mpr (by decide)
  unfold Announces
  rw [hopen, htag, infix_returned_iff hb ht (.inl (by simp)), infix_returned_iff hb ht (.inr (by simp))]
  obtain ⟨body, rfl, -⟩ := ht.eq_cons
  constructor
  · intro h
    cases hb with
    | bare hgap =>
      rcases h with h | h
      · obtain ⟨-, hne⟩ := blanks_unique [' '] (by decide) (by decide) hspace hgap h
        exact absurd hne (by decide)
      · exact .inl (blanks_unique [] (by decide) (by decide) (by simp) hgap h).1
    | @opened gap inner hgap hinner =>
      rw [List.append_assoc] at h
      rcases h with h | h
      · obtain ⟨rfl, -⟩ := blanks_unique [' '] (by decide) (by decide) hspace hgap h
        exact .inr ⟨inner, rfl⟩
      · obtain ⟨-, hne⟩ := blanks_unique [] (by decide) (by decide) (by simp) hgap h
        exact absurd hne (by decide)
  · rintro (rfl | ⟨inner, rfl⟩)
    · exact .inr ⟨body, rfl⟩
    · exact .inl ⟨inner ++ '<' :: body, rfl⟩

/-! ## Files -/

/-- A file for markup whose name, directories and exports leave its type open. -/
structure LeftOpen (path root : Path) (s : SourceSummary) : Prop where
  name : ∃ fileName : String, path.fileName? = some (Text.ofChars fileName.toList) ∧
    ¬ hookStart <+: fileName.toList
  extension : path.extensionText? = some "tsx" ∨ path.extensionText? = some "jsx"
  directories : ∀ dir ∈ directoriesOf (path.relative root),
    dir ∉ ["ui", "hooks", "lib", "utils", "styles", "css"]
  parsed : s.parsed = true
  exports : ∀ name ∈ s.exportedFunctions, ¬ hookStart <+: name.toList

theorem byDirectory_eq_none {directories : List String}
    (h : ∀ dir ∈ directories, dir ∉ ["ui", "hooks", "lib", "utils", "styles", "css"]) :
    byDirectory directories = none := by
  have hall : ∀ e ∈ directoryTypes, ∀ name ∈ e.2,
      name ∈ ["ui", "hooks", "lib", "utils", "styles", "css"] := by
    decide
  unfold byDirectory
  rw [Option.map_eq_none_iff, List.find?_eq_none]
  intro e he hany
  obtain ⟨dir, hdir, hname⟩ := List.any_eq_true.mp hany
  exact h dir hdir (hall e he dir (List.contains_iff_mem.mp hname))

theorem exportsHook_eq_false (h : ∀ name ∈ s.exportedFunctions, ¬ hookStart <+: name.toList) :
    exportsHook s = false := by
  rw [← Bool.not_eq_true, exportsHook, List.any_eq_true]
  rintro ⟨name, hname, hstart⟩
  exact h name hname (Text.startsWith_iff.mp hstart)

theorem nameOf_eq_ok {fileName extension : String}
    (hname : path.fileName? = some (Text.ofChars fileName.toList))
    (hextension : path.extensionText? = some extension) :
    nameOf path = .ok (fileName, extension) := by
  obtain ⟨ext, hext, htext⟩ := Option.bind_eq_some_iff.mp hextension
  unfold nameOf
  simp only [hname, Text.text?_eq_some_iff.mpr rfl, hext, htext]

/-- Such a file is one for the interface if it seems to return markup, and else one of the library. -/
theorem classify_of_leftOpen (h : LeftOpen path root s) : classify path root (some s) =
    .ok (if returnsMarkup s.text.toList = true then .ui else .lib) := by
  obtain ⟨fileName, hname, hstart⟩ := h.name
  obtain ⟨extension, hextension, hmarkup⟩ : ∃ extension, path.extensionText? = some extension ∧
      (extension = "tsx" ∨ extension = "jsx") := by
    rcases h.extension with hext | hext
    · exact ⟨_, hext, .inl rfl⟩
    · exact ⟨_, hext, .inr rfl⟩
  have hstyle : styleExtensions.contains extension = false := by
    rcases hmarkup with rfl | rfl <;> decide
  have hcode : codeExtensions.contains extension = true := by
    rcases hmarkup with rfl | rfl <;> decide
  have hplain : Text.startsWith hookStart fileName.toList = false := by
    rw [← Bool.not_eq_true, Text.startsWith_iff]
    exact hstart
  have htype : typeOf fileName extension (directoriesOf (path.relative root)) (some s) =
      (byContent s extension).getD .lib := by
    unfold typeOf
    simp only [hstyle, hcode, hplain, byDirectory_eq_none h.directories, h.parsed]
    rfl
  have hcontent : byContent s extension =
      if returnsMarkup s.text.toList = true then some .ui else none := by
    simp [byContent, exportsHook_eq_false h.exports, hmarkup]
  rw [classify_eq, nameOf_eq_ok hname hextension]
  show Except.ok (typeOf _ _ _ _) = _
  rw [htype, hcontent]
  split_ifs
  · rfl
  · rfl

/-- **Which files that return markup are for the interface.**  Of files whose type nothing else decides
those that hold `return (` or `return<` and the beginning of a tag; the others belong to the library.  So
a file that returns a tag in any spelling is one for the interface exactly if one of the two words stands
in it.  The tight spellings hold one of them, and a `return` in another spelling has to stand beside one
that does: by itself it is not seen. -/
theorem markup_seen_iff (h : LeftOpen path root s) :
    (classify path root (some s) = .ok .ui ↔
      Announces s.text.toList ∧ ∃ tag, TagStart tag ∧ tag <:+: s.text.toList) ∧
    (classify path root (some s) ≠ .ok .ui → classify path root (some s) = .ok .lib) ∧
    ∀ between tag, Between between → TagStart tag →
      (returned between tag <:+: s.text.toList →
        (classify path root (some s) = .ok .ui ↔ Announces s.text.toList) ∧
        (Tight between → classify path root (some s) = .ok .ui)) ∧
      (s.text.toList = returned between tag →
        (classify path root (some s) = .ok .ui ↔ Tight between)) := by
  have hiff : classify path root (some s) = .ok .ui ↔
      Announces s.text.toList ∧ ∃ tag, TagStart tag ∧ tag <:+: s.text.toList := by
    rw [classify_of_leftOpen h, ← returnsMarkup_iff]
    split_ifs with hmarkup <;> simp [hmarkup]
  refine ⟨hiff, fun hother => ?_, fun between tag hb ht => ?_⟩
  · rw [classify_of_leftOpen h] at hother ⊢
    split_ifs at hother ⊢
    · exact absurd rfl hother
    · rfl
  · have hseen : returned between tag <:+: s.text.toList →
        (classify path root (some s) = .ok .ui ↔ Announces s.text.toList) := by
      intro hwithin
      have htag : tag <:+: s.text.toList := by
        refine List.IsInfix.trans ?_ hwithin
        exact (List.suffix_append _ _).trans (List.suffix_append _ _) |>.isInfix
      exact hiff.trans (and_iff_left ⟨tag, ht, htag⟩)
    refine ⟨fun hwithin => ⟨hseen hwithin, fun htight => ?_⟩, fun htext => ?_⟩
    · refine (hseen hwithin).mpr ?_
      exact ((announces_returned_iff hb ht).mpr htight).mono hwithin
    · rw [hseen (by rw [htext]), htext]
      exact announces_returned_iff hb ht

/-- A file that returns an element in parentheses, on lines of its own. -/
def label : SourceSummary where
  text := "export function Label() \x7b\n  return (\n    <span className='label' />\n  );\n\x7d\n"
  references := []
  exportedFunctions := ["Label"]
  parsed := true

theorem label_seen :
    LeftOpen (Path.ofString "/p/src/label.tsx") (Path.ofString "/p") label ∧
      classify (Path.ofString "/p/src/label.tsx") (Path.ofString "/p") (some label) = .ok .ui := by
  have hopen : LeftOpen (Path.ofString "/p/src/label.tsx") (Path.ofString "/p") label :=
    ⟨⟨"label.tsx", by decide +kernel, by decide +kernel⟩, .inl (by decide +kernel),
      by decide +kernel, rfl, by decide +kernel⟩
  have hbetween : Between ([' '] ++ '(' :: "\n    ".toList) :=
    .opened (List.all_eq_true.mp (by decide)) (List.all_eq_true.mp (by decide))
  have htag : TagStart ('<' :: ("span".toList ++ [' '])) :=
    .element (by decide) (List.all_eq_true.mp (by decide)) (by decide)
  obtain ⟨-, -, hreturned⟩ := markup_seen_iff hopen
  obtain ⟨hseen, -⟩ := hreturned _ _ hbetween htag
  exact ⟨hopen, (hseen (by decide +kernel)).2 (.inr ⟨"\n    ".toList, by decide⟩)⟩

/-- A file that returns an element on one line, with a space before it. -/
def button : String := "export function Button() \x7b return <button type='button' />; \x7d"

theorem button_unseen : ∃ s,
    SourceSummary.ofText (Path.ofString "/p/src/button.tsx") button = .ok s ∧
    LeftOpen (Path.ofString "/p/src/button.tsx") (Path.ofString "/p") s ∧
    (∃ between tag, Between between ∧ TagStart tag ∧ returned between tag <:+: s.text.toList) ∧
    classify (Path.ofString "/p/src/button.tsx") (Path.ofString "/p") (some s) = .ok .lib := by
  refine ⟨⟨button, [], ["Button"], true⟩, by decide +kernel, ?_, ?_, by decide +kernel⟩
  · exact ⟨⟨"button.tsx", by decide +kernel, by decide +kernel⟩, .inl (by decide +kernel),
      by decide +kernel, rfl, by decide +kernel⟩
  · have hbetween : Between [' '] := .bare (List.all_eq_true.mp (by decide))
    have htag : TagStart ('<' :: ("button".toList ++ [' '])) :=
      .element (by decide) (List.all_eq_true.mp (by decide)) (by decide)
    exact ⟨_, _, hbetween, htag, by decide +kernel⟩

end ComponentRegistry.Classification
