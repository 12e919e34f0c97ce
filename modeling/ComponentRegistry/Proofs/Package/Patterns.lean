import ComponentRegistry.Package.Glob
import ComponentRegistry.Proofs.Path.Below

/-!
# What patterns match
-/

namespace ComponentRegistry.Glob

variable {c : Char} {cs xs rest : List Char} {ts : List Token} {n : Nat} {b : Bool}

/-- The characters that do not stand for themselves. -/
def special : List Char := ['*', '?', '[']

theorem tokens?_cons (hc : c ∉ special) :
    tokens? (n + 1) b (c :: cs) = (tokens? n (c == '/') cs).map (Token.char c :: ·) := by
  simp only [special, List.mem_cons, not_or] at hc
  rw [tokens?]
  all_goals simp [hc]

/-- A pattern behind literal text and a slash. -/
theorem tokens?_append (hxs : ∀ c ∈ xs, c ∉ special) :
    tokens? ((xs ++ '/' :: rest).length + 1) b (xs ++ '/' :: rest) =
      (pattern? rest).map (xs.map Token.char ++ Token.char '/' :: ·) := by
  induction xs generalizing b with
  | nil => exact tokens?_cons (by decide)
  | cons x xs ih =>
    rw [List.cons_append, List.length_cons, tokens?_cons (hxs x List.mem_cons_self),
      ih fun c hc => hxs c (List.mem_cons_of_mem _ hc), Option.map_map]
    rfl

theorem pattern?_of_literal (hxs : ∀ c ∈ xs, c ∉ special) : pattern? xs = some (xs.map .char) := by
  have key (b : Bool) : tokens? (xs.length + 1) b xs = some (xs.map .char) := by
    induction xs generalizing b with
    | nil => rfl
    | cons x xs ih =>
      rw [List.length_cons, tokens?_cons (hxs x List.mem_cons_self),
        ih fun c hc => hxs c (List.mem_cons_of_mem _ hc)]
      rfl
  exact key true

theorem class?_suffix {first : Char} {after : List Char} {rs : List Range}
    (h : class? first rest = some (rs, after)) : after <:+ rest := by
  unfold class? at h
  simp only at h
  split at h
  · next x after' hdrop =>
    cases h
    have hsuffix := List.drop_suffix (rest.takeWhile (· ≠ ']')).length rest
    rw [hdrop] at hsuffix
    exact (List.suffix_cons _ _).trans hsuffix
  · cases h

/-- A literal character behind another token is one of the tokens that follow. -/
theorem mem_tail {t : Token} {o : Option (List Token)} (h : o.map (t :: ·) = some ts)
    (hc : Token.char c ∈ ts) (ht : Token.char c ≠ t) :
    ∃ ts', o = some ts' ∧ Token.char c ∈ ts' := by
  obtain ⟨ts', ho, rfl⟩ := Option.map_eq_some_iff.mp h
  exact ⟨ts', ho, List.mem_of_ne_of_mem ht hc⟩

theorem mapM_pattern?_append {segments pieces : List (List Char)}
    (h : ∀ s ∈ segments, ∀ c ∈ s, c ∉ special) : (segments ++ pieces).mapM pattern? =
      (pieces.mapM pattern?).map (segments.map (List.map .char) ++ ·) := by
  induction segments with
  | nil => simp
  | cons s segments ih =>
    rw [List.cons_append, List.mapM_cons, pattern?_of_literal (h s List.mem_cons_self),
      ih fun t ht => h t (List.mem_cons_of_mem _ ht)]
    cases pieces.mapM pattern? <;> rfl

/-- Literal segments before a pattern stand for themselves. -/
theorem names?_append {segments : List (List Char)} (hfree : ∀ s ∈ segments, '/' ∉ s)
    (hliteral : ∀ s ∈ segments, ∀ c ∈ s, c ∉ special) (rest : List Char) :
    names? (String.ofList (segments.flatMap ('/' :: ·) ++ '/' :: rest)) =
      (names? (String.ofList ('/' :: rest))).map (segments.map (List.map .char) ++ ·) := by
  have hxs : ∀ c ∈ segments.flatMap ('/' :: ·), c ∉ special := by
    intro c hc
    obtain ⟨s, hs, hmem⟩ := List.mem_flatMap.mp hc
    rcases List.mem_cons.mp hmem with rfl | hmem
    · decide
    · exact hliteral s hs c hmem
  have hbehind : pattern? (segments.flatMap ('/' :: ·) ++ '/' :: rest) = _ := tokens?_append hxs
  have hnone : ∀ c ∈ ([] : List Char), c ∉ special := by simp
  have hrest : pattern? ('/' :: rest) = _ := tokens?_append hnone
  simp only [names?, String.toList_ofList, hbehind, hrest, Text.splitAt_append,
    Text.splitAt_flatMap hfree, Text.splitAt_cons_self, List.cons_append, List.tail_cons,
    mapM_pattern?_append hliteral]
  cases pattern? rest <;> rfl

/-- The literal characters of a pattern stand in its text. -/
theorem mem_of_tokens? (h : tokens? n b cs = some ts) (hc : Token.char c ∈ ts) : c ∈ cs := by
  fun_induction tokens? n b cs generalizing ts with
  | case1 | case4 | case5 | case8 | case11 | case12 | case14 | case15 => cases h
  | case2 | case6 =>
    cases h
    simp at hc
  | case3 _ _ _ ih | case7 _ _ _ _ _ ih | case9 _ _ _ _ _ ih =>
    obtain ⟨ts', ho, hmem⟩ := mem_tail h hc nofun
    simp [ih ho hmem]
  | case10 _ _ _ _ _ _ hclass ih | case13 _ _ _ _ _ _ _ _ hclass ih =>
    obtain ⟨ts', ho, hmem⟩ := mem_tail h hc nofun
    simp [(class?_suffix hclass).mem (ih ho hmem)]
  | case16 fuel atStart d r _ _ _ _ _ _ _ _ ih =>
    by_cases hcd : c = d
    · simp [hcd]
    · obtain ⟨ts', ho, hmem⟩ := mem_tail h hc (by simpa using hcd)
      simp [ih ho hmem]

/-! ## Names -/

theorem exists_of_mem_mapM {pieces : List (List Char)} {names : List (List Token)}
    (h : pieces.mapM pattern? = some names) (hts : ts ∈ names) :
    ∃ piece ∈ pieces, pattern? piece = some ts := by
  induction pieces generalizing names with
  | nil =>
    obtain rfl : [] = names := by simpa using h
    cases hts
  | cons piece pieces ih =>
    simp only [List.mapM_cons, bind, Option.bind_eq_some_iff, pure, Option.some_inj] at h
    obtain ⟨u, hu, us, hus, rfl⟩ := h
    rcases List.mem_cons.mp hts with rfl | hts
    · exact ⟨piece, List.mem_cons_self, hu⟩
    · obtain ⟨piece', hmem, hpiece⟩ := ih hus hts
      exact ⟨piece', List.mem_cons_of_mem _ hmem, hpiece⟩

theorem mapM_of_names? {text : String} {names : List (List Token)} (h : names? text = some names) :
    (Text.splitAt '/' text.toList).tail.mapM pattern? = some names := by
  simp only [names?, bind, Option.bind_eq_some_iff] at h
  obtain ⟨-, -, hnames⟩ := h
  exact hnames

/-- No name of a pattern stands for a slash. -/
theorem slash_not_mem_name {text : String} {names : List (List Token)}
    (h : names? text = some names) (hts : ts ∈ names) : Token.char '/' ∉ ts := by
  obtain ⟨piece, hpiece, hpattern⟩ := exists_of_mem_mapM (mapM_of_names? h) hts
  intro hslash
  exact Text.not_mem_piece (List.mem_of_mem_tail hpiece) (mem_of_tokens? hpattern hslash)

/-- A literal text behind the last slash of a pattern is its last name. -/
theorem getLast?_names? {front last : List Char} {names : List (List Token)}
    (h : names? (String.ofList (front ++ '/' :: last)) = some names) (hslash : '/' ∉ last)
    (hliteral : ∀ c ∈ last, c ∉ special) : names.getLast? = some (last.map .char) := by
  have hpieces := mapM_of_names? h
  rw [String.toList_ofList, Text.splitAt_append, Text.splitAt_of_not_mem hslash,
    List.tail_append_of_ne_nil (Text.splitAt_ne_nil _ _), List.mapM_append] at hpieces
  simp only [List.mapM_cons, List.mapM_nil, pattern?_of_literal hliteral, bind,
    Option.bind_eq_some_iff, pure, Option.some_inj] at hpieces
  obtain ⟨init, -, rest, ⟨_, rfl, _, rfl, rfl⟩, rfl⟩ := hpieces
  exact List.getLast?_concat

theorem plain?_char_cons :
    plain? (.char c :: ts) = (plain? ts).map fun s => String.ofList (c :: s.toList) := by
  simp [plain?, List.mapM_cons, Option.map_eq_bind, Option.bind_assoc]

theorem plain?_eq_some_iff {s : String} : plain? ts = some s ↔ ts = s.toList.map .char := by
  induction ts generalizing s with
  | nil =>
    rw [List.nil_eq, List.map_eq_nil_iff, String.toList_eq_nil_iff, eq_comm (b := "")]
    exact Option.some_inj
  | cons t ts ih =>
    cases t with
    | char c =>
      rw [plain?_char_cons, Option.map_eq_some_iff]
      constructor
      · rintro ⟨s', hs', rfl⟩
        simp [ih.mp hs']
      · intro h
        cases hs : s.toList with
        | nil => simp [hs] at h
        | cons c' cs' =>
          obtain ⟨rfl, rfl⟩ : c = c' ∧ ts = cs'.map .char := by simpa [hs] using h
          exact ⟨String.ofList cs', by simp [ih], by simp [← hs]⟩
    | anyChar | anySequence | anyDirectories | within rs | except rs =>
      cases s.toList <;> simp [plain?, List.mapM_cons]

theorem isRecursive_of_literal (cs : List Char) : isRecursive (cs.map .char) = false := by
  simp [isRecursive]

theorem plain?_of_isRecursive (h : isRecursive ts = true) : plain? ts = none := by
  cases hplain : plain? ts with
  | none => rfl
  | some s =>
    rw [plain?_eq_some_iff.mp hplain, isRecursive_of_literal] at h
    cases h

theorem matchesName_of_literal {name : List Char} :
    matchesName (cs.map .char) name = true ↔ name = cs := by
  induction cs generalizing name with
  | nil => simp [matchesName]
  | cons c cs ih =>
    cases name with
    | nil => simp [matchesName]
    | cons d name =>
      rw [List.map_cons, matchesName, Bool.and_eq_true, beq_iff_eq, ih, List.cons.injEq,
        @eq_comm _ c d]

theorem eq_of_literal {s t : String} (h : s.toList.map Token.char = t.toList.map .char) : s = t :=
  String.toList_inj.mp (List.map_injective_iff.mpr (fun _ _ => Token.char.inj) h)

theorem eq_of_matchesName {s t : String} (h : matchesName (t.toList.map .char) s.toList = true) :
    s = t :=
  String.toList_inj.mp (matchesName_of_literal.mp h)

/-- What matches the empty name matches any single character, unless it is empty itself. -/
theorem matchesName_singleton (h : matchesName ts [] = true) (hne : ts ≠ []) (d : Char) :
    matchesName ts [d] = true := by
  induction ts with
  | nil => exact absurd rfl hne
  | cons t ts ih =>
    cases t with
    | char c | anyChar | within rs | except rs => simp [matchesName] at h
    | anySequence | anyDirectories =>
      have hrest : matchesName ts [] = true := by simpa [matchesName, anyEnd] using h
      simp [matchesName, anyEnd, hrest]

/-- A name that leads up: it begins with a dot, and `..` is among what it stands for. -/
def reachesUp (ts : List Token) : Bool :=
  ts.head? = some (.char '.') && matchesName ts "..".toList

/-- A name that stands for `.` also leads up, unless it is this name. -/
theorem reachesUp_of_matches_dot (hhead : ts.head? = some (.char '.'))
    (h : matchesName ts ".".toList = true) (hplain : plain? ts = none) : reachesUp ts = true := by
  obtain ⟨ts, rfl⟩ : ∃ ts', ts = .char '.' :: ts' := by
    cases ts with
    | nil => cases hhead
    | cons t ts => exact ⟨ts, by rw [Option.some.inj hhead]⟩
  have hrest : matchesName ts [] = true := by simpa [matchesName] using h
  have hne : ts ≠ [] := by
    rintro rfl
    cases hplain
  have hdot := matchesName_singleton hrest hne '.'
  simpa [reachesUp, matchesName] using hdot

theorem reachesUp_of_turn {turn : String} (hturn : turn ∈ [".", ".."])
    (hhead : ts.head? = some (.char '.')) (h : matchesName ts turn.toList = true)
    (hplain : plain? ts = none) : reachesUp ts = true := by
  rcases List.mem_pair.mp hturn with rfl | rfl
  · exact reachesUp_of_matches_dot hhead h hplain
  · exact Bool.and_eq_true_iff.mpr ⟨decide_eq_true hhead, h⟩

/-! ## What fits -/

/-- A name that an entry of a directory can have. -/
structure IsEntry (s : String) : Prop where
  isSegment : Path.IsSegment s
  isStep : Path.isStep (Text.ofChars s.toList) = true
  notUp : Text.ofChars s.toList ≠ Path.dotDot

/-- The segments of a path fit the names of a pattern.  A segment that stays stands in both; one
that is recursive stands for any number of entries, from none on. -/
inductive Fits : List (List Token) → List String → Prop
  | nil : Fits [] []
  | stay {more : List (List Token)} {rel : List String} {s : String} (hs : s = "" ∨ s = ".") :
    Fits more rel → Fits (s.toList.map .char :: more) (s :: rel)
  | entry {ts : List Token} {more : List (List Token)} {s : String} {rel : List String}
      (hrec : isRecursive ts = false) (hname : matchesName ts s.toList = true) (hs : IsEntry s) :
    Fits more rel → Fits (ts :: more) (s :: rel)
  | deeper {ts : List Token} {more : List (List Token)} {s : String} {rel : List String}
      (hrec : isRecursive ts = true) (hs : IsEntry s) :
    Fits (ts :: more) rel → Fits (ts :: more) (s :: rel)
  | skip {ts : List Token} {more : List (List Token)} {s : String} {rel : List String}
      (hrec : isRecursive ts = true) (hs : IsEntry s) :
    Fits more (s :: rel) → Fits (ts :: more) (s :: rel)

end ComponentRegistry.Glob
