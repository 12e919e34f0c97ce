import ComponentRegistry.Proofs.Disk.Below
import ComponentRegistry.Proofs.Generate.Listing
import ComponentRegistry.Proofs.Package.Patterns

/-!
# What matches on a disk

The search for the paths that match a pattern takes the names of the pattern one by one.  What it
finds fits the pattern (`exists_fits`), and what fits and is there is found (`mem_matchesBelow`).
The search behind a root without special characters is the search in its directory
(`paths_below`).
-/

namespace ComponentRegistry.Glob

variable {d : Disk} {p path file : Path} {s : String} {names more : List (List Token)}
  {rel : List String} {fuel : Nat}

theorem IsEntry.of_proper (h : Disk.Proper (Text.ofChars s.toList)) : IsEntry s :=
  ⟨h.free, h.isStep, h.notUp⟩

/-! ## The entries of a directory -/

theorem of_mem_children (hd : d.Listed) (h : (s, path) ∈ children d p) :
    path = p / s ∧ IsEntry s := by
  unfold children at h
  cases hl : d.locate p with
  | error e => simp [hl] at h
  | ok l =>
    simp only [hl] at h
    split at h
    · obtain ⟨⟨name, n⟩, hmem, hname⟩ := List.mem_filterMap.mp h
      obtain ⟨s', hs', heq⟩ := Option.map_eq_some_iff.mp hname
      cases heq
      obtain rfl := Text.text?_eq_some_iff.mp hs'
      exact ⟨rfl, .of_proper (hd.proper hmem)⟩
    · cases h

theorem mem_children {l : Location} {n : Node} (hl : d.locate p = .ok l)
    (hdir : d.node? l = some .directory) (hn : d.node? (l ++ [Text.ofChars s.toList]) = some n) :
    (s, p / s) ∈ children d p := by
  have hentry : (Text.ofChars s.toList, n) ∈ d.entries l := by
    rw [Disk.node?_of_ne_nil d (by simp), Option.map_eq_some_iff] at hn
    obtain ⟨⟨m, n'⟩, hfind, rfl⟩ := hn
    have hm : m = l ++ [Text.ofChars s.toList] := by simpa using List.find?_some hfind
    refine List.mem_filterMap.mpr ⟨_, List.mem_of_find?_eq_some hfind, ?_⟩
    simp [hm]
  unfold children
  rw [hl]
  simp only [hdir, if_true]
  refine List.mem_filterMap.mpr ⟨_, hentry, ?_⟩
  rw [Text.text?_eq_some_iff.mpr rfl]
  rfl

theorem fileNameShown_of_isEntry (p : Path) (hs : IsEntry s) : (p / s).fileNameShown = s := by
  have hnames : (p / s).names = p.names ++ [Text.ofChars s.toList] := by
    rw [show p / s = p.below [s] from rfl, Path.names_below _ (by simpa using hs.isSegment)]
    simp [hs.isStep]
  unfold Path.fileNameShown
  rw [Path.fileName?_eq, hnames, List.getLast?_concat, Option.bind_some, if_neg hs.notUp,
    Option.map_some, Text.shown_ofChars, String.ofList_toList, Option.getD_some]

/-! ## What is found fits -/

/-- A name without special characters is passed where it stands, and `.` and `..` are passed in a
directory. -/
def passes (d : Disk) (p : Path) (s : String) : Bool :=
  if s = "." ∨ s = ".." then d.isDirectory p else stands d p s

theorem matchesBelow_literal (d : Disk) (fuel : Nat) (s : String) (more : List (List Token))
    (p : Path) : matchesBelow d (fuel + 1) (s.toList.map .char :: more) p =
      if passes d p s then matchesBelow d fuel more (p / s) else [] := by
  rw [matchesBelow, passes]
  simp only [plain?_eq_some_iff.mpr rfl]
  split_ifs with hturn <;> simp_all

/-- The names of a pattern lead neither up nor through slashes, and the last one stands for a
file. -/
structure Inward (names : List (List Token)) : Prop where
  isSegment : ∀ ts ∈ names, Token.char '/' ∉ ts
  notUp : ∀ ts ∈ names, reachesUp ts = false
  last : ∀ ts, names.getLast? = some ts → isRecursive ts = false

theorem Inward.tail {ts : List Token} (h : Inward (ts :: more)) : Inward more := by
  refine ⟨fun t ht => h.isSegment t (List.mem_cons_of_mem _ ht),
    fun t ht => h.notUp t (List.mem_cons_of_mem _ ht), fun t ht => h.last t ?_⟩
  cases more with
  | nil => cases ht
  | cons u more => exact ht

theorem not_reachesUp_literal (h : reachesUp (s.toList.map .char) = false) : s ≠ ".." := by
  rintro rfl
  rw [reachesUp, matchesName_of_literal.mpr rfl, Bool.and_true, decide_eq_false_iff_not] at h
  exact h rfl

/-- A name without special characters stands for itself. -/
theorem Fits.literal (h : Inward (s.toList.map .char :: more)) (hfits : Fits more rel) :
    Fits (s.toList.map .char :: more) (s :: rel) := by
  by_cases hstays : s = "" ∨ s = "."
  · exact .stay hstays hfits
  · obtain ⟨hempty, hdot⟩ := not_or.mp hstays
    have hfree : Path.separator ∉ Text.ofChars s.toList := by
      have hslash := h.isSegment _ List.mem_cons_self
      simpa [Path.separator, Text.ofChars] using hslash
    have hup := not_reachesUp_literal (h.notUp _ List.mem_cons_self)
    refine .entry (isRecursive_of_literal _) (matchesName_of_literal.mpr rfl) ⟨hfree, ?_, ?_⟩ hfits
    · simp only [Path.isStep, Bool.and_eq_true, bne_iff_ne]
      exact ⟨fun h => hempty (Text.eq_of_ofChars (t := "") h),
        fun h => hdot (Text.eq_of_ofChars (t := ".") h)⟩
    · exact fun h => hup (Text.eq_of_ofChars (t := "..") h)

theorem Fits.of_literal (h : Fits (s.toList.map .char :: more) rel) :
    ∃ rest, rel = s :: rest ∧ Fits more rest := by
  generalize hts : s.toList.map Token.char = ts at h
  generalize hnames : ts :: more = names at h
  cases h with
  | nil => cases hnames
  | stay _ hrest =>
    obtain ⟨hhead, rfl⟩ := List.cons.inj hnames
    exact ⟨_, by rw [eq_of_literal (hts.trans hhead)], hrest⟩
  | entry _ hname _ hrest =>
    obtain ⟨rfl, rfl⟩ := List.cons.inj hnames
    subst hts
    exact ⟨_, by rw [eq_of_matchesName hname], hrest⟩
  | deeper hrec | skip hrec =>
    obtain ⟨rfl, -⟩ := List.cons.inj hnames
    rw [← hts, isRecursive_of_literal] at hrec
    cases hrec

/-- A name with special characters stands for an entry, if it is not recursive. -/
theorem Fits.of_name {ts : List Token} (h : Fits (ts :: more) rel) (hplain : plain? ts = none)
    (hnot : isRecursive ts = false) :
    ∃ s rest, rel = s :: rest ∧ IsEntry s ∧ matchesName ts s.toList = true ∧ Fits more rest := by
  generalize hnames : ts :: more = names at h
  cases h with
  | nil => cases hnames
  | stay _ hrest =>
    obtain ⟨rfl, -⟩ := List.cons.inj hnames
    rw [plain?_eq_some_iff.mpr rfl] at hplain
    cases hplain
  | entry _ hname hs hrest =>
    obtain ⟨rfl, rfl⟩ := List.cons.inj hnames
    exact ⟨_, _, rfl, hs, hname, hrest⟩
  | deeper hrec | skip hrec =>
    obtain ⟨rfl, -⟩ := List.cons.inj hnames
    rw [hnot] at hrec
    cases hrec

/-- What is found behind `**`, from an entry on. -/
theorem exists_fits_matchHere (hs : IsEntry s) (hmore : Inward more) (hne : more ≠ [])
    (ih : ∀ names q, Inward names → file ∈ matchesBelow d fuel names q →
      ∃ rel, Fits names rel ∧ file = q.below rel)
    (h : file ∈ matchHere d (matchesBelow d fuel) more (p / s)) :
    ∃ rel, Fits more (s :: rel) ∧ file = (p / s).below rel := by
  induction more with
  | nil => exact absurd rfl hne
  | cons next rest ihmore =>
    rw [matchHere] at h
    split_ifs at h with hrec hname
    · have hrest : rest ≠ [] := by
        rintro rfl
        rw [hmore.last next rfl] at hrec
        cases hrec
      obtain ⟨rel, hfits, hfile⟩ := ihmore hmore.tail hrest h
      exact ⟨rel, .skip hrec hs hfits, hfile⟩
    · rw [fileNameShown_of_isEntry p hs] at hname
      obtain ⟨rel, hfits, hfile⟩ := ih rest _ hmore.tail h
      exact ⟨rel, .entry (by simpa using hrec) hname hs hfits, hfile⟩
    · cases h

/-- **What a search finds fits the names of the pattern.** -/
theorem exists_fits (hd : d.Listed) (hnames : Inward names)
    (h : file ∈ matchesBelow d fuel names p) : ∃ rel, Fits names rel ∧ file = p.below rel := by
  induction fuel generalizing names p with
  | zero => simp [matchesBelow] at h
  | succ fuel ih =>
    cases names with
    | nil =>
      rw [matchesBelow, List.mem_singleton] at h
      exact ⟨[], .nil, h⟩
    | cons ts more =>
      cases hplain : plain? ts with
      | some s =>
        obtain rfl := plain?_eq_some_iff.mp hplain
        rw [matchesBelow_literal] at h
        split_ifs at h with hthere
        · obtain ⟨rel, hfits, hfile⟩ := ih hnames.tail h
          exact ⟨s :: rel, .literal hnames hfits, hfile⟩
        · cases h
      | none =>
        rw [matchesBelow] at h
        simp only [hplain] at h
        split_ifs at h with hrec
        · -- below an entry the name goes on to stand, or the entry is its last one
          obtain ⟨⟨s, path⟩, hchild, hfound⟩ := List.mem_flatMap.mp h
          obtain ⟨rfl, hs⟩ := of_mem_children hd hchild
          rcases List.mem_append.mp hfound with hdeeper | hhere
          · split_ifs at hdeeper
            · obtain ⟨rel, hfits, hfile⟩ := ih hnames hdeeper
              exact ⟨s :: rel, .deeper hrec hs hfits, hfile⟩
            · cases hdeeper
          · have hmore : more ≠ [] := by
              rintro rfl
              rw [hnames.last ts rfl] at hrec
              cases hrec
            obtain ⟨rel, hfits, hfile⟩ :=
              exists_fits_matchHere hs hnames.tail hmore (fun _ _ hn hf => ih hn hf) hhere
            exact ⟨s :: rel, .skip hrec hs hfits, hfile⟩
        · rcases List.mem_append.mp h with hlisted | hturn
          · obtain ⟨⟨s, path⟩, hchild, hfound⟩ := List.mem_flatMap.mp hlisted
            obtain ⟨rfl, hs⟩ := of_mem_children hd hchild
            split_ifs at hfound with hname
            · obtain ⟨rel, hfits, hfile⟩ := ih hnames.tail hfound
              exact ⟨s :: rel, .entry (by simpa using hrec) hname hs hfits, hfile⟩
            · cases hfound
          · -- a name that stands for `.` or `..` leads up
            obtain ⟨turn, hmem, hfound⟩ := List.mem_flatMap.mp hturn
            have hin := hnames.notUp ts List.mem_cons_self
            split_ifs at hfound with hfits
            · simp only [Bool.and_eq_true, decide_eq_true_eq] at hfits
              obtain ⟨-, hhead, hmatch⟩ := hfits
              rw [reachesUp_of_turn hmem hhead hmatch hplain] at hin
              cases hin
            · cases hfound

/-! ## What fits is found -/

theorem Fits.isSegment (h : Fits names rel) : ∀ s ∈ rel, Path.IsSegment s := by
  induction h with
  | nil => simp
  | stay hs _ ih =>
    rcases hs with rfl | rfl <;> exact List.forall_mem_cons.mpr ⟨by decide, ih⟩
  | entry _ _ hs _ ih | deeper _ hs _ ih => exact List.forall_mem_cons.mpr ⟨hs.isSegment, ih⟩
  | skip _ _ _ ih => exact ih

theorem Fits.ne_nil {ts : List Token} (h : Fits (ts :: more) rel) : rel ≠ [] := by
  cases h <;> simp

/-- Each segment that stays uses up a name of the pattern. -/
theorem Fits.length_le (h : Fits names rel) : rel.length ≤
    names.length + ((rel.map fun s => Text.ofChars s.toList).filter Path.isStep).length := by
  induction h with
  | nil => simp
  | stay hs _ ih =>
    rcases hs with rfl | rfl <;>
    · rw [List.map_cons, List.filter_cons_of_neg (by decide), List.length_cons, List.length_cons]
      omega
  | entry _ _ hs _ ih | deeper _ hs _ ih =>
    rw [List.map_cons, List.filter_cons_of_pos hs.isStep]
    simp only [List.length_cons] at ih ⊢
    omega
  | skip _ _ _ ih =>
    simp only [List.length_cons] at ih ⊢
    omega

theorem not_isEntry_of_stays (h : s = "" ∨ s = ".") : ¬ IsEntry s := by
  rintro ⟨-, hstep, -⟩
  rcases h with rfl | rfl <;> revert hstep <;> decide

/-- One recursive name before another one stands for nothing more. -/
theorem Fits.cons_recursive {ts next : List Token} (hrec : isRecursive ts = true)
    (hnext : isRecursive next = true) (h : Fits (next :: more) rel) :
    Fits (ts :: next :: more) rel := by
  cases h with
  | stay hs hrest => simp [isRecursive_of_literal] at hnext
  | entry hnot _ _ _ => simp [hnext] at hnot
  | deeper _ hs hrest => exact .skip hrec hs (.deeper hnext hs hrest)
  | skip _ hs hrest => exact .skip hrec hs (.skip hnext hs hrest)

/-- What fits behind `**` is found from the entry on, or it also fits from the entry on. -/
theorem mem_matchHere (hs : IsEntry s) (hfits : Fits more (s :: rel))
    (hfound : ∀ names, Fits names rel → file ∈ matchesBelow d fuel names (p / s)) :
    file ∈ matchHere d (matchesBelow d fuel) more (p / s) ∨
      ∃ ts rest, more = ts :: rest ∧ isRecursive ts = true ∧ Fits more rel := by
  induction more with
  | nil => cases hfits
  | cons next rest ih =>
    rw [matchHere]
    cases hfits with
    | stay hstays _ => exact absurd hs (not_isEntry_of_stays hstays)
    | entry hrec hname _ hrest =>
      left
      rw [if_neg (by simp [hrec]), if_pos (by rwa [fileNameShown_of_isEntry p hs])]
      exact hfound rest hrest
    | deeper hrec _ hrest => exact .inr ⟨next, rest, rfl, hrec, hrest⟩
    | skip hrec _ hrest =>
      rw [if_pos hrec]
      refine (ih hrest).imp_right ?_
      rintro ⟨ts, more, rfl, hts, hfits⟩
      exact ⟨next, ts :: more, rfl, hrec, hfits.cons_recursive hrec hts⟩

/-- The last segment is an entry. -/
def EndsInEntry (rel : List String) : Prop := ∀ s, rel.getLast? = some s → IsEntry s

theorem EndsInEntry.tail (h : EndsInEntry (s :: rel)) : EndsInEntry rel := by
  intro t ht
  refine h t ?_
  cases rel with
  | nil => cases ht
  | cons u rel => exact ht

theorem EndsInEntry.exists_isStep (h : EndsInEntry rel) (hne : rel ≠ []) :
    ∃ s ∈ rel, Path.isStep (Text.ofChars s.toList) = true :=
  ⟨_, List.getLast_mem hne, (h _ (List.getLast?_eq_some_getLast hne)).isStep⟩

/-- Where a pattern ends in a name that stands for itself, what fits ends in it. -/
theorem Fits.getLast? (h : Fits names rel) (hs : IsEntry s)
    (hlast : names.getLast? = some (s.toList.map .char)) : rel.getLast? = some s := by
  -- behind a segment that uses up a name the rest of the pattern decides, unless nothing is left
  have hcons {t : String} {rest : List String} {more : List (List Token)} (hfits : Fits more rest)
      (ih : more.getLast? = some (s.toList.map .char) → rest.getLast? = some s) (hne : more ≠ [])
      {ts : List Token} (h : (ts :: more).getLast? = some (s.toList.map .char)) :
      (t :: rest).getLast? = some s := by
    obtain ⟨next, more, rfl⟩ := List.exists_cons_of_ne_nil hne
    rw [List.getLast?_cons_cons] at h
    rw [List.getLast?_cons_of_ne_nil hfits.ne_nil]
    exact ih h
  induction h with
  | nil => cases hlast
  | @stay more rel t ht hrest ih =>
    by_cases hmore : more = []
    · subst hmore
      exact absurd (eq_of_literal (Option.some.inj hlast) ▸ hs) (not_isEntry_of_stays ht)
    · exact hcons hrest ih hmore hlast
  | @entry ts more t rel _ hname _ hrest ih =>
    by_cases hmore : more = []
    · subst hmore
      obtain rfl := Option.some.inj hlast
      cases hrest
      rw [eq_of_matchesName hname]
      rfl
    · exact hcons hrest ih hmore hlast
  | deeper _ _ hrest ih =>
    rw [List.getLast?_cons_of_ne_nil hrest.ne_nil]
    exact ih hlast
  | @skip ts more t rel hrec _ hrest ih =>
    refine ih ?_
    cases more with
    | nil => cases hrest
    | cons next more => rwa [List.getLast?_cons_cons] at hlast

theorem Fits.endsInEntry (h : Fits names rel) (hs : IsEntry s)
    (hlast : names.getLast? = some (s.toList.map .char)) : EndsInEntry rel := by
  intro t ht
  rw [h.getLast? hs hlast] at ht
  exact Option.some.inj ht ▸ hs

theorem Fits.leadsDown (h : Fits names rel) (hs : IsEntry s)
    (hlast : names.getLast? = some (s.toList.map .char)) : Path.LeadsDown rel := by
  refine ⟨h.isSegment, ?_, s, h.getLast? hs hlast, hs.isStep⟩
  clear hlast
  induction h with
  | nil => simp
  | stay hstays _ ih =>
    rcases hstays with rfl | rfl <;> exact List.forall_mem_cons.mpr ⟨by decide, ih⟩
  | entry _ _ ht _ ih | deeper _ ht _ ih => exact List.forall_mem_cons.mpr ⟨ht.notUp, ih⟩
  | skip _ _ _ ih => exact ih

section Found

variable {l : Location}

/-- On the way to what ends in an entry each segment stands where it is asked for. -/
theorem stands_of_below (hp : p.isAbsolute = true) (hsegments : ∀ t ∈ s :: rel, Path.IsSegment t)
    (hend : EndsInEntry (s :: rel)) (hl : d.locate (p.below (s :: rel)) = .ok l) :
    stands d p s = true := by
  have hhas : d.has (p / s) = true := by
    by_cases hrel : rel = []
    · subst hrel
      exact Disk.has_of_locate hl
    · obtain ⟨m, hm, -⟩ := Disk.directory_of_below (Path.isAbsolute_join_base _ hp)
        (fun t ht => hsegments t (List.mem_cons_of_mem _ ht)) hl
        (.inl (hend.tail.exists_isStep hrel))
      exact Disk.has_of_locate hm
  unfold stands
  rw [show (d.stat (p / s)).isOk = true from hhas, Bool.true_or]

/-- **What fits and is there is found.** -/
theorem mem_matchesBelow (hfits : Fits names rel) (hp : p.isAbsolute = true)
    (hend : EndsInEntry rel) (hl : d.locate (p.below rel) = .ok l) (hfuel : rel.length < fuel) :
    p.below rel ∈ matchesBelow d fuel names p := by
  induction rel generalizing names p fuel with
  | nil =>
    obtain ⟨fuel, rfl⟩ : ∃ n, fuel = n + 1 := ⟨fuel - 1, by omega⟩
    cases hfits
    rw [matchesBelow]
    exact List.mem_singleton_self _
  | cons s rel ih =>
    obtain ⟨fuel, rfl⟩ : ∃ n, fuel = n + 1 := ⟨fuel - 1, by omega⟩
    have hsegments := hfits.isSegment
    have htail : ∀ t ∈ rel, Path.IsSegment t := fun t ht => hsegments t (List.mem_cons_of_mem _ ht)
    have hp' : (p / s).isAbsolute = true := Path.isAbsolute_join_base _ hp
    have hfound (names : List (List Token)) (h : Fits names rel) :
        p.below (s :: rel) ∈ matchesBelow d fuel names (p / s) :=
      ih h hp' hend.tail hl (by simpa using hfuel)
    have hstands := stands_of_below hp hsegments hend hl
    have hchild (hs : IsEntry s) : (s, p / s) ∈ children d p := by
      obtain ⟨m, hm, hd, hsome⟩ := Disk.entry_of_below hp hsegments hs.isStep hs.notUp hl
      obtain ⟨n, hn⟩ := Option.isSome_iff_exists.mp hsome
      exact mem_children hm hd hn
    have hdeeper {ts : List Token} {more : List (List Token)} (hrest : Fits (ts :: more) rel) :
        d.isDirectory (p / s) = true := by
      obtain ⟨m, hm, hd⟩ := Disk.directory_of_below hp' htail hl
        (.inl (hend.tail.exists_isStep hrest.ne_nil))
      exact Disk.isDirectory_of_locate hm hd
    cases hfits with
    | stay hs hrest =>
      obtain ⟨m, hm, hd⟩ := Disk.directory_of_below hp hsegments hl
        (.inl (hend.exists_isStep (by simp)))
      have hpasses : passes d p s = true := by
        rw [passes, hstands, Disk.isDirectory_of_locate hm hd, ite_self]
      rw [matchesBelow_literal, if_pos hpasses]
      exact hfound _ hrest
    | @entry ts more _ _ hrec hname hs hrest =>
      cases hplain : plain? ts with
      | some t =>
        obtain rfl := plain?_eq_some_iff.mp hplain
        obtain rfl : s = t := eq_of_matchesName hname
        have hstays : ¬ (s = "." ∨ s = "..") := by
          rintro (rfl | rfl)
          · exact not_isEntry_of_stays (.inr rfl) hs
          · exact hs.notUp rfl
        rw [matchesBelow_literal, passes, if_neg hstays, if_pos hstands]
        exact hfound _ hrest
      | none =>
        rw [matchesBelow]
        simp only [hplain]
        rw [if_neg (by simp [hrec])]
        refine List.mem_append_left _ (List.mem_flatMap.mpr ⟨_, hchild hs, ?_⟩)
        rw [if_pos hname]
        exact hfound _ hrest
    | @deeper ts more _ _ hrec hs hrest =>
      rw [matchesBelow]
      simp only [plain?_of_isRecursive hrec, hrec, if_true]
      refine List.mem_flatMap.mpr ⟨_, hchild hs, List.mem_append_left _ ?_⟩
      rw [if_pos (hdeeper hrest)]
      exact hfound _ hrest
    | @skip ts more _ _ hrec hs hrest =>
      rw [matchesBelow]
      simp only [plain?_of_isRecursive hrec, hrec, if_true]
      refine List.mem_flatMap.mpr ⟨_, hchild hs, ?_⟩
      rcases mem_matchHere hs hrest hfound with hhere | ⟨next, rest, rfl, hnext, hmore⟩
      · exact List.mem_append_right _ hhere
      · have hboth := hmore.cons_recursive hrec hnext
        rw [if_pos (hdeeper hboth)]
        exact List.mem_append_left _ (hfound _ hboth)

end Found

/-- What fits and is there has no more segments than a search takes steps. -/
theorem Fits.length_lt {l : Location} (h : Fits names rel) (hp : p.isAbsolute = true)
    (hl : d.locate (p.below rel) = .ok l) : rel.length < names.length + Disk.pathLimit + 1 := by
  have hbytes := Disk.length_le_byteCount (Disk.isEmpty_of_isAbsolute hp) h.isSegment
  have hlimit := (Disk.refusal?_eq_none_iff.mp (Disk.of_locate hl).1).2.2
  have hlength := h.length_le
  omega

/-! ## Behind a root -/

section Root

variable {root : Path} {segments parts : List String} {r : Location}

/-- The text of a path is all characters, and all of them stand for themselves in a pattern. -/
def IsLiteral (p : Path) : Prop := ∃ cs, p.glyphs = Text.ofChars cs ∧ ∀ c ∈ cs, c ∉ special

/-- Literal names are followed to the directory that they lead to. -/
theorem matchesBelow_segments (hp : p.isAbsolute = true)
    (hsegments : ∀ s ∈ segments, Path.IsSegment s) (hl : d.locate (p.below segments) = .ok r)
    (hd : d.node? r = some .directory) :
    matchesBelow d (segments.length + fuel)
        (segments.map (fun s => s.toList.map .char) ++ names) p =
      matchesBelow d fuel names (p.below segments) := by
  induction segments generalizing p with
  | nil => rw [List.length_nil, Nat.zero_add]; rfl
  | cons s rest ih =>
    have hrest : ∀ t ∈ rest, Path.IsSegment t := fun t ht => hsegments t (List.mem_cons_of_mem _ ht)
    have hp' : (p / s).isAbsolute = true := Path.isAbsolute_join_base _ hp
    obtain ⟨m, hm, hmd⟩ := Disk.directory_of_below hp hsegments hl (.inr hd)
    obtain ⟨m', hm', -⟩ := Disk.directory_of_below hp' hrest hl (.inr hd)
    have hpasses : passes d p s = true := by
      have hhas : d.has (p / s) = true := Disk.has_of_locate hm'
      rw [passes, Disk.isDirectory_of_locate hm hmd, stands,
        show (d.stat (p / s)).isOk = true from hhas, Bool.true_or, ite_self]
    have hfuel : (s :: rest).length + fuel = rest.length + fuel + 1 := by
      rw [List.length_cons]
      omega
    rw [hfuel, List.map_cons, List.cons_append, matchesBelow_literal, if_pos hpasses]
    exact ih hp' hrest hl

/-- The names of a pattern behind a literal root are those of the root and those of the pattern. -/
theorem names?_below (hroot : root.Spelled segments) (hliteral : IsLiteral root)
    (hparts : ∀ s ∈ parts, (Path.ofString s).isAbsolute = false) (hne : parts ≠ []) :
    names? (root.below parts).shown =
      (names? (Path.top.below parts).shown).map
        (segments.map (fun s => s.toList.map .char) ++ ·) := by
  obtain ⟨cs, hcs, hspecial⟩ := hliteral
  obtain ⟨rest, hrest⟩ := Path.glyphs_below_top parts
  have hglyphs : (root.below parts).glyphs =
      Text.ofChars ((segments.map String.toList).flatMap ('/' :: ·) ++ '/' :: rest) := by
    rw [Path.glyphs_below (Disk.isEmpty_of_isAbsolute hroot.isAbsolute) hparts hne, hroot.trunk,
      hrest]
    simp [Text.ofChars, List.map_flatMap, List.flatMap_map, Path.separator]
  have hfree : ∀ s ∈ segments.map String.toList, '/' ∉ s := by
    refine List.forall_mem_map.mpr fun s hs => ?_
    have hsegment := hroot.isSegment s hs
    simpa [Path.IsSegment, Path.separator, Text.ofChars] using hsegment
  have hchars : ∀ s ∈ segments.map String.toList, ∀ c ∈ s, c ∉ special := by
    refine List.forall_mem_map.mpr fun s hs c hc => hspecial c ?_
    have htrunk : Text.Glyph.char c ∈ root.trunk := by
      rw [hroot.trunk]
      exact List.mem_flatMap.mpr ⟨s, hs, List.mem_cons_of_mem _ (List.mem_map_of_mem hc)⟩
    have hmem := (Path.trunk_isPrefix root).subset htrunk
    rw [hcs] at hmem
    simpa [Text.ofChars] using hmem
  rw [Path.shown, Path.shown, hglyphs, hrest, Text.shown_ofChars, Text.shown_ofChars,
    names?_append hfree hchars, List.map_map]
  rfl

/-- **A search behind a literal root** is the search for the pattern in the directory of the
root. -/
theorem paths_below (hroot : root.Spelled segments) (hliteral : IsLiteral root)
    (hparts : ∀ s ∈ parts, (Path.ofString s).isAbsolute = false) (hne : parts ≠ [])
    (hl : d.locate (Path.top.below segments) = .ok r) (hd : d.node? r = some .directory) :
    paths d (root.below parts).shown =
      ((names? (Path.top.below parts).shown).map fun names =>
        matchesBelow d (names.length + Disk.pathLimit + 1) names
          (Path.top.below segments)).getD [] := by
  rw [paths, names?_below hroot hliteral hparts hne]
  cases names? (Path.top.below parts).shown with
  | none => rfl
  | some names =>
    have hfuel : (segments.map (fun s => s.toList.map Token.char) ++ names).length +
        Disk.pathLimit + 1 = segments.length + (names.length + Disk.pathLimit + 1) := by
      rw [List.length_append, List.length_map]
      omega
    simp only [Option.map_some, Option.getD_some, hfuel]
    exact matchesBelow_segments (by decide) hroot.isSegment hl hd

end Root

end ComponentRegistry.Glob
