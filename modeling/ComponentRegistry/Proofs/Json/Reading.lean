import ComponentRegistry.Proofs.Json.Grammar
import ComponentRegistry.Proofs.Json.Scalars

/-!
# Reading the texts of values

A text of a value's tokens, with blanks between them, is read as the value if its containers nest no
deeper than the reader allows, and is refused as nested too deep otherwise (`parse_of_spaced`).  The
induction is on the way the tokens write the value; what it says of each reader is an `Answers`.
-/

namespace ComponentRegistry.Json

open Reader

variable {α β : Type} {c c' : Cursor} {ch : Char} {g s k text : List Char} {v : Json} {n : Nat}
  {t : Token} {ts us : List Token} {φ : Phrase}

/-! ## Blanks -/

theorem rest_skipBlanks (c : Cursor) : c.skipBlanks.rest = c.rest.dropWhile isSpace := by
  have hfrom : ∀ (l : List Char) (line column : Nat),
      (Cursor.skipBlanksFrom l line column).rest = l.dropWhile isSpace := by
    intro l line column
    fun_induction Cursor.skipBlanksFrom l line column with
    | case1 line column r ih => rw [ih, List.dropWhile_cons_of_pos (by decide)]
    | case2 line column r ih => rw [ih, List.dropWhile_cons_of_pos (by decide)]
    | case3 line column r ih => rw [ih, List.dropWhile_cons_of_pos (by decide)]
    | case4 line column r ih => rw [ih, List.dropWhile_cons_of_pos (by decide)]
    | case5 rest line column hspace htab hreturn hfeed =>
      cases rest with
      | nil => rfl
      | cons x rest =>
        rw [List.dropWhile_cons_of_neg]
        simp only [isSpace, Bool.or_eq_true, decide_eq_true_eq, not_or]
        exact ⟨⟨⟨fun h => hspace rest (by rw [h]), fun h => htab rest (by rw [h])⟩,
          fun h => hreturn rest (by rw [h])⟩, fun h => hfeed rest (by rw [h])⟩
  exact hfrom ..

theorem peekValue_bind_run (f : Option Char → Reader β) (c : Cursor) :
    (peekValue? >>= f).run c = (f c.skipBlanks.rest.head?).run c.skipBlanks := rfl

theorem dropWhile_blanks (hg : Blanks g) (hch : isSpace ch = false) (k : List Char) :
    (g ++ ch :: k).dropWhile isSpace = ch :: k := by
  rw [List.dropWhile_append_of_pos hg, List.dropWhile_cons_of_neg (by simp [hch])]

theorem rest_skipBlanks_of (hg : Blanks g) (hch : isSpace ch = false) (hc : c.rest = g ++ ch :: k) :
    c.skipBlanks.rest = ch :: k := by
  rw [rest_skipBlanks, hc, dropWhile_blanks hg hch]

/-- Behind the blanks the next character is looked at. -/
theorem peekValue_bind_run_of (hg : Blanks g) (hch : isSpace ch = false) (hc : c.rest = g ++ ch :: k)
    (f : Option Char → Reader β) : (peekValue? >>= f).run c = (f (some ch)).run c.skipBlanks := by
  rw [peekValue_bind_run, rest_skipBlanks_of hg hch hc]
  rfl

theorem blanks_nil : Blanks [] := by simp [Blanks]

/-! ## Literals -/

theorem isBlank_of_isSpace (h : isSpace ch = true) : Text.isBlank ch = true := by
  simp only [isSpace, Bool.or_eq_true, decide_eq_true_eq] at h
  rcases h with ((rfl | rfl) | rfl) | rfl
  all_goals decide

/-- A trimmed text begins and ends with no blank. -/
theorem of_trim (h : Text.trim text = text) :
    (∀ x ∈ text.head?, Text.isBlank x = false) ∧ ∀ x ∈ text.getLast?, Text.isBlank x = false := by
  have hstart : Text.trimStart text <:+ text := List.dropWhile_suffix _
  have hend : Text.trimStart (Text.trimStart text).reverse <:+ (Text.trimStart text).reverse :=
    List.dropWhile_suffix _
  have hlength : text.length = (Text.trimStart (Text.trimStart text).reverse).length := by
    conv_lhs => rw [← h]
    exact List.length_reverse
  have hle := hstart.length_le
  have hle' := hend.length_le
  rw [List.length_reverse] at hle'
  have hfirst : Text.trimStart text = text := hstart.eq_of_length (by omega)
  have hlast : Text.trimStart text.reverse = text.reverse := by
    rw [hfirst] at hend hlength
    exact hend.eq_of_length (by rw [List.length_reverse]; exact hlength.symm)
  have hhead : ∀ l : List Char, Text.trimStart l = l → ∀ x ∈ l.head?, Text.isBlank x = false := by
    intro l hl x hx
    have := List.head?_dropWhile_not Text.isBlank l
    rw [show l.dropWhile Text.isBlank = l from hl, Option.mem_def.mp hx] at this
    simpa using this
  refine ⟨hhead _ hfirst, ?_⟩
  rw [← List.head?_reverse]
  exact hhead _ hlast

theorem blanks_iff : Blanks s ↔ s.dropWhile isSpace = [] := by
  rw [List.dropWhile_eq_nil_iff]
  rfl

theorem parse_eq_ok_iff {str : String} : parse str = .ok v ↔
    ∃ c', (value nestingLimit).run (Cursor.start str.toList) = .ok (v, c') ∧ Blanks c'.rest := by
  have hfinish : ∀ {c c' : Cursor}, finish.run c = .ok ((), c') → Blanks c.rest := by
    intro c c' h
    unfold finish at h
    rw [peekValue_bind_run] at h
    split at h
    · next hnone =>
      rw [blanks_iff, ← rest_skipBlanks]
      exact List.head?_eq_none_iff.mp hnone
    · cases h
  have hfinished : ∀ {c : Cursor}, Blanks c.rest → finish.run c = .ok ((), c.skipBlanks) := by
    intro c h
    unfold finish
    rw [peekValue_bind_run, rest_skipBlanks, blanks_iff.mp h]
    rfl
  unfold parse readAll
  constructor
  · intro h
    cases hrun : (do let a ← value nestingLimit; finish; return a : Reader Json).run
        (Cursor.start str.toList) with
    | error f => rw [hrun] at h; cases h
    | ok y =>
      rw [hrun] at h
      obtain ⟨w, c₁, hvalue, hrest⟩ := bind_run_ok.mp hrun
      obtain ⟨u, c₂, hend, hpure⟩ := bind_run_ok.mp hrest
      cases hpure
      cases h
      exact ⟨c₁, hvalue, hfinish hend⟩
  · rintro ⟨c', hvalue, hblanks⟩
    have hrun : (do let a ← value nestingLimit; finish; return a : Reader Json).run
        (Cursor.start str.toList) = .ok (v, c'.skipBlanks) :=
      bind_run_ok.mpr ⟨v, c', hvalue, bind_run_ok.mpr ⟨(), _, hfinished hblanks, rfl⟩⟩
    rw [hrun]
    rfl

/-! ## One value -/

/-- The elements of a list, its bracket next. -/
def listAt (depth : Nat) : Reader Json := do
  take
  return .array (← items (value depth) (← roomForItems) true [])

/-- A member behind its key. -/
def memberAt (depth : Nat) (acc : List (String × Json)) (key : String) :
    Reader (List (String × Json)) := do
  colon
  return insertEntry key (← value depth) acc

/-- The members of an object, its brace next. -/
def objectAt (depth : Nat) : Reader Json := do
  take
  return .object (← members (memberAt depth) (← roomForItems) true [])

/-- The next character decides how a value is read. -/
theorem value_run (depth : Nat) (hg : Blanks g) (hch : isSpace ch = false)
    (hc : c.rest = g ++ ch :: k) : (value (depth + 1)).run c =
      (if ch = '[' then nested (depth + 1) (listAt depth)
        else if ch = '\x7b' then nested (depth + 1) (objectAt depth)
        else scalar ch).run c.skipBlanks := by
  unfold value
  rw [peekValue_bind_run_of hg hch hc]
  split
  · next h => cases h
  · next h => cases h; rfl
  · next h => cases h; rfl
  · next x hlist hobject h =>
    cases h
    rw [if_neg hlist, if_neg hobject]

theorem nested_run {depth : Nat} (body : Reader α) (c : Cursor) :
    (nested (depth + 1) body).run c =
      if depth = 0 then .error (c.faultNext .nestedTooDeep) else body.run c := by
  unfold nested
  by_cases h : depth = 0
  · rw [if_pos h, if_pos (by omega)]
    rfl
  · rw [if_neg h, if_neg (by omega)]

theorem listAt_run_ne_number {depth : Nat} {m : JsonNumber} :
    (listAt depth).run c ≠ .ok (.number m, c') := by
  intro h
  unfold listAt at h
  rw [take_bind_run] at h
  obtain ⟨room, c₁, -, h⟩ := bind_run_ok.mp h
  obtain ⟨vs, c₂, -, h⟩ := bind_run_ok.mp h
  cases h

theorem objectAt_run_ne_number {depth : Nat} {m : JsonNumber} :
    (objectAt depth).run c ≠ .ok (.number m, c') := by
  intro h
  unfold objectAt at h
  rw [take_bind_run] at h
  obtain ⟨room, c₁, -, h⟩ := bind_run_ok.mp h
  obtain ⟨ms, c₂, -, h⟩ := bind_run_ok.mp h
  cases h

/-- A scalar begins with a quote, a letter, a digit or a sign. -/
theorem Reader.Solid.first (h : Solid (ch :: s)) :
    isSpace ch = false ∧ ch ≠ '[' ∧ ch ≠ '\x7b' ∧ ch ≠ ']' := by
  cases h with
  | plain hplain =>
    have hch := hplain ch (List.mem_cons_self ..)
    have hne : ∀ x, isPlain x = false → ch ≠ x := by
      rintro x hx rfl
      rw [hx] at hch
      cases hch
    refine ⟨?_, hne _ (by decide), hne _ (by decide), hne _ (by decide)⟩
    simp [isSpace, hne ' ' (by decide), hne '\t' (by decide), hne '\r' (by decide),
      hne '\n' (by decide)]
  | string _ => decide

/-- The text of a number, which the reader takes wherever it stands. -/
theorem of_number_text {m : JsonNumber} (hreads : parse (String.ofList text) = .ok (.number m))
    (htight : Text.trim text = text) : ∃ ch s, text = ch :: s ∧
      (∀ x ∈ ch :: s, isPlain x = true) ∧ Takes (scalar ch) (ch :: s) (.number m) goesOn := by
  obtain ⟨hhead, hlast⟩ := of_trim htight
  obtain ⟨c', hvalue, hblanks⟩ := parse_eq_ok_iff.mp hreads
  rw [String.toList_ofList] at hvalue
  cases text with
  | nil => cases hvalue
  | cons ch l =>
    have hspace : isSpace ch = false := by
      by_contra hne
      have := hhead ch rfl
      rw [isBlank_of_isSpace (by simpa using hne)] at this
      cases this
    have hstart : (Cursor.start (ch :: l)).rest = [] ++ ch :: l := rfl
    rw [show nestingLimit = 127 + 1 from rfl, value_run 127 blanks_nil hspace hstart] at hvalue
    split_ifs at hvalue with hlist hobject
    · rw [nested_run, if_neg (by decide)] at hvalue
      exact absurd hvalue listAt_run_ne_number
    · rw [nested_run, if_neg (by decide)] at hvalue
      exact absurd hvalue objectAt_run_ne_number
    · obtain ⟨s, hs, hplain, htakes⟩ :=
        of_scalar_number (rest_skipBlanks_of blanks_nil hspace hstart) hvalue
      -- blanks at the end are not part of the number, and there are none
      have hnil : c'.rest = [] := by
        by_contra hne
        obtain ⟨x, hx⟩ : ∃ x, c'.rest.getLast? = some x := ⟨_, List.getLast?_eq_some_getLast hne⟩
        have hend : (ch :: l).getLast? = some x := by
          rw [hs, ← List.cons_append, List.getLast?_append_of_ne_nil _ hne, hx]
        have := hlast x hend
        rw [isBlank_of_isSpace (hblanks x (List.mem_of_getLast? hx))] at this
        cases this
      rw [hnil, List.append_nil] at hs
      exact ⟨ch, s, by rw [hs], hplain, htakes⟩

/-- **What a literal writes is read wherever it stands.** -/
theorem of_literal (h : Literal text v) :
    ∃ ch s, text = ch :: s ∧ Solid (ch :: s) ∧ Takes (scalar ch) (ch :: s) v goesOn := by
  cases h with
  | null => exact ⟨'n', "ull".toList, rfl, .plain (List.all_eq_true.mp rfl), takes_scalar_word rfl⟩
  | true => exact ⟨'t', "rue".toList, rfl, .plain (List.all_eq_true.mp rfl), takes_scalar_word rfl⟩
  | false => exact ⟨'f', "alse".toList, rfl, .plain (List.all_eq_true.mp rfl), takes_scalar_word rfl⟩
  | number hreads htight =>
    obtain ⟨ch, s, rfl, hplain, htakes⟩ := of_number_text hreads htight
    exact ⟨ch, s, rfl, .plain hplain, htakes⟩
  | string h =>
    exact ⟨'"', _, rfl, .string (stringRest_of_spells h), ((takes_string h).any _).return⟩

/-! ## Phrases -/

/-- If the depth suffices, the reader yields the value and leaves `k`, and otherwise it refuses the
text as nested too deep. -/
structure Answers (r : Reader α) (c : Cursor) (fits : Prop) (a : α) (k : List Char) : Prop where
  reads : fits → ∃ c', r.run c = .ok (a, c') ∧ c'.rest = k
  refuses : ¬ fits → ∃ f, r.run c = .error f ∧ f.cause = .nestedTooDeep

section Answers

variable {r x : Reader α} {f : α → Reader β} {a : α} {b : β} {k' : List Char} {p q : Prop}

theorem answers_of_ok (h : ∃ c', r.run c = .ok (a, c') ∧ c'.rest = k) : Answers r c True a k :=
  ⟨fun _ => h, fun hn => absurd trivial hn⟩

theorem Answers.bind (hx : Answers x c p a k) (hf : ∀ c', c'.rest = k → Answers (f a) c' q b k') :
    Answers (x >>= f) c (p ∧ q) b k' := by
  constructor
  · rintro ⟨hp, hq⟩
    obtain ⟨c₁, hrun, hrest⟩ := hx.reads hp
    obtain ⟨c₂, hrun', hrest'⟩ := (hf c₁ hrest).reads hq
    exact ⟨c₂, bind_run_ok.mpr ⟨a, c₁, hrun, hrun'⟩, hrest'⟩
  · intro hn
    by_cases hp : p
    · obtain ⟨c₁, hrun, hrest⟩ := hx.reads hp
      obtain ⟨e, herror, hcause⟩ := (hf c₁ hrest).refuses fun hq => hn ⟨hp, hq⟩
      refine ⟨e, ?_, hcause⟩
      rw [StateT.run_bind, hrun]
      exact herror
    · obtain ⟨e, herror, hcause⟩ := hx.refuses hp
      refine ⟨e, ?_, hcause⟩
      rw [StateT.run_bind, herror]
      rfl

theorem Answers.return {g : α → β} (hx : Answers x c p a k) :
    Answers (do return g (← x)) c p (g a) k := by
  have := hx.bind (f := fun a => pure (g a)) fun c' hc' => answers_of_ok ⟨c', rfl, hc'⟩
  rwa [and_true] at this

theorem Answers.of_run {r' : Reader α} (h : r'.run c' = r.run c) (hr : Answers r c p a k) :
    Answers r' c' p a k :=
  ⟨fun hp => h ▸ hr.reads hp, fun hp => h ▸ hr.refuses hp⟩

end Answers

/-! ### Tokens that readers can tell -/

/-- A literal is a string, or it has no character that means anything by itself. -/
def Token.Clean : Token → Prop
  | .literal text => Solid text
  | _ => True

theorem Token.Clean.text_ne_nil (ht : t.Clean) : t.text ≠ [] := by
  cases t with
  | literal text =>
    cases ht with
    | plain _ => exact List.cons_ne_nil _ _
    | string _ => exact List.cons_ne_nil _ _
  | _ => exact List.cons_ne_nil _ _

theorem Writes.clean (h : Writes n φ ts) : ∀ t ∈ ts, t.Clean := by
  have hliteral : ∀ {text v}, Literal text v → (Token.literal text).Clean := by
    intro text v hlit
    obtain ⟨ch, s, rfl, hsolid, -⟩ := of_literal hlit
    exact hsolid
  have hother : ∀ t : Token, (∀ text, t ≠ .literal text) → t.Clean := by
    intro t ht
    cases t with
    | literal text => exact absurd rfl (ht text)
    | _ => trivial
  induction h with
  | literal hlit => simpa using hliteral hlit
  | emptyList | emptyObject => simp [Token.Clean]
  | list _ ih | object _ ih => simpa [Token.Clean, or_imp, forall_and] using ih
  | item _ ih => exact ih
  | items _ _ ih ih' => simpa [hother, or_imp, forall_and] using ⟨ih, ih'⟩
  | member hlit _ ih => simpa [hother, or_imp, forall_and] using ⟨hliteral hlit, ih⟩
  | members hlit _ _ ih ih' => simpa [hother, or_imp, forall_and] using ⟨hliteral hlit, ih, ih'⟩

/-! ### Where tokens begin -/

/-- The first character of values and keys. -/
theorem Writes.first (h : Writes n φ ts) : ∃ t rest ch l, ts = t :: rest ∧ t.text = ch :: l ∧
    isSpace ch = false ∧ ch ≠ ']' := by
  obtain ⟨t, rest, rfl, hopens | ⟨text, v, rfl, hlit⟩⟩ := h.head
  · cases t with
    | listStart | objectStart => exact ⟨_, _, _, _, rfl, rfl, by decide, by decide⟩
    | listEnd | objectEnd | colon | comma | literal _ => cases hopens
  · obtain ⟨ch, s, rfl, hsolid, -⟩ := of_literal hlit
    obtain ⟨hspace, -, -, hch⟩ := hsolid.first
    exact ⟨_, _, ch, s, rfl, rfl, hspace, hch⟩

/-- Laid out tokens begin behind blanks. -/
theorem Laid.first {l : List Char} (h : Laid Blanks (t :: ts) s) (ht : t.text = ch :: l) :
    ∃ g rest, s = g ++ ch :: rest ∧ Blanks g ∧ Laid Blanks (t :: ts) (ch :: rest) := by
  obtain ⟨g, rest, rfl, hg, hrest⟩ := h.of_cons
  refine ⟨g, l ++ rest, by rw [ht]; rfl, hg, ?_⟩
  have := Laid.cons (t := t) blanks_nil hrest
  rwa [ht] at this

theorem ends_blanks (hg : Blanks g) (hk : Ends goesOn k) : Ends goesOn (g ++ k) := by
  cases g with
  | nil => exact hk
  | cons x g =>
    refine ends_cons.mpr ?_
    have hx := hg x (List.mem_cons_self ..)
    simp only [isSpace, Bool.or_eq_true, decide_eq_true_eq] at hx
    rcases hx with ((rfl | rfl) | rfl) | rfl
    all_goals decide

/-- No number goes on with what stands between the parts of a container. -/
theorem ends_of_blanks (hg : Blanks g) (hch : goesOn ch = false) (k : List Char) :
    Ends goesOn (g ++ ch :: k) :=
  ends_blanks hg (ends_cons.mpr hch)

/-- Members begin with a quote. -/
theorem Writes.first_member {ms : List (String × Json)} (h : Writes n (.members ms) ts) :
    ∃ t rest l, ts = t :: rest ∧ t.text = '"' :: l := by
  have hkey : ∀ {text key}, Literal text (.string key) → ∃ l, text = '"' :: l := by
    intro text key hlit
    cases hlit with
    | string _ => exact ⟨_, rfl⟩
  cases h with
  | member hlit _ =>
    obtain ⟨l, hl⟩ := hkey hlit
    exact ⟨_, _, l, rfl, hl⟩
  | members hlit _ _ =>
    obtain ⟨l, hl⟩ := hkey hlit
    exact ⟨_, _, l, rfl, hl⟩

/-! ### Lists -/

theorem moreItems_end (first : Bool) (hg : Blanks g) (hc : c.rest = g ++ ']' :: k) :
    (moreItems first).run c = .ok (false, c.skipBlanks) := by
  unfold moreItems
  rw [peekValue_bind_run_of hg (by decide) hc]
  rfl

theorem moreItems_first (hg : Blanks g) (hspace : isSpace ch = false) (hch : ch ≠ ']')
    (hc : c.rest = g ++ ch :: k) : (moreItems true).run c = .ok (true, c.skipBlanks) := by
  unfold moreItems
  rw [peekValue_bind_run_of hg hspace hc]
  split
  · next h => cases h
  · next h => exact absurd (Option.some.inj h) hch
  · rfl

theorem moreItems_next {g' : List Char} (hg : Blanks g) (hg' : Blanks g') (hspace : isSpace ch = false)
    (hch : ch ≠ ']') (hc : c.rest = g ++ ',' :: (g' ++ ch :: k)) :
    ∃ c', (moreItems false).run c = .ok (true, c') ∧ c'.rest = ch :: k := by
  have hnext : c.skipBlanks.next.rest = g' ++ ch :: k :=
    rest_next (rest_skipBlanks_of hg (by decide) hc)
  refine ⟨c.skipBlanks.next.skipBlanks, ?_, rest_skipBlanks_of hg' hspace hnext⟩
  unfold moreItems
  rw [peekValue_bind_run_of hg (by decide) hc]
  show (take >>= fun _ => peekValue? >>= _).run c.skipBlanks = _
  rw [take_bind_run, peekValue_bind_run_of hg' hspace hnext]
  split
  · next h => exact absurd (Option.some.inj h) hch
  · rfl
  · next h => cases h

theorem items_end {item : Reader α} {fuel : Nat} {first : Bool} {acc : List α} (hfuel : 0 < fuel)
    (hg : Blanks g) (hc : c.rest = g ++ ']' :: k) :
    ∃ c', (items item fuel first acc).run c = .ok (acc.reverse, c') ∧ c'.rest = k := by
  obtain ⟨fuel, rfl⟩ := Nat.exists_eq_succ_of_ne_zero hfuel.ne'
  refine ⟨c.skipBlanks.next, ?_, rest_next (rest_skipBlanks_of hg (by decide) hc)⟩
  unfold items
  exact bind_run_ok.mpr ⟨false, _, moreItems_end first hg hc, rfl⟩

/-- The reader of a list goes on with an element. -/
theorem items_run {item : Reader α} {fuel : Nat} {first : Bool} {acc : List α}
    (h : (moreItems first).run c = .ok (true, c')) :
    (items item (fuel + 1) first acc).run c =
      (do items item fuel false ((← item) :: acc) : Reader (List α)).run c' := by
  rw [items, StateT.run_bind, h]
  rfl

/-! ### Objects -/

theorem moreMembers_end (first : Bool) (hg : Blanks g) (hc : c.rest = g ++ '\x7d' :: k) :
    (moreMembers first).run c = .ok (false, c.skipBlanks) := by
  unfold moreMembers
  rw [peekValue_bind_run_of hg (by decide) hc]
  rfl

theorem moreMembers_first (hg : Blanks g) (hc : c.rest = g ++ '"' :: k) :
    (moreMembers true).run c = .ok (true, c.skipBlanks) := by
  unfold moreMembers
  rw [peekValue_bind_run_of hg (by decide) hc]
  rfl

theorem moreMembers_next {g' : List Char} (hg : Blanks g) (hg' : Blanks g')
    (hc : c.rest = g ++ ',' :: (g' ++ '"' :: k)) :
    ∃ c', (moreMembers false).run c = .ok (true, c') ∧ c'.rest = '"' :: k := by
  have hnext : c.skipBlanks.next.rest = g' ++ '"' :: k :=
    rest_next (rest_skipBlanks_of hg (by decide) hc)
  refine ⟨c.skipBlanks.next.skipBlanks, ?_, rest_skipBlanks_of hg' (by decide) hnext⟩
  unfold moreMembers
  rw [peekValue_bind_run_of hg (by decide) hc]
  show (take >>= fun _ => peekValue? >>= _).run c.skipBlanks = _
  rw [take_bind_run, peekValue_bind_run_of hg' (by decide) hnext]
  rfl

theorem colon_run (hg : Blanks g) (hc : c.rest = g ++ ':' :: k) :
    ∃ c', colon.run c = .ok ((), c') ∧ c'.rest = k := by
  refine ⟨c.skipBlanks.next, ?_, rest_next (rest_skipBlanks_of hg (by decide) hc)⟩
  unfold colon
  rw [peekValue_bind_run_of hg (by decide) hc]
  rfl

section Members

variable {σ : Type} {member : σ → String → Reader σ} {fuel : Nat} {first : Bool} {acc : σ}

theorem members_end (hfuel : 0 < fuel) (hg : Blanks g) (hc : c.rest = g ++ '\x7d' :: k) :
    ∃ c', (members member fuel first acc).run c = .ok (acc, c') ∧ c'.rest = k := by
  obtain ⟨fuel, rfl⟩ := Nat.exists_eq_succ_of_ne_zero hfuel.ne'
  refine ⟨c.skipBlanks.next, ?_, rest_next (rest_skipBlanks_of hg (by decide) hc)⟩
  unfold members
  exact bind_run_ok.mpr ⟨false, _, moreMembers_end first hg hc, rfl⟩

/-- The reader of an object goes on with a member. -/
theorem members_run (h : (moreMembers first).run c = .ok (true, c')) :
    (members member (fuel + 1) first acc).run c =
      (do members member fuel false (← member acc (← Reader.string)) : Reader σ).run c' := by
  rw [members, StateT.run_bind, h]
  rfl

end Members

/-! ### All phrases -/

/-- Elements of a list, the first of them next, up to its bracket. -/
def itemsAt (depth fuel : Nat) (acc : List Json) : Reader (List Json) := do
  items (value depth) fuel false ((← value depth) :: acc)

/-- Members of an object, the key of the first next, up to its brace. -/
def membersAt (depth fuel : Nat) (acc : List (String × Json)) : Reader (List (String × Json)) := do
  members (memberAt depth) fuel false (← memberAt depth acc (← Reader.string))

/-- What the readers make of a text that writes the phrase: a value is read, elements and members
are read up to the end of their container, the first of them next. -/
def Reads (n : Nat) (s : List Char) : Phrase → Prop
  | .value v => ∀ (depth : Nat) (c : Cursor) (k : List Char), Ends goesOn k → c.rest = s ++ k →
    Answers (value (depth + 1)) c (n ≤ depth) v k
  | .items vs => ∀ (depth fuel : Nat) (acc : List Json) (c : Cursor) (g k : List Char),
    vs.length ≤ fuel → Blanks g → c.rest = s ++ (g ++ ']' :: k) →
    Answers (itemsAt (depth + 1) fuel acc) c (n ≤ depth) (acc.reverse ++ vs) k
  | .members ms => ∀ (depth fuel : Nat) (acc : List (String × Json)) (c : Cursor) (g k : List Char),
    ms.length ≤ fuel → Blanks g → s.head? = some '"' → c.rest = s ++ (g ++ '\x7d' :: k) →
    Answers (membersAt (depth + 1) fuel acc) c (n ≤ depth)
      (ms.foldl (fun acc m => insertEntry m.1 m.2 acc) acc) k

theorem reads_literal (h : Literal text v) (hs : Laid Blanks [.literal text] s) :
    Reads 0 s (.value v) := by
  obtain ⟨ch, l, rfl, hsolid, htakes⟩ := of_literal h
  obtain ⟨hspace, hlist, hobject, -⟩ := hsolid.first
  obtain ⟨g, rest, rfl, hg, hrest⟩ := hs.of_cons
  cases hrest
  intro depth c k hk hc
  rw [List.append_nil, List.append_assoc] at hc
  have hrun := value_run depth hg hspace hc
  rw [if_neg hlist, if_neg hobject] at hrun
  rw [eq_true (Nat.zero_le depth)]
  exact (answers_of_ok (htakes _ k (rest_skipBlanks_of hg hspace hc) hk)).of_run hrun

theorem answers_listAt_of {depth : Nat} {p : Prop} {vs : List Json}
    (h : Answers (items (value depth) (c.next.rest.length + 1) true []) c.next p vs k) :
    Answers (listAt depth) c p (.array vs) k := by
  have hrun : (listAt depth).run c = (do
      return Json.array (← items (value depth) (c.next.rest.length + 1) true [])).run c.next := rfl
  exact h.return.of_run hrun

theorem answers_objectAt_of {depth : Nat} {p : Prop} {ms : List (String × Json)}
    (h : Answers (members (memberAt depth) (c.next.rest.length + 1) true []) c.next p ms k) :
    Answers (objectAt depth) c p (.object ms) k := by
  have hrun : (objectAt depth).run c = (do
      return Json.object (← members (memberAt depth) (c.next.rest.length + 1) true [])).run c.next :=
    rfl
  exact h.return.of_run hrun

theorem answers_listAt {depth : Nat} {g' l : List Char} {vs : List Json}
    (h : Reads n (ch :: l) (.items vs)) (hroom : vs.length ≤ (ch :: l).length)
    (hspace : isSpace ch = false) (hch : ch ≠ ']') (hg : Blanks g) (hg' : Blanks g')
    (hc : c.rest = '[' :: (g ++ ch :: (l ++ (g' ++ ']' :: k)))) :
    Answers (listAt (depth + 1)) c (n ≤ depth) (.array vs) k := by
  have hnext := rest_next hc
  have hfirst := moreItems_first hg hspace hch hnext
  have hlength : vs.length ≤ c.next.rest.length := by
    rw [hnext]
    simp only [List.length_append, List.length_cons] at hroom ⊢
    omega
  have hitems := h depth c.next.rest.length [] c.next.skipBlanks g' k hlength hg'
    (rest_skipBlanks_of hg hspace hnext)
  exact answers_listAt_of (hitems.of_run (items_run hfirst))

theorem answers_objectAt {depth : Nat} {g' l : List Char} {ms : List (String × Json)}
    (h : Reads n ('"' :: l) (.members ms)) (hroom : ms.length ≤ ('"' :: l).length)
    (hg : Blanks g) (hg' : Blanks g')
    (hc : c.rest = '\x7b' :: (g ++ '"' :: (l ++ (g' ++ '\x7d' :: k)))) :
    Answers (objectAt (depth + 1)) c (n ≤ depth) (ofMembers ms) k := by
  have hnext := rest_next hc
  have hlength : ms.length ≤ c.next.rest.length := by
    rw [hnext]
    simp only [List.length_append, List.length_cons] at hroom ⊢
    omega
  have hmembers := h depth c.next.rest.length [] c.next.skipBlanks g' k hlength hg' rfl
    (rest_skipBlanks_of hg (by decide) hnext)
  exact answers_objectAt_of (hmembers.of_run (members_run (moreMembers_first hg hnext)))

/-- A container that is read where one more level is left. -/
theorem answers_nested {depth : Nat} {r : Nat → Reader Json}
    (hrun : (value (depth + 1)).run c = (nested (depth + 1) (r depth)).run c')
    (h : ∀ depth, Answers (r (depth + 1)) c' (n ≤ depth) v k) :
    Answers (value (depth + 1)) c (n + 1 ≤ depth) v k := by
  rw [nested_run] at hrun
  cases depth with
  | zero => exact ⟨fun hfits => absurd hfits (by omega), fun _ => ⟨_, hrun, rfl⟩⟩
  | succ depth =>
    rw [Nat.add_le_add_iff_right]
    exact (h depth).of_run hrun

/-- A container is laid out as its brackets around what it holds. -/
theorem Laid.of_container {o cl : Token} (ts : List Token) (h : Laid Blanks (o :: (ts ++ [cl])) s) :
    ∃ g body g', s = g ++ (o.text ++ (body ++ (g' ++ cl.text))) ∧ Blanks g ∧ Laid Blanks ts body ∧
      Blanks g' := by
  obtain ⟨g, rest, rfl, hg, hrest⟩ := h.of_cons
  obtain ⟨body, close, rfl, hbody, hclose⟩ := hrest.of_append
  obtain ⟨g', last, rfl, hg', hlast⟩ := hclose.of_cons
  cases hlast
  exact ⟨g, body, g', by rw [List.append_nil], hg, hbody, hg'⟩

/-! ### The cases of a phrase -/

theorem reads_emptyList (hs : Laid Blanks [.listStart, .listEnd] s) :
    Reads 1 s (.value (.array [])) := by
  obtain ⟨g, body, g', rfl, hg, hbody, hg'⟩ := Laid.of_container [] hs
  cases hbody
  intro depth c k hk hc
  have hc' : c.rest = g ++ '[' :: (g' ++ ']' :: k) := by rw [hc]; simp [Token.text]
  have hrun := value_run depth hg (by decide) hc'
  rw [if_pos rfl] at hrun
  refine answers_nested hrun fun depth => ?_
  have hnext := rest_next (rest_skipBlanks_of hg (by decide) hc')
  rw [eq_true (Nat.zero_le depth)]
  exact answers_listAt_of (answers_of_ok (items_end (Nat.succ_pos _) hg' hnext))

theorem reads_emptyObject (hs : Laid Blanks [.objectStart, .objectEnd] s) :
    Reads 1 s (.value (.object [])) := by
  obtain ⟨g, body, g', rfl, hg, hbody, hg'⟩ := Laid.of_container [] hs
  cases hbody
  intro depth c k hk hc
  have hc' : c.rest = g ++ '\x7b' :: (g' ++ '\x7d' :: k) := by rw [hc]; simp [Token.text]
  have hrun := value_run depth hg (by decide) hc'
  rw [if_neg (by decide), if_pos rfl] at hrun
  refine answers_nested hrun fun depth => ?_
  have hnext := rest_next (rest_skipBlanks_of hg (by decide) hc')
  rw [eq_true (Nat.zero_le depth)]
  exact answers_objectAt_of (answers_of_ok (members_end (Nat.succ_pos _) hg' hnext))

theorem reads_item (h : Reads n s (.value v)) : Reads n s (.items [v]) := by
  intro depth fuel acc c g k hfuel hg hc
  have hvalue := h depth c _ (ends_of_blanks hg (by decide) k) hc
  have hread := hvalue.bind (f := fun v => items (value (depth + 1)) fuel false (v :: acc))
    fun c' hc' => answers_of_ok (items_end hfuel hg hc')
  rw [and_true, List.reverse_cons] at hread
  exact hread

/-- A comma and what follows it. -/
theorem Laid.of_comma {l : List Char} (h : Laid Blanks (.comma :: t :: us) s) (ht : t.text = ch :: l) :
    ∃ g g' rest, s = g ++ ',' :: (g' ++ ch :: rest) ∧ Blanks g ∧ Blanks g' ∧
      Laid Blanks (t :: us) (ch :: rest) := by
  obtain ⟨g, rest, rfl, hg, hrest⟩ := h.of_cons
  obtain ⟨g', rest, rfl, hg', hlaid⟩ := hrest.first ht
  exact ⟨g, g', rest, rfl, hg, hg', hlaid⟩

theorem reads_items {m : Nat} {vs : List Json} (hv : ∀ s, Laid Blanks ts s → Reads m s (.value v))
    (hus : Writes n (.items vs) us) (hvs : ∀ s, Laid Blanks us s → Reads n s (.items vs))
    (hs : Laid Blanks (ts ++ .comma :: us) s) : Reads (max m n) s (.items (v :: vs)) := by
  obtain ⟨s₁, s₂, rfl, hs₁, hs₂⟩ := hs.of_append
  obtain ⟨t, more, ch, _, rfl, ht, hspace, hch⟩ := hus.first
  obtain ⟨g₁, g₂, l, rfl, hg₁, hg₂, hlaid⟩ := hs₂.of_comma ht
  intro depth fuel acc c g k hfuel hg hc
  obtain ⟨fuel, rfl⟩ := Nat.exists_eq_succ_of_ne_zero (Nat.ne_zero_of_lt hfuel)
  rw [List.append_assoc] at hc
  have hc' : c.rest = s₁ ++ (g₁ ++ ',' :: (g₂ ++ ch :: (l ++ (g ++ ']' :: k)))) := by
    rw [hc]
    simp
  have hvalue := hv s₁ hs₁ depth c _ (ends_of_blanks hg₁ (by decide) _) hc'
  have hread := hvalue.bind (f := fun v => items (value (depth + 1)) (fuel + 1) false (v :: acc))
    fun c₁ hc₁ => by
      obtain ⟨c₂, hmore, hc₂⟩ := moreItems_next hg₁ hg₂ hspace hch hc₁
      exact (hvs _ hlaid depth fuel (v :: acc) c₂ g k (Nat.le_of_succ_le_succ hfuel) hg hc₂).of_run
        (items_run hmore)
  rw [← Nat.max_le, List.reverse_cons, List.append_assoc] at hread
  exact hread

/-- A key, its colon and its value. -/
theorem answers_membersAt (depth : Nat) (acc : List (String × Json)) {m fuel : Nat} {key : String}
    {s₁ k' : List Char} {q : Prop} {ms : List (String × Json)} (hlit : Literal text (.string key))
    (hv : Reads m s₁ (.value v)) (hg : Blanks g) (hends : Ends goesOn k')
    (hc : c.rest = text ++ (g ++ ':' :: (s₁ ++ k')))
    (hrest : ∀ c', c'.rest = k' →
      Answers (members (memberAt (depth + 1)) fuel false (insertEntry key v acc)) c' q ms k) :
    Answers (membersAt (depth + 1) fuel acc) c (m ≤ depth ∧ q) ms k := by
  have htakes : Takes Reader.string text key never := by
    cases hlit with
    | string h => exact takes_string h
  have hkey := answers_of_ok (htakes c _ hc fun _ _ => rfl)
  have hmember : ∀ c', c'.rest = g ++ ':' :: (s₁ ++ k') →
      Answers (memberAt (depth + 1) acc key) c' (m ≤ depth) (insertEntry key v acc) k' := by
    intro c' hc'
    have hvalue : ∀ c₂, c₂.rest = s₁ ++ k' → Answers (do
        return insertEntry key (← value (depth + 1)) acc) c₂ (m ≤ depth) (insertEntry key v acc) k' :=
      fun c₂ hc₂ => (hv depth c₂ k' hends hc₂).return
    have hread := (answers_of_ok (colon_run hg hc')).bind
      (f := fun _ => do return insertEntry key (← value (depth + 1)) acc) hvalue
    rw [true_and] at hread
    exact hread
  have hread := hkey.bind (f := fun key => memberAt (depth + 1) acc key >>= fun acc =>
    members (memberAt (depth + 1)) fuel false acc) fun c₁ hc₁ => (hmember c₁ hc₁).bind hrest
  rw [true_and] at hread
  exact hread

/-- A member that begins a text begins with its key. -/
theorem Laid.of_member (h : Laid Blanks (.literal text :: .colon :: ts) s)
    (hquote : s.head? = some '"') :
    ∃ g s₁, s = text ++ (g ++ ':' :: s₁) ∧ Blanks g ∧ Laid Blanks ts s₁ := by
  obtain ⟨g₀, rest, rfl, hg₀, hrest⟩ := h.of_cons
  obtain ⟨g, s₁, rfl, hg, hs₁⟩ := hrest.of_cons
  cases g₀ with
  | nil => exact ⟨g, s₁, rfl, hg, hs₁⟩
  | cons x g₀ =>
    obtain rfl : x = '"' := Option.some.inj hquote
    exact absurd (hg₀ '"' (List.mem_cons_self ..)) (by decide)

theorem reads_member {key : String} (hlit : Literal text (.string key))
    (hv : ∀ s, Laid Blanks ts s → Reads n s (.value v))
    (hs : Laid Blanks (.literal text :: .colon :: ts) s) : Reads n s (.members [(key, v)]) := by
  intro depth fuel acc c g k hfuel hg hquote hc
  obtain ⟨g₁, s₁, rfl, hg₁, hs₁⟩ := hs.of_member hquote
  have hc' : c.rest = text ++ (g₁ ++ ':' :: (s₁ ++ (g ++ '\x7d' :: k))) := by
    rw [hc]
    simp
  have hread := answers_membersAt depth acc hlit (hv s₁ hs₁) hg₁
    (ends_of_blanks hg (by decide) k) hc' fun c' hc' => answers_of_ok (members_end hfuel hg hc')
  rw [and_true] at hread
  exact hread

theorem reads_members {m : Nat} {key : String} {ms : List (String × Json)}
    (hlit : Literal text (.string key)) (hv : ∀ s, Laid Blanks ts s → Reads m s (.value v))
    (hus : Writes n (.members ms) us) (hms : ∀ s, Laid Blanks us s → Reads n s (.members ms))
    (hs : Laid Blanks (.literal text :: .colon :: (ts ++ .comma :: us)) s) :
    Reads (max m n) s (.members ((key, v) :: ms)) := by
  intro depth fuel acc c g k hfuel hg hquote hc
  obtain ⟨fuel, rfl⟩ := Nat.exists_eq_succ_of_ne_zero (Nat.ne_zero_of_lt hfuel)
  obtain ⟨g₁, rest, rfl, hg₁, hrest⟩ := hs.of_member hquote
  obtain ⟨s₁, s₂, rfl, hs₁, hs₂⟩ := hrest.of_append
  obtain ⟨t, more, _, rfl, ht⟩ := hus.first_member
  obtain ⟨g₂, g₃, l, rfl, hg₂, hg₃, hlaid⟩ := hs₂.of_comma ht
  have hc' : c.rest = text ++ (g₁ ++ ':' :: (s₁ ++ (g₂ ++ ',' ::
      (g₃ ++ '"' :: (l ++ (g ++ '\x7d' :: k)))))) := by
    rw [hc]
    simp
  have hread := answers_membersAt depth acc hlit (hv s₁ hs₁) hg₁
    (ends_of_blanks hg₂ (by decide) _) hc' fun c₁ hc₁ => by
      obtain ⟨c₂, hmore, hc₂⟩ := moreMembers_next hg₂ hg₃ hc₁
      exact (hms _ hlaid depth fuel (insertEntry key v acc) c₂ g k (Nat.le_of_succ_le_succ hfuel) hg
        rfl hc₂).of_run (members_run hmore)
  rw [← Nat.max_le] at hread
  exact hread

/-! ### Room for the parts -/

/-- How many parts a phrase has. -/
def Phrase.count : Phrase → Nat
  | .value _ => 1
  | .items vs => vs.length
  | .members ms => ms.length

theorem Writes.count_le (h : Writes n φ ts) : φ.count ≤ ts.length := by
  induction h with
  | literal _ => exact Nat.le_refl _
  | emptyList | list _ _ | emptyObject | object _ _ => exact Nat.succ_pos _
  | item _ ih => exact ih
  | items _ _ _ ih =>
    simp only [Phrase.count, List.length_cons, List.length_append] at ih ⊢
    omega
  | member _ _ _ => exact Nat.succ_pos _
  | members _ _ _ _ ih =>
    simp only [Phrase.count, List.length_cons, List.length_append] at ih ⊢
    omega

theorem Laid.length_le {gap : List Char → Prop} (h : Laid gap ts s) (hts : ∀ t ∈ ts, t.Clean) :
    ts.length ≤ s.length := by
  induction h with
  | nil => exact Nat.le_refl _
  | cons _ _ ih =>
    obtain ⟨ht, hts⟩ := List.forall_mem_cons.mp hts
    have hpos := List.length_pos_of_ne_nil ht.text_ne_nil
    have := ih hts
    simp only [List.length_append, List.length_cons]
    omega

/-- A text of a phrase has room for its parts. -/
theorem Writes.room (h : Writes n φ ts) (hs : Laid Blanks ts s) : φ.count ≤ s.length :=
  h.count_le.trans (hs.length_le h.clean)

/-! ### All phrases -/

theorem reads_list {vs : List Json} (hts : Writes n (.items vs) ts)
    (h : ∀ s, Laid Blanks ts s → Reads n s (.items vs))
    (hs : Laid Blanks (.listStart :: (ts ++ [.listEnd])) s) :
    Reads (n + 1) s (.value (.array vs)) := by
  obtain ⟨g, body, g', rfl, hg, hbody, hg'⟩ := hs.of_container ts
  obtain ⟨t, more, ch, _, rfl, ht, hspace, hch⟩ := hts.first
  obtain ⟨g₁, rest, rfl, hg₁, hlaid⟩ := hbody.first ht
  intro depth c k hk hc
  have hc' : c.rest = g ++ '[' :: (g₁ ++ ch :: (rest ++ (g' ++ ']' :: k))) := by
    rw [hc]
    simp [Token.text]
  have hrun := value_run depth hg (by decide) hc'
  rw [if_pos rfl] at hrun
  exact answers_nested hrun fun depth => answers_listAt (h _ hlaid) (hts.room hlaid) hspace hch hg₁
    hg' (rest_skipBlanks_of hg (by decide) hc')

theorem reads_object {ms : List (String × Json)} (hts : Writes n (.members ms) ts)
    (h : ∀ s, Laid Blanks ts s → Reads n s (.members ms))
    (hs : Laid Blanks (.objectStart :: (ts ++ [.objectEnd])) s) :
    Reads (n + 1) s (.value (ofMembers ms)) := by
  obtain ⟨g, body, g', rfl, hg, hbody, hg'⟩ := hs.of_container ts
  obtain ⟨t, more, _, rfl, ht⟩ := hts.first_member
  obtain ⟨g₁, rest, rfl, hg₁, hlaid⟩ := hbody.first ht
  intro depth c k hk hc
  have hc' : c.rest = g ++ '\x7b' :: (g₁ ++ '"' :: (rest ++ (g' ++ '\x7d' :: k))) := by
    rw [hc]
    simp [Token.text]
  have hrun := value_run depth hg (by decide) hc'
  rw [if_neg (by decide), if_pos rfl] at hrun
  exact answers_nested hrun fun depth => answers_objectAt (h _ hlaid) (hts.room hlaid) hg₁
    hg' (rest_skipBlanks_of hg (by decide) hc')

/-- **What tokens write is read from their texts**, as deep as the reader goes. -/
theorem Writes.reads (h : Writes n φ ts) : ∀ s, Laid Blanks ts s → Reads n s φ := by
  induction h with
  | literal hlit => exact fun s hs => reads_literal hlit hs
  | emptyList => exact fun s hs => reads_emptyList hs
  | list hts ih => exact fun s hs => reads_list hts ih hs
  | emptyObject => exact fun s hs => reads_emptyObject hs
  | object hts ih => exact fun s hs => reads_object hts ih hs
  | item _ ih => exact fun s hs => reads_item (ih s hs)
  | items _ hus ih ih' => exact fun s hs => reads_items ih hus ih' hs
  | member hlit _ ih => exact fun s hs => reads_member hlit ih hs
  | members hlit _ hus ih ih' => exact fun s hs => reads_members hlit ih hus ih' hs

/-- **A text of a value is read as the value** if it nests 127 deep at most, and is refused as nested
too deep otherwise. -/
theorem parse_of_spaced {str : String} (h : Writes n (.value v) ts) (hs : Spaced ts str.toList) :
    (n ≤ 127 → parse str = .ok v) ∧ (127 < n → ∃ f, parse str = .error f ∧ f.cause = .nestedTooDeep) := by
  obtain ⟨s, g, hlaid, hg, htext⟩ := hs
  have hends : Ends goesOn g := by
    have := ends_blanks hg (ends_nil goesOn)
    rwa [List.append_nil] at this
  have hread := h.reads s hlaid 127 (Cursor.start str.toList) g hends htext
  constructor
  · intro hn
    obtain ⟨c', hrun, hrest⟩ := hread.reads hn
    exact parse_eq_ok_iff.mpr ⟨c', hrun, hrest ▸ hg⟩
  · intro hn
    obtain ⟨f, hrun, hcause⟩ := hread.refuses (by omega)
    refine ⟨f, ?_, hcause⟩
    unfold parse readAll
    rw [StateT.run_bind, show nestingLimit = 127 + 1 from rfl, hrun]
    rfl

end ComponentRegistry.Json
