import ComponentRegistry.Proofs.Json.Reading

/-!
# Texts with comments and trailing commas

Both scanners copy blanks, and tokens that are not their mark (`Copies`).  Taking out the comments
leaves the tokens and their commas with blanks between them (`stripComments_laid`), and taking out
the commas before closing brackets then leaves the tokens alone (`stripTrailingCommas_laid`).  So the
text of a value with such extras becomes a text of the value without them, and a text that has none
stays as it is (`stripExtras_extended`).
-/

namespace ComponentRegistry.Json

open Reader

variable {c ch : Char} {b g r s body text : List Char} {v : Json} {n : Nat} {t : Token}
  {ts us : List Token} {φ : Phrase} {before? : Option Token}

/-! ## What both scanners copy -/

/-- Outside of strings the scanner copies all but what begins with its mark, and in strings it copies
everything. -/
structure Copies (mark : Char) (scan scanString : List Char → List Char) : Prop where
  other : ∀ {c} r, c ≠ '"' → c ≠ mark → scan (c :: r) = c :: scan r
  openQuote : ∀ r, scan ('"' :: r) = '"' :: scanString r
  closeQuote : ∀ r, scanString ('"' :: r) = '"' :: scan r
  escaped : ∀ c r, scanString ('\\' :: c :: r) = '\\' :: c :: scanString r
  plain : ∀ {c} r, c ≠ '"' → c ≠ '\\' → scanString (c :: r) = c :: scanString r

theorem copies_comments : Copies '/' (stripCommentsFrom .code) (stripCommentsFrom .string) where
  other := by
    intro c r hquote hslash
    rw [stripCommentsFrom]
    · exact hquote
    · exact fun r' h => absurd h hslash
    · exact fun r' h => absurd h hslash
  openQuote _ := by rw [stripCommentsFrom]
  closeQuote _ := by simp [stripCommentsFrom]
  escaped _ _ := by simp [stripCommentsFrom]
  plain r hquote hslash := by simp [stripCommentsFrom, hquote, hslash]

theorem copies_commas :
    Copies ',' (stripTrailingCommasFrom .code) (stripTrailingCommasFrom .string) where
  other r hquote hcomma := by simp [stripTrailingCommasFrom, hquote, hcomma]
  openQuote _ := by simp [stripTrailingCommasFrom]
  closeQuote _ := by simp [stripTrailingCommasFrom]
  escaped _ _ := by simp [stripTrailingCommasFrom]
  plain r hquote hslash := by simp [stripTrailingCommasFrom, hquote, hslash]

section Copies

variable {mark : Char} {scan scanString : List Char → List Char} (h : Copies mark scan scanString)
include h

theorem Copies.stringRest (hs : StringRest s) (r : List Char) :
    scanString (s ++ r) = s ++ scan r := by
  induction hs with
  | quote => exact h.closeQuote r
  | escaped _ ih => rw [List.cons_append, List.cons_append, h.escaped, ih, List.cons_append,
      List.cons_append]
  | plain hquote hslash _ ih => rw [List.cons_append, h.plain _ hquote hslash, ih, List.cons_append]

theorem Copies.others (hs : ∀ c ∈ s, c ≠ '"' ∧ c ≠ mark) (r : List Char) :
    scan (s ++ r) = s ++ scan r := by
  induction s with
  | nil => rfl
  | cons c s ih =>
    obtain ⟨⟨hquote, hmark⟩, hs⟩ := List.forall_mem_cons.mp hs
    rw [List.cons_append, h.other _ hquote hmark, ih hs, List.cons_append]

theorem Copies.blanks (hmark : isSpace mark = false) (hg : Blanks g) (r : List Char) :
    scan (g ++ r) = g ++ scan r := by
  refine h.others (fun c hc => ⟨?_, ?_⟩) r
  · rintro rfl
    exact absurd (hg '"' hc) (by decide)
  · rintro rfl
    exact absurd (hg c hc) (by simp [hmark])

/-- A token is copied, if it is not the scanner's mark. -/
theorem Copies.token (hmark : mark ∈ marks) (ht : t.Clean) (hne : t.text ≠ [mark]) (r : List Char) :
    scan (t.text ++ r) = t.text ++ scan r := by
  have hsingle : ∀ c, c ≠ '"' → c ≠ mark → scan ([c] ++ r) = [c] ++ scan r :=
    fun c hquote hother => h.other r hquote hother
  cases t with
  | literal text =>
    cases ht with
    | plain hplain =>
      refine h.others (fun c hc => ⟨?_, ?_⟩) r
      · rintro rfl
        exact absurd (hplain '"' hc) (by decide)
      · rintro rfl
        exact absurd (hplain c hc) (by simp [isPlain, hmark])
    | string hs =>
      rw [Token.text, List.cons_append, h.openQuote, h.stringRest hs, List.cons_append]
  | _ => exact hsingle _ (by decide) fun heq => hne (by rw [← heq, Token.text])

end Copies

/-! ## Comments -/

/-- A line comment is taken out up to its line feed, or up to the end of the text. -/
theorem stripComments_line (h : '\n' ∉ body) :
    stripCommentsFrom .line body = [] ∧
      ∀ r, stripCommentsFrom .line (body ++ '\n' :: r) = '\n' :: stripCommentsFrom .code r := by
  induction body with
  | nil => simp [stripCommentsFrom]
  | cons c body ih =>
    obtain ⟨hc, hbody⟩ := not_or.mp (mt List.mem_cons.mpr h)
    obtain ⟨hend, hnext⟩ := ih hbody
    simp [stripCommentsFrom, Ne.symm hc, hend, hnext]

/-- A block comment is taken out up to the first `*/`; the flag says that a star came before. -/
theorem stripComments_block {star : Bool} (h : ¬ ['*', '/'] <:+: body)
    (hstar : star = true → body.head? ≠ some '/') (r : List Char) :
    stripCommentsFrom (.block star) (body ++ '*' :: '/' :: r) = stripCommentsFrom .code r := by
  induction body generalizing star with
  | nil => simp [stripCommentsFrom]
  | cons c body ih =>
    have hbody : ¬ ['*', '/'] <:+: body :=
      fun hin => h (hin.trans (List.infix_cons_iff.mpr (.inr (List.infix_refl _))))
    have hc : ¬ (star = true ∧ c = '/') := by
      rintro ⟨hs, rfl⟩
      exact hstar hs rfl
    have hnext : decide (c = '*') = true → body.head? ≠ some '/' := by
      intro hcstar hhead
      obtain ⟨l, rfl⟩ := List.head?_eq_some_iff.mp hhead
      obtain rfl : c = '*' := by simpa using hcstar
      exact h (List.prefix_append ['*', '/'] l).isInfix
    rw [List.cons_append, stripCommentsFrom, if_neg (by simpa using hc)]
    exact ih hbody hnext

/-- Of blanks and comments blanks are left. -/
theorem stripComments_trivia (h : Trivia g) :
    ∃ b, Blanks b ∧ ∀ r, stripCommentsFrom .code (g ++ r) = b ++ stripCommentsFrom .code r := by
  induction h with
  | nil => exact ⟨[], blanks_nil, fun _ => rfl⟩
  | @blank c rest hc _ ih =>
    obtain ⟨b, hb, hstrip⟩ := ih
    have hcopy := copies_comments.blanks (by decide) (g := [c]) (by simpa [Blanks] using hc)
    refine ⟨c :: b, List.forall_mem_cons.mpr ⟨hc, hb⟩, fun r => ?_⟩
    exact (hcopy (rest ++ r)).trans (congrArg (c :: ·) (hstrip r))
  | @line body rest hbody _ ih =>
    obtain ⟨b, hb, hstrip⟩ := ih
    refine ⟨'\n' :: b, List.forall_mem_cons.mpr ⟨by decide, hb⟩, fun r => ?_⟩
    rw [List.cons_append, List.cons_append, stripCommentsFrom, List.append_assoc, List.cons_append,
      (stripComments_line hbody).2, hstrip, List.cons_append]
  | @block body rest hbody _ ih =>
    obtain ⟨b, hb, hstrip⟩ := ih
    refine ⟨b, hb, fun r => ?_⟩
    rw [List.cons_append, List.cons_append, stripCommentsFrom, List.append_assoc, List.cons_append,
      List.cons_append, stripComments_block hbody (by simp), hstrip]

theorem stripComments_finalTrivia (h : FinalTrivia g) : Blanks (stripCommentsFrom .code g) := by
  rcases h with h | ⟨before, body, hbefore, hbody, rfl⟩
  · obtain ⟨b, hb, hstrip⟩ := stripComments_trivia h
    have hend := hstrip []
    rw [List.append_nil, stripCommentsFrom, List.append_nil] at hend
    rw [hend]
    exact hb
  · obtain ⟨b, hb, hstrip⟩ := stripComments_trivia hbefore
    have hend : stripCommentsFrom .code ('/' :: '/' :: body) = [] := (stripComments_line hbody).1
    rw [hstrip, hend, List.append_nil]
    exact hb

/-- No token is a slash. -/
theorem stripComments_token (ht : t.Clean) (r : List Char) :
    stripCommentsFrom .code (t.text ++ r) = t.text ++ stripCommentsFrom .code r := by
  refine copies_comments.token (by decide) ht ?_ r
  cases t with
  | literal text =>
    rintro rfl
    cases ht with
    | plain hplain => exact absurd (hplain '/' (List.mem_cons_self ..)) (by decide)
  | _ => decide

/-- **Without its comments a text has its tokens with blanks between them.** -/
theorem stripComments_laid (h : Laid Trivia ts s) (hts : ∀ t ∈ ts, t.Clean) :
    ∃ s', Laid Blanks ts s' ∧
      ∀ r, stripCommentsFrom .code (s ++ r) = s' ++ stripCommentsFrom .code r := by
  induction h with
  | nil => exact ⟨[], .nil, fun _ => rfl⟩
  | @cons g s t ts hg _ ih =>
    obtain ⟨ht, hts⟩ := List.forall_mem_cons.mp hts
    obtain ⟨s', hs', hstrip⟩ := ih hts
    obtain ⟨b, hb, hblanks⟩ := stripComments_trivia hg
    refine ⟨b ++ (t.text ++ s'), .cons hb hs', fun r => ?_⟩
    rw [List.append_assoc, List.append_assoc, hblanks, stripComments_token ht, hstrip,
      List.append_assoc, List.append_assoc]

/-- A text without comments stays as it is. -/
theorem stripComments_of_laid (h : Laid Blanks ts s) (hts : ∀ t ∈ ts, t.Clean) (r : List Char) :
    stripCommentsFrom .code (s ++ r) = s ++ stripCommentsFrom .code r := by
  induction h with
  | nil => rfl
  | @cons g s t ts hg _ ih =>
    obtain ⟨ht, hts⟩ := List.forall_mem_cons.mp hts
    rw [List.append_assoc, List.append_assoc, copies_comments.blanks (by decide) hg,
      stripComments_token ht, ih hts, List.append_assoc, List.append_assoc]

/-! ## Commas before closing brackets -/

/-- A token is copied, if it is no comma before something that closes a container. -/
theorem stripTrailingCommas_token (ht : t.Clean) (hnext : t = .comma → closesNext r = false) :
    stripTrailingCommasFrom .code (t.text ++ r) = t.text ++ stripTrailingCommasFrom .code r := by
  by_cases hcomma : t = .comma
  · rw [hcomma]
    simp [Token.text, stripTrailingCommasFrom, hnext hcomma]
  · refine copies_commas.token (by decide) ht ?_ r
    cases t with
    | literal text =>
      rintro rfl
      cases ht with
      | plain hplain => exact absurd (hplain ',' (List.mem_cons_self ..)) (by decide)
    | comma => exact absurd rfl hcomma
    | _ => decide

theorem stripTrailingCommas_comma (hnext : closesNext r = true) :
    stripTrailingCommasFrom .code (',' :: r) = stripTrailingCommasFrom .code r := by
  simp [stripTrailingCommasFrom, hnext]

theorem not_isBlank_of_isPlain (h : isPlain c = true) : Text.isBlank c = false := by
  obtain ⟨hblank, -⟩ := Bool.and_eq_true_iff.mp h
  simpa using hblank

/-- What a token begins with is no blank, and tells whether the token closes a container. -/
theorem Token.Clean.first (ht : t.Clean) : ∃ ch l, t.text = ch :: l ∧ Text.isBlank ch = false ∧
    ((ch = '\x7d' ∨ ch = ']') ↔ t.closes = true) := by
  cases t with
  | literal text =>
    cases ht with
    | @plain ch l hplain =>
      have hch := hplain ch (List.mem_cons_self ..)
      refine ⟨ch, l, rfl, not_isBlank_of_isPlain hch, iff_of_false ?_ Bool.false_ne_true⟩
      rintro (rfl | rfl)
      · exact absurd hch (by decide)
      · exact absurd hch (by decide)
    | string hs => exact ⟨'"', _, rfl, by decide, by simp [Token.closes]⟩
  | _ => exact ⟨_, _, rfl, by decide, by decide⟩

theorem closesNext_token (hg : Blanks g) (ht : t.Clean) (r : List Char) :
    closesNext (g ++ (t.text ++ r)) = t.closes := by
  obtain ⟨ch, l, htext, hblank, hcloses⟩ := ht.first
  rw [htext, List.cons_append, closesNext, Text.trimStart,
    List.dropWhile_append_of_pos fun x hx => isBlank_of_isSpace (hg x hx),
    List.dropWhile_cons_of_neg (by simp [hblank]), Bool.eq_iff_iff, ← hcloses]
  simp

theorem closesNext_blanks (hg : Blanks g) : closesNext g = false := by
  rw [closesNext, Text.trimStart,
    List.dropWhile_eq_nil_iff.mpr fun x hx => isBlank_of_isSpace (hg x hx)]

/-- The next token closes a container. -/
def closesFirst (ts : List Token) : Bool := ts.head?.any Token.closes

theorem closesNext_laid (hs : Laid Blanks ts s) (hts : ∀ t ∈ ts, t.Clean) (hg : Blanks g) :
    closesNext (s ++ g) = closesFirst ts := by
  cases hs with
  | nil => exact closesNext_blanks hg
  | cons hgap _ =>
    rw [List.append_assoc, List.append_assoc]
    exact closesNext_token hgap (hts _ (List.mem_cons_self ..)) _

/-! ### Where values have their commas -/

theorem WithCommas.clean (h : WithCommas before? ts us) (hts : ∀ t ∈ ts, t.Clean) :
    ∀ t ∈ us, t.Clean := by
  induction h with
  | nil => exact hts
  | token _ ih =>
    obtain ⟨ht, hts⟩ := List.forall_mem_cons.mp hts
    exact List.forall_mem_cons.mpr ⟨ht, ih hts⟩
  | comma _ _ _ ih =>
    obtain ⟨ht, hts⟩ := List.forall_mem_cons.mp hts
    exact List.forall_mem_cons.mpr ⟨trivial, List.forall_mem_cons.mpr ⟨ht, ih hts⟩⟩

/-- No comma stands before a token that closes a container. -/
def Ordered : List Token → Prop
  | [] => True
  | t :: ts => (t = .comma → closesFirst ts = false) ∧ Ordered ts

theorem Writes.closesFirst (h : Writes n φ ts) (us : List Token) : closesFirst (ts ++ us) = false := by
  obtain ⟨t, rest, rfl, ht⟩ := h.head
  rcases ht with hopens | ⟨text, v, rfl, -⟩
  · cases t with
    | listStart | objectStart => rfl
    | _ => cases hopens
  · rfl

/-- A value ends with no comma, so it is ordered before what is ordered. -/
theorem Writes.ordered (h : Writes n φ ts) : ∀ us, Ordered us → Ordered (ts ++ us) := by
  have hcons : ∀ {t us}, t ≠ .comma → Ordered us → Ordered (t :: us) :=
    fun ht hus => ⟨fun heq => absurd heq ht, hus⟩
  induction h with
  | literal _ => exact fun us hus => hcons (by simp) hus
  | emptyList | emptyObject => exact fun us hus => hcons (by simp) (hcons (by simp) hus)
  | list _ ih | object _ ih =>
    intro us hus
    rw [List.cons_append, List.append_assoc]
    exact hcons (by simp) (ih _ (hcons (by simp) hus))
  | item _ ih => exact ih
  | items _ hwrites ih ih' =>
    intro us hus
    rw [List.append_assoc, List.cons_append]
    exact ih _ ⟨fun _ => hwrites.closesFirst us, ih' us hus⟩
  | member _ _ ih => exact fun us hus => hcons (by simp) (hcons (by simp) (ih us hus))
  | members _ _ hwrites ih ih' =>
    intro us hus
    rw [List.cons_append, List.cons_append, List.append_assoc, List.cons_append]
    exact hcons (by simp) (hcons (by simp) (ih _ ⟨fun _ => hwrites.closesFirst us, ih' us hus⟩))

/-- A comma that is put before a token closes nothing. -/
theorem WithCommas.closesFirst_eq (h : WithCommas before? ts us) (hts : closesFirst ts = false) :
    closesFirst us = false := by
  cases h with
  | nil => exact hts
  | token _ => exact hts
  | comma _ _ _ => rfl

/-! ### What is left -/

/-- A text without commas before closing brackets stays as it is. -/
theorem stripTrailingCommas_of_laid (h : Laid Blanks ts s) (hts : ∀ t ∈ ts, t.Clean)
    (hordered : Ordered ts) (hg : Blanks g) :
    stripTrailingCommasFrom .code (s ++ g) = s ++ g := by
  induction h with
  | nil =>
    have := copies_commas.blanks (by decide) hg []
    rwa [List.append_nil, stripTrailingCommasFrom, List.append_nil] at this
  | @cons gap s t ts hgap hs ih =>
    obtain ⟨ht, hts⟩ := List.forall_mem_cons.mp hts
    obtain ⟨hcomma, hordered⟩ := hordered
    have hnext : t = .comma → closesNext (s ++ g) = false :=
      fun heq => (closesNext_laid hs hts hg).trans (hcomma heq)
    rw [List.append_assoc, List.append_assoc, copies_commas.blanks (by decide) hgap,
      stripTrailingCommas_token ht hnext, ih hts hordered]

/-- **The commas that were put before closing brackets are taken out**, and the tokens are left. -/
theorem stripTrailingCommas_laid (h : WithCommas before? ts us) (hts : ∀ t ∈ ts, t.Clean)
    (hordered : Ordered ts) (hg : Blanks g) : ∀ s, Laid Blanks us s →
      ∃ s', Laid Blanks ts s' ∧ stripTrailingCommasFrom .code (s ++ g) = s' ++ g := by
  induction h with
  | nil => exact fun s hs => ⟨s, hs, stripTrailingCommas_of_laid hs (by simp) trivial hg⟩
  | @token before? t ts us hcommas ih =>
    intro s hs
    obtain ⟨gap, rest, rfl, hgap, hrest⟩ := hs.of_cons
    obtain ⟨ht, hts⟩ := List.forall_mem_cons.mp hts
    obtain ⟨hcomma, hordered⟩ := hordered
    obtain ⟨s', hs', hstrip⟩ := ih hts hordered rest hrest
    have hnext : t = .comma → closesNext (rest ++ g) = false := fun heq =>
      (closesNext_laid hrest (hcommas.clean hts) hg).trans (hcommas.closesFirst_eq (hcomma heq))
    refine ⟨gap ++ (t.text ++ s'), .cons hgap hs', ?_⟩
    rw [List.append_assoc, List.append_assoc, copies_commas.blanks (by decide) hgap,
      stripTrailingCommas_token ht hnext, hstrip, List.append_assoc, List.append_assoc]
  | @comma before t ts us hopens hcloses hcommas ih =>
    intro s hs
    obtain ⟨gap, rest, rfl, hgap, hrest⟩ := hs.of_cons
    obtain ⟨gap', rest, rfl, hgap', hrest⟩ := hrest.of_cons
    obtain ⟨ht, hts⟩ := List.forall_mem_cons.mp hts
    obtain ⟨-, hordered⟩ := hordered
    obtain ⟨s', hs', hstrip⟩ := ih hts hordered rest hrest
    -- the gaps around the comma become one
    refine ⟨(gap ++ gap') ++ (t.text ++ s'),
      .cons (List.forall_mem_append.mpr ⟨hgap, hgap'⟩) hs', ?_⟩
    have hnext : closesNext (gap' ++ (t.text ++ (rest ++ g))) = true :=
      (closesNext_token hgap' ht _).trans hcloses
    have hcomma : t = .comma → closesNext (rest ++ g) = false := by
      rintro rfl
      cases hcloses
    rw [show Token.comma.text = [','] from rfl]
    simp only [List.append_assoc, List.cons_append, List.nil_append]
    rw [copies_commas.blanks (by decide) hgap, stripTrailingCommas_comma hnext,
      copies_commas.blanks (by decide) hgap', stripTrailingCommas_token ht hcomma, hstrip]

/-! ## Both -/

theorem toList_stripExtras (str : String) : (stripExtras str).toList =
    stripTrailingCommasFrom .code (stripCommentsFrom .code str.toList) := by
  rw [stripExtras, String.toList_ofList]
  rfl

theorem Writes.ordered_self (h : Writes n φ ts) : Ordered ts := by
  have := h.ordered [] trivial
  rwa [List.append_nil] at this

theorem stripExtras_spaced {str : String} (h : Writes n φ ts) (hstr : Extended ts str.toList) :
    Spaced ts (stripExtras str).toList := by
  obtain ⟨us, s, g, hcommas, hlaid, hg, htext⟩ := hstr
  obtain ⟨s', hs', hcomments⟩ := stripComments_laid hlaid (hcommas.clean h.clean)
  have hblanks := stripComments_finalTrivia hg
  obtain ⟨s'', hs'', hstrip⟩ :=
    stripTrailingCommas_laid hcommas h.clean h.ordered_self hblanks s' hs'
  refine ⟨s'', _, hs'', hblanks, ?_⟩
  rw [toList_stripExtras, htext, hcomments, hstrip]

theorem stripExtras_eq_self {str : String} (h : Writes n φ ts) (hstr : Spaced ts str.toList) :
    stripExtras str = str := by
  obtain ⟨s, g, hlaid, hg, htext⟩ := hstr
  have hcomments := copies_comments.blanks (by decide) hg []
  rw [List.append_nil, stripCommentsFrom, List.append_nil] at hcomments
  apply String.toList_inj.mp
  rw [toList_stripExtras, htext, stripComments_of_laid hlaid h.clean, hcomments,
    stripTrailingCommas_of_laid hlaid h.clean h.ordered_self hg]

/-- **Comments and trailing commas go unnoticed.**  A text of a value with blanks and comments around
its tokens and commas behind last elements becomes a text of the same tokens with blanks only.  That
text is read as the value if it nests 127 deep at most, and is refused as nested too deep otherwise.
A text without comments and such commas stays as it is. -/
theorem stripExtras_extended (h : Writes n (.value v) ts) (str : String) :
    (Extended ts str.toList → Spaced ts (stripExtras str).toList ∧
      (n ≤ 127 → parse (stripExtras str) = .ok v) ∧
      (127 < n → ∃ f, parse (stripExtras str) = .error f ∧ f.cause = .nestedTooDeep)) ∧
    (Spaced ts str.toList → stripExtras str = str) := by
  refine ⟨fun hstr => ?_, stripExtras_eq_self h⟩
  have hspaced := stripExtras_spaced h hstr
  exact ⟨hspaced, parse_of_spaced h hspaced⟩

def settings : Json := .object [("url", .string "//")]

def settingsTokens : List Token :=
  [.objectStart, .literal "\"url\"".toList, .colon, .literal "\"//\"".toList, .objectEnd]

/-- The slashes in the string and the bracket in the comment mean nothing; the comma before the
closing brace has a comment behind it. -/
def settingsText : String := "\x7b\"url\": \"//\", // a, b\n\x7d /* ] */"

theorem settings_read : Writes 1 (.value settings) settingsTokens ∧
    Extended settingsTokens settingsText.toList ∧
    Spaced settingsTokens (stripExtras settingsText).toList ∧
    parse (stripExtras settingsText) = .ok settings ∧
    stripExtras (stripExtras settingsText) = stripExtras settingsText := by
  have hkey : Literal "\"url\"".toList (.string "url") := .string (.plain (by decide) (by decide)
    (by decide) (.plain (by decide) (by decide) (by decide) (.plain (by decide) (by decide)
    (by decide) .nil)))
  have hvalue : Literal "\"//\"".toList (.string "//") := .string (.plain (by decide) (by decide)
    (by decide) (.plain (by decide) (by decide) (by decide) .nil))
  have hwrites : Writes 1 (.value settings) settingsTokens := .object (.member hkey (.literal hvalue))
  have hspace : Trivia " ".toList := .blank rfl .nil
  have hline : Trivia " // a, b\n".toList :=
    .blank rfl (@Trivia.line " a, b".toList [] (by decide) .nil)
  have hblock : Trivia " /* ] */".toList :=
    .blank rfl (@Trivia.block " ] ".toList [] (by decide) .nil)
  have hextended : Extended settingsTokens settingsText.toList :=
    ⟨_, _, _, .token (.token (.token (.token (.comma rfl rfl .nil)))),
      .cons .nil (.cons .nil (.cons .nil (.cons hspace (.cons .nil (.cons hline .nil))))),
      .inl hblock, rfl⟩
  obtain ⟨hspaced, hreads, -⟩ := (stripExtras_extended hwrites settingsText).1 hextended
  exact ⟨hwrites, hextended, hspaced, hreads (by decide),
    (stripExtras_extended hwrites (stripExtras settingsText)).2 hspaced⟩

/-! ### A list that nests too deep -/

/-- An empty list in so many lists. -/
def tower : Nat → Json
  | 0 => .array []
  | n + 1 => .array [tower n]

def towerTokens : Nat → List Token
  | 0 => [.listStart, .listEnd]
  | n + 1 => .listStart :: (towerTokens n ++ [.listEnd])

theorem writes_tower (n : Nat) : Writes (n + 1) (.value (tower n)) (towerTokens n) := by
  induction n with
  | zero => exact .emptyList
  | succ n ih => exact .list (.item ih)

/-- The tokens with nothing between them. -/
def tightText (ts : List Token) : String := String.ofList (ts.flatMap Token.text)

theorem spaced_tightText (ts : List Token) : Spaced ts (tightText ts).toList := by
  have hlaid : Laid Blanks ts (ts.flatMap Token.text) := by
    induction ts with
    | nil => exact .nil
    | cons t ts ih => exact .cons blanks_nil ih
  refine ⟨_, [], hlaid, blanks_nil, ?_⟩
  rw [tightText, String.toList_ofList, List.append_nil]

theorem Spaced.extended (h : Spaced ts text) : Extended ts text := by
  have htrivia : ∀ {g}, Blanks g → Trivia g := by
    intro g hg
    induction g with
    | nil => exact .nil
    | cons c g ih =>
      obtain ⟨hc, hg⟩ := List.forall_mem_cons.mp hg
      exact .blank hc (ih hg)
  have hcommas : ∀ (before? : Option Token) (ts : List Token), WithCommas before? ts ts := by
    intro before? ts
    induction ts generalizing before? with
    | nil => exact .nil
    | cons t ts ih => exact .token (ih (some t))
  have hlaid : ∀ {ts s}, Laid Blanks ts s → Laid Trivia ts s := by
    intro ts s hs
    induction hs with
    | nil => exact .nil
    | cons hg _ ih => exact .cons (htrivia hg) ih
  obtain ⟨s, g, hs, hg, htext⟩ := h
  exact ⟨ts, s, g, hcommas none ts, hlaid hs, .inl (htrivia hg), htext⟩

/-- A value is not read from its text where the containers nest deeper than the reader goes. -/
theorem tower_refused : Writes 128 (.value (tower 127)) (towerTokens 127) ∧
    Extended (towerTokens 127) (tightText (towerTokens 127)).toList ∧
    parse (stripExtras (tightText (towerTokens 127))) ≠ .ok (tower 127) := by
  have hspaced := spaced_tightText (towerTokens 127)
  refine ⟨writes_tower 127, hspaced.extended, fun hread => ?_⟩
  rw [stripExtras_eq_self (writes_tower 127) hspaced] at hread
  obtain ⟨f, hrefused, -⟩ := (parse_of_spaced (writes_tower 127) hspaced).2 (by decide)
  rw [hrefused] at hread
  cases hread

end ComponentRegistry.Json
