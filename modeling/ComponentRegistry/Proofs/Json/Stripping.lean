import ComponentRegistry.Proofs.Json.Extras
import ComponentRegistry.Proofs.Json.Pieces

/-!
# Stripping any text

What is left of a text, well-formed or not, when comments and trailing commas are taken out.  Both
scanners see the pieces that the text is cut into (`Cut`): the first leaves out the comments
(`Cut.stripComments`), the second some commas (`Cut.stripTrailingCommas`).  What comes to stand side by
side is cut as before: no comment opens anew and no literal moves (`stripExtras_cut`).
-/

namespace ComponentRegistry.Json

open Reader

variable {c d : Char} {r s body : List Char} {f : Form} {ps qs : List Piece}

/-! ## Nothing is put in -/

theorem sublist_stripCommentsFrom (mode : CommentMode) (s : List Char) :
    (stripCommentsFrom mode s).Sublist s := by
  fun_induction stripCommentsFrom mode s with
  | case1 => exact .slnil
  | case2 c r ih => exact ih.cons_cons c
  | case3 c r ih => exact ih.cons_cons c
  | case4 r ih => exact ih.cons_cons '\n'
  | case5 c r _ ih => exact ih.cons c
  | case6 star c r _ ih => exact ih.cons c
  | case7 star c r _ ih => exact ih.cons c
  | case8 r ih => exact ih.cons_cons '"'
  | case9 r ih => exact (ih.cons '/').cons '/'
  | case10 r ih => exact (ih.cons '*').cons '/'
  | case11 c r _ _ _ ih => exact ih.cons_cons c

theorem sublist_stripTrailingCommasFrom (mode : CommaMode) (s : List Char) :
    (stripTrailingCommasFrom mode s).Sublist s := by
  fun_induction stripTrailingCommasFrom mode s with
  | case1 => exact .slnil
  | case2 c r ih => exact ih.cons_cons c
  | case3 c r ih => exact ih.cons_cons c
  | case4 r ih => exact ih.cons_cons '"'
  | case5 c r _ _ ih => exact ih.cons c
  | case6 c r _ _ ih => exact ih.cons_cons c

/-- A string that is not closed is copied up to the end of the text. -/
theorem Copies.unclosed {mark : Char} {scan scanString : List Char → List Char}
    (h : Copies mark scan scanString) (hnil : scanString [] = []) (hslash : scanString ['\\'] = ['\\'])
    (hs : Unclosed s) : scanString s = s := by
  induction hs with
  | nil => exact hnil
  | backslash => exact hslash
  | escaped _ ih => rw [h.escaped, ih]
  | plain hquote hother _ ih => rw [h.plain _ hquote hother, ih]

/-! ## Comments -/

theorem stripComments_char (hquote : c ≠ '"') (hnot : ∀ d ∈ r.head?, ¬ Opens c d) :
    stripCommentsFrom .code (c :: r) = c :: stripCommentsFrom .code r := by
  rw [stripCommentsFrom]
  · exact hquote
  · rintro r' hc rfl
    exact hnot '/' rfl ⟨hc, .inl rfl⟩
  · rintro r' hc rfl
    exact hnot '*' rfl ⟨hc, .inr rfl⟩

/-- A block comment that is not closed is taken out up to the end of the text. -/
theorem stripComments_unclosed_block {star : Bool} (h : ¬ blockEnd <:+: body)
    (hstar : star = true → body.head? ≠ some '/') : stripCommentsFrom (.block star) body = [] := by
  induction body generalizing star with
  | nil => rfl
  | cons c body ih =>
    rw [List.infix_cons_iff, not_or] at h
    have hc : ¬ (star = true ∧ c = '/') := by
      rintro ⟨hs, rfl⟩
      exact hstar hs rfl
    have hnext : decide (c = '*') = true → body.head? ≠ some '/' := by
      intro hcstar hhead
      obtain ⟨t, rfl⟩ := List.head?_eq_some_iff.mp hhead
      obtain rfl : c = '*' := by simpa using hcstar
      exact h.1 (List.prefix_append ['*', '/'] t)
    rw [stripCommentsFrom, if_neg (by simpa using hc)]
    exact ih h.2 hnext

theorem stripComments_comment (h : Comment s r) :
    stripCommentsFrom .code (s ++ r) = stripCommentsFrom .code r := by
  cases h with
  | @line body _ hbody hrest =>
    obtain ⟨hend, hnext⟩ := stripComments_line hbody
    rw [List.cons_append, List.cons_append, stripCommentsFrom]
    cases r with
    | nil => rw [List.append_nil, hend, stripCommentsFrom]
    | cons c r =>
      obtain rfl : c = '\n' := hrest c rfl
      rw [hnext, stripComments_char (by decide) (fun d _ hopens => absurd hopens.1 (by decide))]
  | @block body _ hbody =>
    have hstrip := @stripComments_block body false hbody (by simp) r
    rw [List.cons_append, List.cons_append, stripCommentsFrom, ← hstrip]
    simp [blockEnd]
  | @unclosed body hbody =>
    rw [List.append_nil]
    show stripCommentsFrom (.block false) body = []
    exact stripComments_unclosed_block hbody (by simp)

/-- The pieces that are no comments. -/
def uncommented (ps : List Piece) : List Piece := ps.filter fun p => !p.isComment

/-- **Without its comments a text is its other pieces.** -/
theorem Cut.stripComments_eq (h : Cut .jsonc s ps) :
    stripCommentsFrom .code s = (uncommented ps).flatMap Piece.text := by
  induction h with
  | nil => rfl
  | char hquote hnot _ ih => rw [stripComments_char hquote (hnot rfl), ih]; rfl
  | literal hs _ ih =>
    rw [copies_comments.openQuote, copies_comments.stringRest hs, ih]
    rfl
  | unclosed hs =>
    rw [copies_comments.openQuote, copies_comments.unclosed rfl rfl hs]
    simp [uncommented, Piece.isComment, Piece.text]
  | comment _ hs _ ih =>
    rw [stripComments_comment hs, ih]
    rfl

/-- A text that does not begin with a slash begins as before. -/
theorem head?_stripComments (h : s.head? ≠ some '/') :
    (stripCommentsFrom .code s).head? = s.head? := by
  cases s with
  | nil => rfl
  | cons c r =>
    have hslash : c ≠ '/' := by simpa using h
    by_cases hquote : c = '"'
    · rw [hquote, copies_comments.openQuote]
      rfl
    · rw [copies_comments.other r hquote hslash]
      rfl

/-- **The pieces that are left are cut as before.** -/
theorem Cut.stripComments (h : Cut .jsonc s ps) :
    Cut .jsonc (stripCommentsFrom .code s) (uncommented ps) := by
  induction h with
  | nil => exact .nil
  | @char c r ps hquote hnot _ ih =>
    rw [stripComments_char hquote (hnot rfl)]
    refine .char hquote (fun _ d hd hopens => ?_) ih
    -- a slash has no comment behind it, which would begin with a slash
    have hslash : r.head? ≠ some '/' := fun hr => hnot rfl '/' hr ⟨hopens.1, .inl rfl⟩
    rw [head?_stripComments hslash] at hd
    exact hnot rfl d hd hopens
  | literal hs _ ih =>
    rw [copies_comments.openQuote, copies_comments.stringRest hs]
    exact .literal hs ih
  | unclosed hs =>
    rw [copies_comments.openQuote, copies_comments.unclosed rfl rfl hs]
    exact .unclosed hs
  | comment _ hs _ ih =>
    rw [stripComments_comment hs]
    exact ih

theorem literals_uncommented (ps : List Piece) :
    (uncommented ps).filterMap Piece.literal? = ps.filterMap Piece.literal? := by
  rw [uncommented, List.filterMap_filter]
  refine List.filterMap_congr fun p _ => ?_
  cases p <;> rfl

theorem uncommented_uncommented (ps : List Piece) : uncommented (uncommented ps) = uncommented ps := by
  simp [uncommented]

theorem stripComments_stripComments (s : List Char) :
    Json.stripComments (Json.stripComments s) = Json.stripComments s := by
  obtain ⟨ps, hps⟩ := exists_cut .jsonc s
  have hagain := hps.stripComments.stripComments_eq
  rw [uncommented_uncommented, ← hps.stripComments_eq] at hagain
  exact hagain

/-! ## Commas -/

theorem exists_of_closesNext (h : closesNext s = true) :
    ∃ e t, s = e :: t ∧ (Text.isBlank e = true ∨ e = '\x7d' ∨ e = ']') := by
  cases s with
  | nil => cases h
  | cons e t =>
    refine ⟨e, t, rfl, ?_⟩
    cases hblank : Text.isBlank e with
    | true => exact .inl rfl
    | false => simpa [closesNext, Text.trimStart, hblank] using h

/-- No comma gives way to a character that goes on with a comment. -/
theorem head?_stripTrailingCommas (hd : d ∈ (stripTrailingCommasFrom .code s).head?)
    (hslash : Opens '/' d) : d ∈ s.head? := by
  cases s with
  | nil => exact hd
  | cons c r =>
    by_cases hcomma : c = ',' ∧ closesNext r = true
    · obtain ⟨rfl, hnext⟩ := hcomma
      obtain ⟨e, t, rfl, he⟩ := exists_of_closesNext hnext
      have hother : e ≠ '"' ∧ e ≠ ',' ∧ ¬ Opens '/' e := by
        have hne : ∀ x, Text.isBlank x = false → x ≠ '\x7d' → x ≠ ']' → e ≠ x := by
          rintro x hblank hbrace hbracket rfl
          simp [hblank, hbrace, hbracket] at he
        refine ⟨hne _ (by decide) (by decide) (by decide), hne _ (by decide) (by decide) (by decide), ?_⟩
        rintro ⟨-, rfl | rfl⟩
        · exact hne '/' (by decide) (by decide) (by decide) rfl
        · exact hne '*' (by decide) (by decide) (by decide) rfl
      rw [stripTrailingCommas_comma hnext, copies_commas.other t hother.1 hother.2.1] at hd
      obtain rfl : e = d := by simpa using hd
      exact absurd hslash hother.2.2
    · have hcopy : ∃ t, stripTrailingCommasFrom .code (c :: r) = c :: t := by
        rw [stripTrailingCommasFrom]
        split
        · exact ⟨_, rfl⟩
        · rw [if_neg (by simpa using hcomma)]
          exact ⟨_, rfl⟩
      obtain ⟨t, ht⟩ := hcopy
      rw [ht] at hd
      exact hd

/-- **Without trailing commas a text without comments has its literals, and still no comments.** -/
theorem Cut.stripTrailingCommas (h : Cut .jsonc s ps) (hps : ∀ p ∈ ps, p.isComment = false) :
    ∃ qs, Cut .jsonc (stripTrailingCommasFrom .code s) qs ∧ (∀ q ∈ qs, q.isComment = false) ∧
      qs.filterMap Piece.literal? = ps.filterMap Piece.literal? := by
  induction h with
  | nil => exact ⟨[], .nil, hps, rfl⟩
  | @char c r ps hquote hnot _ ih =>
    obtain ⟨qs, hqs, hclean, hliterals⟩ := ih fun p hp => hps p (List.mem_cons_of_mem _ hp)
    by_cases hcomma : c = ',' ∧ closesNext r = true
    · obtain ⟨rfl, hnext⟩ := hcomma
      rw [stripTrailingCommas_comma hnext]
      exact ⟨qs, hqs, hclean, hliterals⟩
    · have hcopy : stripTrailingCommasFrom .code (c :: r) = c :: stripTrailingCommasFrom .code r := by
        rw [stripTrailingCommasFrom, if_neg hquote, if_neg (by simpa using hcomma)]
      rw [hcopy]
      refine ⟨.char c :: qs, .char hquote (fun hf d hd hopens => ?_) hqs, ?_, hliterals⟩
      · obtain rfl : c = '/' := hopens.1
        exact hnot hf d (head?_stripTrailingCommas hd hopens) hopens
      · exact List.forall_mem_cons.mpr ⟨rfl, hclean⟩
  | @literal s r ps hs _ ih =>
    obtain ⟨qs, hqs, hclean, hliterals⟩ := ih fun p hp => hps p (List.mem_cons_of_mem _ hp)
    rw [copies_commas.openQuote, copies_commas.stringRest hs]
    refine ⟨.literal ('"' :: s) :: qs, .literal hs hqs, List.forall_mem_cons.mpr ⟨rfl, hclean⟩, ?_⟩
    simp [Piece.literal?, hliterals]
  | @unclosed s hs =>
    rw [copies_commas.openQuote, copies_commas.unclosed rfl rfl hs]
    exact ⟨_, .unclosed hs, hps, rfl⟩
  | comment _ _ _ _ =>
    have hno := hps _ (List.mem_cons_self ..)
    cases hno

/-! ## Both -/

/-- Where there are no comments, a text is cut as JSON is, and nothing in it looks like a comment. -/
theorem Cut.json (h : Cut .jsonc s ps) (hps : ∀ p ∈ ps, p.isComment = false) : Cut .json s ps := by
  induction h with
  | nil => exact .nil
  | char hquote _ _ ih =>
    exact .char hquote (fun hf => by cases hf) (ih fun p hp => hps p (List.mem_cons_of_mem _ hp))
  | literal hs _ ih => exact .literal hs (ih fun p hp => hps p (List.mem_cons_of_mem _ hp))
  | unclosed hs => exact .unclosed hs
  | comment _ _ _ _ =>
    have hno := hps _ (List.mem_cons_self ..)
    cases hno

/-- The character behind a character that is no comment does not make it one. -/
theorem Cut.not_opens (h : Cut .jsonc s ps) {before after : List Piece}
    (heq : ps = before ++ .char c :: .char d :: after) : ¬ Opens c d := by
  induction h generalizing before with
  | nil => simp at heq
  | char _ hnot hrest ih =>
    cases before with
    | nil =>
      obtain ⟨hc, rfl⟩ := List.cons.inj heq
      obtain rfl := Piece.char.inj hc
      cases hrest with
      | char _ _ _ => exact hnot rfl d rfl
    | cons p before => exact ih (List.cons.inj heq).2
  | literal _ _ ih =>
    cases before with
    | nil => simp at heq
    | cons p before => exact ih (List.cons.inj heq).2
  | unclosed _ =>
    cases before with
    | nil => simp at heq
    | cons p before => simp at heq
  | comment _ _ _ ih =>
    cases before with
    | nil => simp at heq
    | cons p before => exact ih (List.cons.inj heq).2

/-- **Stripping is safe on any text.**  Characters are taken out and none are put in.  The text with its
comments and what is left of it, read as JSON, are each cut into pieces in exactly one way.  In what is
left nothing outside of literals looks like a comment, and its literals are those of the text outside
its comments, in their order, the last one closed or not.  Comments are taken out at once. -/
theorem stripExtras_cut (text : String) :
    (stripExtras text).toList.Sublist text.toList ∧
    (∃! ps, Cut .jsonc text.toList ps) ∧ (∃! qs, Cut .json (stripExtras text).toList qs) ∧
    (∀ ps qs, Cut .jsonc text.toList ps → Cut .json (stripExtras text).toList qs →
      (∀ before c d after, qs = before ++ .char c :: .char d :: after → ¬ Opens c d) ∧
      qs.filterMap Piece.literal? = ps.filterMap Piece.literal?) ∧
    Json.stripComments (Json.stripComments text.toList) = Json.stripComments text.toList := by
  have hsublist : (stripExtras text).toList.Sublist text.toList := by
    rw [toList_stripExtras]
    exact (sublist_stripTrailingCommasFrom _ _).trans (sublist_stripCommentsFrom _ _)
  refine ⟨hsublist, existsUnique_cut _ _, existsUnique_cut _ _, fun ps qs hps hqs => ?_,
    stripComments_stripComments _⟩
  have hclean : ∀ p ∈ uncommented ps, p.isComment = false := by
    intro p hp
    simpa using (List.mem_filter.mp hp).2
  obtain ⟨found, hfound, hfree, hliterals⟩ := hps.stripComments.stripTrailingCommas hclean
  rw [← toList_stripExtras] at hfound
  obtain rfl := (hfound.json hfree).unique hqs
  exact ⟨fun before c d after heq => hfound.not_opens heq, hliterals.trans (literals_uncommented ps)⟩

/-- The slash and the bracket come to stand side by side; the quote in the comment opens nothing. -/
example : stripExtras "/,] // \"" = "/] " := by decide +kernel

end ComponentRegistry.Json
