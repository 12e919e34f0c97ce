import ComponentRegistry.Proofs.Json.Scalars
import Mathlib.Data.List.Infix

/-!
# Texts cut into pieces

Any text, JSON or not, is scanned from its start into string literals, comments and the characters
between them (`Cut`).  A literal or a comment that is not closed goes on to the end of the text.  Every
text is cut in exactly one way (`existsUnique_cut`), whether comments are told or not.
-/

namespace ComponentRegistry.Json

open Reader

variable {c d : Char} {r r' s s' body body' : List Char}

/-! ## Literals -/

/-- What is left of a string that is not closed: a quote in it is escaped. -/
inductive Unclosed : List Char → Prop where
  | nil : Unclosed []
  | backslash : Unclosed ['\\']
  | escaped {c : Char} {s : List Char} : Unclosed s → Unclosed ('\\' :: c :: s)
  | plain {c : Char} {s : List Char} : c ≠ '"' → c ≠ '\\' → Unclosed s → Unclosed (c :: s)

/-- A string is closed somewhere, or it is not. -/
theorem unclosed_or_stringRest : ∀ s : List Char,
    Unclosed s ∨ ∃ a r, StringRest a ∧ s = a ++ r
  | [] => .inl .nil
  | c :: s => by
    by_cases hquote : c = '"'
    · subst hquote
      exact .inr ⟨['"'], s, .quote, rfl⟩
    by_cases hslash : c = '\\'
    · subst hslash
      cases s with
      | nil => exact .inl .backslash
      | cons d s =>
        rcases unclosed_or_stringRest s with h | ⟨a, r, ha, rfl⟩
        · exact .inl (.escaped h)
        · exact .inr ⟨'\\' :: d :: a, r, .escaped ha, rfl⟩
    · rcases unclosed_or_stringRest s with h | ⟨a, r, ha, rfl⟩
      · exact .inl (.plain hquote hslash h)
      · exact .inr ⟨c :: a, r, .plain hquote hslash ha, rfl⟩

/-- A string ends at its first quote that is not escaped. -/
theorem Reader.StringRest.append_inj (h : StringRest s) (h' : StringRest s') (heq : s ++ r = s' ++ r') :
    s = s' ∧ r = r' := by
  induction h generalizing s' with
  | quote =>
    cases h' with
    | quote => simpa using heq
    | escaped _ => simp at heq
    | plain hquote _ _ =>
      simp only [List.cons_append, List.cons.injEq] at heq
      exact absurd heq.1.symm hquote
  | escaped _ ih =>
    cases h' with
    | quote => simp at heq
    | escaped h' =>
      simp only [List.cons_append, List.cons.injEq, true_and] at heq
      obtain ⟨rfl, heq⟩ := heq
      obtain ⟨rfl, rfl⟩ := ih h' heq
      exact ⟨rfl, rfl⟩
    | plain _ hslash _ =>
      simp only [List.cons_append, List.cons.injEq] at heq
      exact absurd heq.1.symm hslash
  | plain hquote hslash _ ih =>
    cases h' with
    | quote =>
      simp only [List.cons_append, List.cons.injEq] at heq
      exact absurd heq.1 hquote
    | escaped _ =>
      simp only [List.cons_append, List.cons.injEq] at heq
      exact absurd heq.1 hslash
    | plain _ _ h' =>
      simp only [List.cons_append, List.cons.injEq] at heq
      obtain ⟨rfl, heq⟩ := heq
      obtain ⟨rfl, rfl⟩ := ih h' heq
      exact ⟨rfl, rfl⟩

theorem Reader.StringRest.not_unclosed (h : StringRest s) (r : List Char) : ¬ Unclosed (s ++ r) := by
  suffices hne : ∀ t, Unclosed t → s ++ r ≠ t from fun hopen => hne _ hopen rfl
  induction h with
  | quote =>
    rintro t hopen heq
    cases hopen with
    | plain hquote _ _ => exact hquote (List.cons.inj heq).1.symm
    | _ => simp at heq
  | escaped _ ih =>
    rintro t hopen heq
    cases hopen with
    | escaped hopen =>
      simp only [List.cons_append, List.cons.injEq, true_and] at heq
      exact ih _ hopen heq.2
    | plain _ hslash _ => exact hslash (List.cons.inj heq).1.symm
    | _ => simp at heq
  | plain _ hslash _ ih =>
    rintro t hopen heq
    cases hopen with
    | nil => simp at heq
    | backslash => exact hslash (List.cons.inj heq).1
    | escaped _ => exact hslash (List.cons.inj heq).1
    | plain _ _ hopen => exact ih _ hopen (List.cons.inj heq).2

/-! ## Comments -/

/-- What ends a block comment. -/
def blockEnd : List Char := ['*', '/']

/-- A comment and what stands behind it: a line comment ends before a line feed, a block comment with
the first `*/`, and each goes on to the end of the text if it does not end before. -/
inductive Comment : List Char → List Char → Prop where
  | line {body rest : List Char} :
    '\n' ∉ body → (∀ c ∈ rest.head?, c = '\n') → Comment ('/' :: '/' :: body) rest
  | block {body rest : List Char} :
    ¬ blockEnd <:+: body → Comment ('/' :: '*' :: (body ++ blockEnd)) rest
  | unclosed {body : List Char} : ¬ blockEnd <:+: body → Comment ('/' :: '*' :: body) []

theorem exists_line (s : List Char) :
    ∃ body rest, s = body ++ rest ∧ '\n' ∉ body ∧ ∀ c ∈ rest.head?, c = '\n' := by
  induction s with
  | nil => exact ⟨[], [], rfl, by simp, by simp⟩
  | cons c s ih =>
    by_cases hfeed : c = '\n'
    · exact ⟨[], c :: s, rfl, by simp, by simpa using hfeed⟩
    · obtain ⟨body, rest, rfl, hbody, hrest⟩ := ih
      exact ⟨c :: body, rest, rfl, by simp [Ne.symm hfeed, hbody], hrest⟩

theorem exists_block (s : List Char) : ¬ blockEnd <:+: s ∨
    ∃ body rest, s = body ++ (blockEnd ++ rest) ∧ ¬ blockEnd <:+: body := by
  induction s with
  | nil => exact .inl (by simp [blockEnd])
  | cons c s ih =>
    by_cases hends : blockEnd <+: c :: s
    · obtain ⟨rest, hrest⟩ := hends
      exact .inr ⟨[], rest, hrest.symm, by simp [blockEnd]⟩
    · rcases ih with h | ⟨body, rest, rfl, hbody⟩
      · left
        rw [List.infix_cons_iff, not_or]
        exact ⟨hends, h⟩
      · right
        refine ⟨c :: body, rest, rfl, ?_⟩
        rw [List.infix_cons_iff, not_or]
        exact ⟨fun hbegins => hends (hbegins.trans (List.prefix_append (c :: body) _)), hbody⟩

theorem line_append_inj (hbody : '\n' ∉ body) (hbody' : '\n' ∉ body') (hr : ∀ c ∈ r.head?, c = '\n')
    (hr' : ∀ c ∈ r'.head?, c = '\n') (heq : body ++ r = body' ++ r') : body = body' ∧ r = r' := by
  induction body generalizing body' with
  | nil =>
    cases body' with
    | nil => exact ⟨rfl, heq⟩
    | cons c body' =>
      have hc : c = '\n' := hr c (by rw [List.nil_append] at heq; simp [heq])
      simp [hc] at hbody'
  | cons c body ih =>
    cases body' with
    | nil =>
      have hc : c = '\n' := hr' c (by rw [List.nil_append] at heq; simp [← heq])
      simp [hc] at hbody
    | cons c' body' =>
      simp only [List.cons_append, List.cons.injEq] at heq
      obtain ⟨rfl, heq⟩ := heq
      obtain ⟨rfl, rfl⟩ := ih (by simp_all) (by simp_all) heq
      exact ⟨rfl, rfl⟩

/-- The first `*/` is the only one that has none before it. -/
theorem block_append_inj (hbody : ¬ blockEnd <:+: body) (hbody' : ¬ blockEnd <:+: body')
    (heq : body ++ (blockEnd ++ r) = body' ++ (blockEnd ++ r')) : body = body' ∧ r = r' := by
  have hshort : ∀ {a b x t t' : List Char}, ¬ blockEnd <:+: b → b = a ++ x →
      blockEnd ++ t = x ++ (blockEnd ++ t') → x = [] := by
    intro a b x t t' hb hx hrest
    cases x with
    | nil => rfl
    | cons e x =>
      exfalso
      cases x with
      | nil => simp [blockEnd] at hrest
      | cons e' x =>
        simp only [blockEnd, List.cons_append, List.nil_append, List.cons.injEq] at hrest
        obtain ⟨rfl, rfl, -⟩ := hrest
        exact hb ⟨a, x, by simp [hx, blockEnd]⟩
  rcases List.append_eq_append_iff.mp heq with ⟨x, hx, hrest⟩ | ⟨x, hx, hrest⟩
  · obtain rfl := hshort hbody' hx hrest
    simp_all
  · obtain rfl := hshort hbody hx hrest
    simp_all

/-- A comment ends in one place. -/
theorem Comment.append_inj (h : Comment s r) (h' : Comment s' r') (heq : s ++ r = s' ++ r') :
    s = s' ∧ r = r' := by
  have hends : ∀ (body r : List Char), blockEnd <:+: body ++ blockEnd ++ r := fun body r => ⟨body, r, rfl⟩
  cases h with
  | line hbody hr =>
    cases h' with
    | line hbody' hr' =>
      simp only [List.cons_append, List.cons.injEq, true_and] at heq ⊢
      exact line_append_inj hbody hbody' hr hr' heq
    | block _ => simp at heq
    | unclosed _ => simp at heq
  | block hbody =>
    cases h' with
    | line _ _ => simp at heq
    | block hbody' =>
      simp only [List.cons_append, List.cons.injEq, true_and, List.append_assoc] at heq
      obtain ⟨rfl, rfl⟩ := block_append_inj hbody hbody' heq
      exact ⟨rfl, rfl⟩
    | unclosed hbody' =>
      simp only [List.cons_append, List.cons.injEq, true_and, List.append_nil] at heq
      exact absurd (heq ▸ hends _ _) hbody'
  | unclosed hbody =>
    cases h' with
    | line _ _ => simp at heq
    | block _ =>
      simp only [List.cons_append, List.cons.injEq, true_and, List.append_nil] at heq
      exact absurd (heq ▸ hends _ _) hbody
    | unclosed _ => simpa using heq

/-! ## Pieces -/

inductive Piece where
  /-- A character outside of literals and comments. -/
  | char (c : Char)
  /-- A string literal with its quotes; the last one may lack the closing one. -/
  | literal (text : List Char)
  | comment (text : List Char)
  deriving DecidableEq, Repr

namespace Piece

def text : Piece → List Char
  | .char c => [c]
  | .literal text => text
  | .comment text => text

def isComment : Piece → Bool
  | .comment _ => true
  | _ => false

/-- The text of a string literal. -/
def literal? : Piece → Option (List Char)
  | .literal text => some text
  | _ => none

end Piece

/-- The two characters begin a comment. -/
def Opens (c d : Char) : Prop := c = '/' ∧ (d = '/' ∨ d = '*')

/-- How a text is scanned: in JSON there are no comments. -/
inductive Form where
  | json
  | jsonc
  deriving DecidableEq, Repr

/-- The text, scanned from its start, is cut into these pieces. -/
inductive Cut (f : Form) : List Char → List Piece → Prop where
  | nil : Cut f [] []
  | char {c : Char} {r : List Char} {ps : List Piece} :
    c ≠ '"' → (f = .jsonc → ∀ d ∈ r.head?, ¬ Opens c d) → Cut f r ps → Cut f (c :: r) (.char c :: ps)
  | literal {s r : List Char} {ps : List Piece} :
    StringRest s → Cut f r ps → Cut f ('"' :: (s ++ r)) (.literal ('"' :: s) :: ps)
  | unclosed {s : List Char} : Unclosed s → Cut f ('"' :: s) [.literal ('"' :: s)]
  | comment {s r : List Char} {ps : List Piece} :
    f = .jsonc → Comment s r → Cut f r ps → Cut f (s ++ r) (.comment s :: ps)

variable {f : Form} {ps qs : List Piece}

theorem Comment.opens (h : Comment s r) : ∃ d t, s = '/' :: d :: t ∧ Opens '/' d := by
  cases h with
  | line _ _ => exact ⟨'/', _, rfl, rfl, .inl rfl⟩
  | block _ => exact ⟨'*', _, rfl, rfl, .inr rfl⟩
  | unclosed _ => exact ⟨'*', _, rfl, rfl, .inr rfl⟩

/-- What begins a comment is one. -/
theorem exists_comment (h : Opens c d) (s : List Char) :
    ∃ a r, Comment a r ∧ c :: d :: s = a ++ r ∧ r.length ≤ s.length := by
  obtain ⟨rfl, rfl | rfl⟩ := h
  · obtain ⟨body, rest, rfl, hbody, hrest⟩ := exists_line s
    exact ⟨_, rest, .line hbody hrest, rfl, by simp⟩
  · rcases exists_block s with hbody | ⟨body, rest, rfl, hbody⟩
    · exact ⟨_, [], .unclosed hbody, by simp, by simp⟩
    · refine ⟨_, rest, .block hbody, by simp, ?_⟩
      simp only [List.length_append]
      omega

/-- Every text can be cut. -/
theorem exists_cut (f : Form) (s : List Char) : ∃ ps, Cut f s ps := by
  induction hn : s.length using Nat.strong_induction_on generalizing s with
  | _ n ih =>
    have hshorter : ∀ r : List Char, r.length < n → ∃ ps, Cut f r ps :=
      fun r hr => ih r.length hr r rfl
    cases s with
    | nil => exact ⟨[], .nil⟩
    | cons c r =>
      have hlength : r.length < n := by simp only [List.length_cons] at hn; omega
      by_cases hquote : c = '"'
      · subst hquote
        rcases unclosed_or_stringRest r with hopen | ⟨a, rest, ha, rfl⟩
        · exact ⟨_, .unclosed hopen⟩
        · have hrest : rest.length < n := by simp only [List.length_append] at hlength; omega
          obtain ⟨ps, hps⟩ := hshorter rest hrest
          exact ⟨_, .literal ha hps⟩
      by_cases hopens : f = .jsonc ∧ ∃ d ∈ r.head?, Opens c d
      · obtain ⟨hf, d, hd, hcd⟩ := hopens
        obtain ⟨t, rfl⟩ := List.head?_eq_some_iff.mp hd
        obtain ⟨a, rest, ha, heq, hle⟩ := exists_comment hcd t
        have hrest : rest.length < n := by simp only [List.length_cons] at hlength; omega
        obtain ⟨ps, hps⟩ := hshorter rest hrest
        rw [heq]
        exact ⟨_, .comment hf ha hps⟩
      · obtain ⟨ps, hps⟩ := hshorter r hlength
        exact ⟨_, .char hquote (fun hf d hd hcd => hopens ⟨hf, d, hd, hcd⟩) hps⟩

/-- No text can be cut in two ways. -/
theorem Cut.unique (h : Cut f s ps) (h' : Cut f s qs) : ps = qs := by
  suffices hall : ∀ t qs, Cut f t qs → s = t → ps = qs from hall s qs h' rfl
  clear h'
  -- a comment does not begin with a quote, nor with a character that is told from comments
  have hcomment : ∀ {a r t : List Char} {c : Char}, f = .jsonc → Comment a r → c :: t = a ++ r →
      c ≠ '"' ∧ ¬ (f = .jsonc → ∀ d ∈ t.head?, ¬ Opens c d) := by
    intro a r t c hf ha heq
    obtain ⟨d, rest, rfl, hopens⟩ := ha.opens
    simp only [List.cons_append, List.cons.injEq] at heq
    obtain ⟨rfl, rfl⟩ := heq
    exact ⟨by decide, fun hnot => hnot hf d rfl hopens⟩
  induction h with
  | nil =>
    intro t qs h' heq
    cases h' with
    | nil => rfl
    | comment _ ha _ =>
      obtain ⟨d, rest, rfl, -⟩ := ha.opens
      simp at heq
    | _ => simp at heq
  | char hquote hnot _ ih =>
    intro t qs h' heq
    cases h' with
    | nil => simp at heq
    | char _ _ h' =>
      obtain ⟨rfl, rfl⟩ := List.cons.inj heq
      rw [ih _ _ h' rfl]
    | literal _ _ => exact absurd (List.cons.inj heq).1 hquote
    | unclosed _ => exact absurd (List.cons.inj heq).1 hquote
    | comment hf ha _ => exact absurd hnot (hcomment hf ha heq).2
  | literal hs _ ih =>
    intro t qs h' heq
    cases h' with
    | nil => simp at heq
    | char hquote _ _ => exact absurd (List.cons.inj heq).1.symm hquote
    | literal hs' h' =>
      obtain ⟨rfl, rfl⟩ := hs.append_inj hs' (List.cons.inj heq).2
      rw [ih _ _ h' rfl]
    | unclosed hopen => exact absurd ((List.cons.inj heq).2 ▸ hopen) (hs.not_unclosed _)
    | comment hf ha _ => exact absurd rfl (hcomment hf ha heq).1
  | unclosed hopen =>
    intro t qs h' heq
    cases h' with
    | nil => simp at heq
    | char hquote _ _ => exact absurd (List.cons.inj heq).1.symm hquote
    | literal hs _ => exact absurd ((List.cons.inj heq).2 ▸ hopen) (hs.not_unclosed _)
    | unclosed _ => rw [(List.cons.inj heq).2]
    | comment hf ha _ => exact absurd rfl (hcomment hf ha heq).1
  | comment hf ha _ ih =>
    intro t qs h' heq
    cases h' with
    | nil =>
      obtain ⟨d, rest, rfl, -⟩ := ha.opens
      simp at heq
    | char _ hnot _ => exact absurd hnot (hcomment hf ha heq.symm).2
    | literal _ _ => exact absurd rfl (hcomment hf ha heq.symm).1
    | unclosed _ => exact absurd rfl (hcomment hf ha heq.symm).1
    | comment _ ha' h' =>
      obtain ⟨rfl, rfl⟩ := ha.append_inj ha' heq
      rw [ih _ _ h' rfl]

theorem existsUnique_cut (f : Form) (s : List Char) : ∃! ps, Cut f s ps := by
  obtain ⟨ps, hps⟩ := exists_cut f s
  exact ⟨ps, hps, fun qs hqs => hqs.unique hps⟩

end ComponentRegistry.Json
