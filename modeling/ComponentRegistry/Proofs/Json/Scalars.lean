import ComponentRegistry.Proofs.Json.Grammar
import Mathlib.Data.List.TakeWhile

/-!
# What readers take

A reader that succeeds has taken a piece of the text, and it takes the same piece for the same value
wherever it stands, if the text does not go on with a character that the piece could go on with
(`Takes`).  For words and strings there is no such character, for numbers there are a few.
-/

namespace ComponentRegistry.Json.Reader

variable {α β : Type} {r x : Reader α} {f : α → Reader β} {c c' : Cursor} {s t k l : List Char} {a : α}
  {b : β} {p q : Char → Bool} {ch : Char}

/-! ## Steps -/

theorem bind_run_ok {y : β × Cursor} : (x >>= f).run c = .ok y ↔
    ∃ a c', x.run c = .ok (a, c') ∧ (f a).run c' = .ok y := by
  rw [StateT.run_bind]
  cases x.run c with
  | error e => simp [bind, Except.bind]
  | ok y => exact ⟨fun h => ⟨y.1, y.2, rfl, h⟩, fun ⟨a, c', he, h⟩ => by cases he; exact h⟩

@[simp] theorem peek_bind_run (f : Option Char → Reader β) (c : Cursor) :
    (peek? >>= f).run c = (f c.rest.head?).run c := rfl

@[simp] theorem take_bind_run (r : Unit → Reader β) (c : Cursor) :
    (take >>= r).run c = (r ()).run c.next := rfl

theorem rest_next (h : c.rest = ch :: l) : c.next.rest = l := by
  unfold Cursor.next
  rw [h]
  dsimp only
  split_ifs <;> rfl

/-! ## What is taken -/

/-- The text does not begin with such a character. -/
def Ends (p : Char → Bool) (k : List Char) : Prop := ∀ c ∈ k.head?, p c = false

theorem ends_nil (p : Char → Bool) : Ends p [] := by simp [Ends]

theorem ends_cons : Ends p (ch :: k) ↔ p ch = false := by simp [Ends]

theorem Ends.mono (h : Ends q k) (hpq : ∀ c, p c = true → q c = true) : Ends p k := by
  intro c hc
  by_contra hp
  have := h c hc
  rw [hpq c (by simpa using hp)] at this
  cases this

/-- The reader takes `s` for `a`, if no character follows that it would go on with. -/
def Takes (r : Reader α) (s : List Char) (a : α) (p : Char → Bool) : Prop :=
  ∀ (c : Cursor) (k : List Char), c.rest = s ++ k → Ends p k →
    ∃ c', r.run c = .ok (a, c') ∧ c'.rest = k

theorem takes_pure (a : α) (p : Char → Bool) : Takes (pure a) [] a p :=
  fun c _ hc _ => ⟨c, rfl, hc⟩

theorem Takes.mono (h : Takes r s a p) (hpq : ∀ c, p c = true → q c = true) : Takes r s a q :=
  fun c k hc hk => h c k hc (hk.mono hpq)

theorem Takes.bind (hx : Takes x s a p) (hf : Takes (f a) t b q)
    (hends : ∀ k, Ends q k → Ends p (t ++ k)) : Takes (x >>= f) (s ++ t) b q := by
  intro c k hc hk
  rw [List.append_assoc] at hc
  obtain ⟨c', hrun, hrest⟩ := hx c (t ++ k) hc (hends k hk)
  obtain ⟨c'', hrun', hrest'⟩ := hf c' k hrest hk
  exact ⟨c'', bind_run_ok.mpr ⟨a, c', hrun, hrun'⟩, hrest'⟩

theorem Takes.take (h : Takes r s a p) (ch : Char) : Takes (do take; r) (ch :: s) a p := by
  intro c k hc hk
  rw [take_bind_run]
  exact h c.next k (rest_next hc) hk

theorem Takes.peek {f : Option Char → Reader β} (h : Takes (f (some ch)) (ch :: s) b p) :
    Takes (peek? >>= f) (ch :: s) b p := by
  intro c k hc hk
  rw [peek_bind_run, hc]
  exact h c k hc hk

theorem takes_peek_nil {f : Option Char → Reader β}
    (h : ∀ o : Option Char, (∀ c ∈ o, p c = false) → Takes (f o) [] b p) :
    Takes (peek? >>= f) [] b p := by
  intro c k hc hk
  rw [peek_bind_run]
  exact h c.rest.head? (by rw [hc]; exact hk) c k hc hk

theorem takes_get {f : Cursor → Reader β} (h : ∀ c, Takes (f c) s b p) :
    Takes (get >>= f) s b p :=
  fun c k hc hk => h c c k hc hk

/-- What is read without a look at the text is read anywhere. -/
theorem takes_nil (h : ∀ c, r.run c = .ok (a, c)) (p : Char → Bool) : Takes r [] a p :=
  fun c _ hc _ => ⟨c, h c, hc⟩

/-- Any text may follow. -/
def never (_ : Char) : Bool := false

theorem Takes.any (h : Takes r s a never) (p : Char → Bool) : Takes r s a p :=
  h.mono fun _ hc => by cases hc

theorem Takes.before (hx : Takes x s a never) (hf : Takes (f a) t b p) : Takes (x >>= f) (s ++ t) b p :=
  hx.bind hf fun _ _ _ _ => rfl

/-- A step that takes a piece, before one that takes nothing. -/
theorem Takes.bind_nil (hx : Takes x s a p) (hf : Takes (f a) [] b p) : Takes (x >>= f) s b p := by
  have := hx.bind hf fun _ hk => hk
  rwa [List.append_nil] at this

theorem Takes.return {g : α → β} (h : Takes x s a p) : Takes (do return g (← x)) s (g a) p :=
  h.bind_nil (takes_pure _ _)

/-! ## Numbers -/

/-- The characters of numbers. -/
def isNumeral (c : Char) : Bool := c.isDigit || ['+', '-', '.', 'e', 'E'].contains c

/-- The characters that a number may go on with. -/
def goesOn (c : Char) : Bool := c.isDigit || ['.', 'e', 'E'].contains c

theorem digits_run (c : Cursor) : ∃ c', digits.run c =
    .ok ((c.rest.takeWhile Char.isDigit).map digitOf, c') ∧ c'.rest = c.rest.dropWhile Char.isDigit := by
  refine ⟨_, rfl, ?_⟩
  have hdrop : (c.rest.takeWhile Char.isDigit ++ c.rest.dropWhile Char.isDigit).drop
      (c.rest.takeWhile Char.isDigit).length = c.rest.dropWhile Char.isDigit := List.drop_left
  rwa [List.takeWhile_append_dropWhile] at hdrop

theorem takes_digits (h : ∀ ch ∈ s, ch.isDigit = true) :
    Takes digits s (s.map digitOf) Char.isDigit := by
  intro c k hc hk
  obtain ⟨c', hrun, hrest⟩ := digits_run c
  have htake : c.rest.takeWhile Char.isDigit = s := by
    rw [hc, List.takeWhile_append_of_pos h]
    cases k with
    | nil => simp
    | cons ch k => simp [ends_cons.mp hk]
  have hdrop : c.rest.dropWhile Char.isDigit = k := by
    rw [hc, List.dropWhile_append_of_pos h]
    cases k with
    | nil => simp
    | cons ch k => simp [ends_cons.mp hk]
  exact ⟨c', by rw [hrun, htake], hrest.trans hdrop⟩

/-- What was read as digits, and that no digit follows. -/
theorem of_digits {ds : List Nat} (h : digits.run c = .ok (ds, c')) :
    ∃ s, c.rest = s ++ c'.rest ∧ (∀ ch ∈ s, ch.isDigit = true) ∧ ds = s.map digitOf ∧
      Ends Char.isDigit c'.rest := by
  obtain ⟨c'', hrun, hrest⟩ := digits_run c
  rw [hrun] at h
  cases h
  refine ⟨_, ?_, fun ch hch => List.mem_takeWhile_imp hch, rfl, ?_⟩
  · rw [hrest, List.takeWhile_append_dropWhile]
  · intro ch hch
    rw [hrest] at hch
    have := List.head?_dropWhile_not Char.isDigit c.rest
    rw [Option.mem_def.mp hch] at this
    simpa using this

/-- A reader that takes nothing, and for which it does not matter where it is. -/
def Quiet (r : Reader α) : Prop :=
  ∀ c a c', r.run c = .ok (a, c') → c' = c ∧ ∀ c₂, r.run c₂ = .ok (a, c₂)

theorem quiet_pure (a : α) : Quiet (pure a) := by
  intro c b c' h
  cases h
  exact ⟨rfl, fun _ => rfl⟩

theorem quiet_double (positive : Bool) (m : Nat) (e : Int) : Quiet (double positive m e) := by
  intro c n c' h
  unfold double at h ⊢
  cases hs : scale 10 m.toUInt64.toFloat e with
  | none => rw [hs] at h; cases h
  | some f => rw [hs] at h; cases h; exact ⟨rfl, fun _ => rfl⟩

/-- Where the digits begin matters for the fault only. -/
theorem of_withExponent {positive raises : Bool} {m : Nat} {e : Int} {start : Cursor} {ds : List Nat}
    {n : JsonNumber} (h : (withExponent positive m e raises start ds).run c = .ok (n, c')) :
    c' = c ∧ ∀ start c, (withExponent positive m e raises start ds).run c = .ok (n, c) := by
  unfold withExponent at h ⊢
  cases hvalue : exponentOf ds with
  | ok x =>
    rw [hvalue] at h
    obtain ⟨rfl, hdouble⟩ := quiet_double _ _ _ _ _ _ h
    exact ⟨rfl, fun _ => hdouble⟩
  | error place =>
    rw [hvalue] at h
    by_cases hfault : m ≠ 0 ∧ raises = true
    · simp only [if_pos hfault] at h
      cases h
    · simp only [if_neg hfault] at h ⊢
      obtain ⟨rfl, hpure⟩ := quiet_pure _ _ _ _ h
      exact ⟨rfl, fun _ => hpure⟩

/-- Digits that begin with the next character, which is one. -/
theorem of_digits_cons {ds : List Nat} (hrest : c.rest = ch :: l) (hdigit : ch.isDigit = true)
    (h : digits.run c = .ok (ds, c')) :
    ∃ s, l = s ++ c'.rest ∧ (∀ x ∈ ch :: s, x.isDigit = true) ∧ ds = (ch :: s).map digitOf ∧
      Ends Char.isDigit c'.rest := by
  obtain ⟨s, hs, hall, hds, hends⟩ := of_digits h
  rw [hrest] at hs
  cases s with
  | nil =>
    rw [List.nil_append] at hs
    rw [← hs, ends_cons, hdigit] at hends
    cases hends
  | cons x s =>
    obtain ⟨rfl, hl⟩ := List.cons.inj hs
    exact ⟨s, hl, hall, hds, hends⟩

/-- An exponent without its letter and its sign. -/
theorem of_exponentDigits {positive raises : Bool} {m : Nat} {e : Int} {n : JsonNumber}
    (h : (exponentDigits positive m e raises).run c = .ok (n, c')) :
    ∃ ch s, c.rest = ch :: (s ++ c'.rest) ∧ (∀ x ∈ ch :: s, x.isDigit = true) ∧
      Takes (exponentDigits positive m e raises) (ch :: s) n Char.isDigit := by
  unfold exponentDigits at h ⊢
  rw [peek_bind_run] at h
  cases hrest : c.rest with
  | nil => rw [hrest] at h; cases h
  | cons ch l =>
    rw [hrest, List.head?_cons] at h
    by_cases hdigit : ch.isDigit = true
    · simp only [hdigit, Bool.not_true, Bool.false_eq_true, if_false] at h
      obtain ⟨start, c₁, hget, h⟩ := bind_run_ok.mp h
      cases hget
      obtain ⟨ds, c₂, hdigits, h⟩ := bind_run_ok.mp h
      obtain ⟨s, rfl, hall, rfl, -⟩ := of_digits_cons hrest hdigit hdigits
      obtain ⟨rfl, hvalue⟩ := of_withExponent h
      refine ⟨ch, s, rfl, hall, Takes.peek ?_⟩
      simp only [hdigit, Bool.not_true, Bool.false_eq_true, if_false]
      exact takes_get fun start => (takes_digits hall).bind_nil (takes_nil (hvalue start) _)
    · simp only [hdigit, Bool.not_false, if_true] at h
      cases h

theorem isNumeral_of_digits (h : ∀ x ∈ s, x.isDigit = true) : ∀ x ∈ s, isNumeral x = true :=
  fun x hx => by simp [isNumeral, h x hx]

/-- An exponent, the letter of which is next. -/
theorem of_exponentPart {positive : Bool} {m : Nat} {e : Int} {n : JsonNumber}
    (hrest : c.rest = ch :: l) (h : (exponentPart positive m e).run c = .ok (n, c')) :
    ∃ s, l = s ++ c'.rest ∧ (∀ x ∈ s, isNumeral x = true) ∧
      Takes (exponentPart positive m e) (ch :: s) n Char.isDigit := by
  unfold exponentPart at h ⊢
  rw [take_bind_run, peek_bind_run, rest_next hrest] at h
  -- a sign, the other sign, or none
  split at h
  · next hsign =>
    obtain ⟨l, rfl⟩ := List.head?_eq_some_iff.mp hsign
    obtain ⟨d, s, hs, hall, htakes⟩ := of_exponentDigits h
    rw [rest_next (rest_next hrest)] at hs
    refine ⟨'+' :: d :: s, by rw [hs]; rfl, ?_, Takes.take (Takes.peek (htakes.take _)) _⟩
    exact List.forall_mem_cons.mpr ⟨by decide, isNumeral_of_digits hall⟩
  · next hsign =>
    obtain ⟨l, rfl⟩ := List.head?_eq_some_iff.mp hsign
    obtain ⟨d, s, hs, hall, htakes⟩ := of_exponentDigits h
    rw [rest_next (rest_next hrest)] at hs
    refine ⟨'-' :: d :: s, by rw [hs]; rfl, ?_, Takes.take (Takes.peek (htakes.take _)) _⟩
    exact List.forall_mem_cons.mpr ⟨by decide, isNumeral_of_digits hall⟩
  · next hplus hminus =>
    obtain ⟨d, s, hs, hall, htakes⟩ := of_exponentDigits h
    rw [rest_next hrest] at hs
    refine ⟨d :: s, hs, isNumeral_of_digits hall, Takes.take (Takes.peek ?_) _⟩
    rw [hs, List.head?_cons] at hplus hminus
    split
    · next hd => exact (hplus hd).elim
    · next hd => exact (hminus hd).elim
    · exact htakes

theorem goesOn_of_isDigit (h : ch.isDigit = true) : goesOn ch = true := by simp [goesOn, h]

/-- What may follow digits: an exponent, or nothing that belongs to the number. -/
theorem of_exponent? {positive : Bool} {m : Nat} {e : Int} {n : JsonNumber}
    (h : (do
      match ← peek? with
      | some 'e' => exponentPart positive m e
      | some 'E' => exponentPart positive m e
      | _ => double positive m e).run c = .ok (n, c')) :
    ∃ s, c.rest = s ++ c'.rest ∧ (∀ x ∈ s, isNumeral x = true) ∧ Ends Char.isDigit s ∧
      Takes (do
        match ← peek? with
        | some 'e' => exponentPart positive m e
        | some 'E' => exponentPart positive m e
        | _ => double positive m e) s n goesOn := by
  rw [peek_bind_run] at h
  split at h
  · next hletter =>
    obtain ⟨l, hrest⟩ := List.head?_eq_some_iff.mp hletter
    obtain ⟨s, rfl, hall, htakes⟩ := of_exponentPart hrest h
    refine ⟨'e' :: s, hrest, List.forall_mem_cons.mpr ⟨by decide, hall⟩, ends_cons.mpr (by decide),
      Takes.peek (htakes.mono fun _ => goesOn_of_isDigit)⟩
  · next hletter =>
    obtain ⟨l, hrest⟩ := List.head?_eq_some_iff.mp hletter
    obtain ⟨s, rfl, hall, htakes⟩ := of_exponentPart hrest h
    refine ⟨'E' :: s, hrest, List.forall_mem_cons.mpr ⟨by decide, hall⟩, ends_cons.mpr (by decide),
      Takes.peek (htakes.mono fun _ => goesOn_of_isDigit)⟩
  · obtain ⟨rfl, hdouble⟩ := quiet_double _ _ _ _ _ _ h
    refine ⟨[], rfl, by simp, ends_nil _, takes_peek_nil fun o ho => ?_⟩
    split
    · exact absurd (ho 'e' rfl) (by decide)
    · exact absurd (ho 'E' rfl) (by decide)
    · exact takes_nil hdouble _

/-- Digits of a number, with what follows them. -/
theorem ends_append_goesOn (hs : Ends Char.isDigit s) : ∀ k, Ends goesOn k → Ends Char.isDigit (s ++ k) := by
  intro k hk
  cases s with
  | nil => exact hk.mono fun _ => goesOn_of_isDigit
  | cons x s => exact hs

/-- A fraction, the point of which is next. -/
theorem of_fractionPart {positive : Bool} {m : Nat} {e : Int} {n : JsonNumber}
    (hrest : c.rest = ch :: l) (h : (fractionPart positive m e).run c = .ok (n, c')) :
    ∃ s, l = s ++ c'.rest ∧ (∀ x ∈ s, isNumeral x = true) ∧
      Takes (fractionPart positive m e) (ch :: s) n goesOn := by
  unfold fractionPart at h ⊢
  rw [take_bind_run] at h
  obtain ⟨ds, c₁, hdigits, h⟩ := bind_run_ok.mp h
  obtain ⟨s, hs, hall, rfl, -⟩ := of_digits hdigits
  rw [rest_next hrest] at hs
  by_cases hempty : (s.map digitOf).isEmpty = true
  · rw [if_pos hempty, peek_bind_run] at h
    split at h <;> cases h
  · rw [if_neg hempty] at h
    obtain ⟨t, ht, hall', hends, htakes⟩ := of_exponent? h
    refine ⟨s ++ t, by rw [hs, ht, List.append_assoc], ?_, Takes.take ?_ _⟩
    · exact List.forall_mem_append.mpr ⟨isNumeral_of_digits hall, hall'⟩
    · refine (takes_digits hall).bind ?_ (ends_append_goesOn hends)
      rw [if_neg hempty]
      exact htakes

/-- What follows the digits before the point. -/
theorem of_numberFrom {positive : Bool} {m unused : Nat} {n : JsonNumber}
    (h : (numberFrom positive m unused).run c = .ok (n, c')) :
    ∃ s, c.rest = s ++ c'.rest ∧ (∀ x ∈ s, isNumeral x = true) ∧ Ends Char.isDigit s ∧
      Takes (numberFrom positive m unused) s n goesOn := by
  unfold numberFrom at h ⊢
  rw [peek_bind_run] at h
  split at h
  · next hpoint =>
    obtain ⟨l, hrest⟩ := List.head?_eq_some_iff.mp hpoint
    obtain ⟨s, rfl, hall, htakes⟩ := of_fractionPart hrest h
    exact ⟨'.' :: s, hrest, List.forall_mem_cons.mpr ⟨by decide, hall⟩, ends_cons.mpr (by decide),
      Takes.peek htakes⟩
  · next hletter =>
    obtain ⟨l, hrest⟩ := List.head?_eq_some_iff.mp hletter
    obtain ⟨s, rfl, hall, htakes⟩ := of_exponentPart hrest h
    exact ⟨'e' :: s, hrest, List.forall_mem_cons.mpr ⟨by decide, hall⟩, ends_cons.mpr (by decide),
      Takes.peek (htakes.mono fun _ => goesOn_of_isDigit)⟩
  · next hletter =>
    obtain ⟨l, hrest⟩ := List.head?_eq_some_iff.mp hletter
    obtain ⟨s, rfl, hall, htakes⟩ := of_exponentPart hrest h
    exact ⟨'E' :: s, hrest, List.forall_mem_cons.mpr ⟨by decide, hall⟩, ends_cons.mpr (by decide),
      Takes.peek (htakes.mono fun _ => goesOn_of_isDigit)⟩
  · have hquiet : Quiet (if unused ≠ 0 then double positive m unused
        else if positive then return .integer m
        else if m = 0 ∨ Nat.pow 2 63 < m then return .double (-(m.toUInt64.toFloat)).toBits
        else return .integer (-m)) := by
      split_ifs
      · exact quiet_double _ _ _
      · exact quiet_pure _
      · exact quiet_pure _
      · exact quiet_pure _
    obtain ⟨rfl, hvalue⟩ := hquiet _ _ _ h
    refine ⟨[], rfl, by simp, ends_nil _, takes_peek_nil fun o ho => ?_⟩
    split
    · exact absurd (ho '.' rfl) (by decide)
    · exact absurd (ho 'e' rfl) (by decide)
    · exact absurd (ho 'E' rfl) (by decide)
    · exact takes_nil hvalue _

/-- The digits before the point. -/
theorem of_integerPart {y : Nat × Nat} (hrest : c.rest = ch :: l) (hdigit : ch.isDigit = true)
    (h : (integerPart ch).run c = .ok (y, c')) :
    ∃ s, l = s ++ c'.rest ∧ (∀ x ∈ ch :: s, x.isDigit = true) ∧
      Takes (integerPart ch) (ch :: s) y Char.isDigit := by
  unfold integerPart at h ⊢
  by_cases hzero : ch = '0'
  · rw [if_pos hzero] at h ⊢
    rw [take_bind_run, peek_bind_run] at h
    by_cases hmore : isDigit c.next.rest.head? = true
    · rw [if_pos hmore] at h
      cases h
    · rw [if_neg hmore] at h
      obtain ⟨rfl, hpure⟩ := quiet_pure _ _ _ _ h
      refine ⟨[], (rest_next hrest).symm, by simpa using hdigit,
        Takes.take (takes_peek_nil fun o ho => ?_) _⟩
      have hnone : ¬ isDigit o = true := by
        cases o with
        | none => simp [isDigit]
        | some x => simp [isDigit, ho x rfl]
      rw [if_neg hnone]
      exact takes_nil hpure _
  · rw [if_neg hzero] at h ⊢
    obtain ⟨ds, c₁, hdigits, h⟩ := bind_run_ok.mp h
    obtain ⟨s, rfl, hall, rfl, -⟩ := of_digits_cons hrest hdigit hdigits
    obtain ⟨rfl, hpure⟩ := quiet_pure _ _ _ _ h
    exact ⟨s, rfl, hall, (takes_digits hall).bind_nil (takes_nil hpure _)⟩

/-- **A number is read from its own characters**, wherever it stands. -/
theorem of_number {positive : Bool} {n : JsonNumber} (h : (number positive).run c = .ok (n, c')) :
    ∃ s, c.rest = s ++ c'.rest ∧ s ≠ [] ∧ (∀ x ∈ s, isNumeral x = true) ∧
      Takes (number positive) s n goesOn := by
  unfold number at h ⊢
  rw [peek_bind_run] at h
  cases hrest : c.rest with
  | nil => rw [hrest] at h; cases h
  | cons ch l =>
    rw [hrest, List.head?_cons] at h
    by_cases hdigit : ch.isDigit = true
    · simp only [hdigit, Bool.not_true, Bool.false_eq_true, if_false] at h
      obtain ⟨y, c₁, hinteger, h⟩ := bind_run_ok.mp h
      obtain ⟨s, rfl, hall, htakes⟩ := of_integerPart hrest hdigit hinteger
      obtain ⟨t, ht, hall', hends, htakes'⟩ := of_numberFrom h
      refine ⟨ch :: (s ++ t), by rw [ht]; simp, by simp, ?_, Takes.peek ?_⟩
      · exact List.forall_mem_append.mpr ⟨isNumeral_of_digits hall, hall'⟩
      · simp only [hdigit, Bool.not_true, Bool.false_eq_true, if_false]
        exact htakes.bind htakes' (ends_append_goesOn hends)
    · simp only [hdigit, Bool.not_false, if_true] at h
      cases h

/-! ## Words and strings -/

theorem takes_word (cs : List Char) : Takes (word cs) cs () never := by
  induction cs with
  | nil => exact takes_pure _ _
  | cons x cs ih =>
    unfold word
    refine Takes.peek ?_
    simp only [if_true]
    exact ih.take x

theorem takes_stringChar (ch : Char) : Takes stringChar [ch] ch never :=
  Takes.peek ((takes_pure ch never).take ch)

theorem takes_fourDigits {n : Nat} (h : FourDigits s n) : Takes fourDigits s n never := by
  cases h with
  | @mk c₁ c₂ c₃ c₄ d₁ d₂ d₃ d₄ h₁ h₂ h₃ h₄ =>
    intro c k hc _
    have hvalues : [c₁, c₂, c₃, c₄].mapM fourDigits.hexValue? = some [d₁, d₂, d₃, d₄] := by
      simp [h₁, h₂, h₃, h₄]
    refine ⟨⟨k, c.line, c.column + 4⟩, ?_, rfl⟩
    unfold fourDigits
    refine bind_run_ok.mpr ⟨c, c, rfl, ?_⟩
    simp only [hc, List.cons_append, List.nil_append, hvalues]
    rw [show ((d₁ * 16 + d₂) * 16 + d₃) * 16 + d₄ = [d₁, d₂, d₃, d₄].foldl (· * 16 + ·) 0 by simp]
    rfl

/-- No character is a surrogate. -/
theorem not_surrogate (ch : Char) :
    isLowSurrogate ch.toNat = false ∧ isHighSurrogate ch.toNat = false := by
  have hvalid : ch.toNat < 0xD800 ∨ 0xDFFF < ch.toNat ∧ ch.toNat < 0x110000 := ch.valid
  simp only [isLowSurrogate, isHighSurrogate, Bool.and_eq_false_iff, decide_eq_false_iff_not]
  omega

theorem takes_unicodeEscape_single (h : FourDigits s ch.toNat) : Takes unicodeEscape s ch never := by
  obtain ⟨hlow, hhigh⟩ := not_surrogate ch
  unfold unicodeEscape
  refine (takes_fourDigits h).bind_nil ?_
  simp only [hlow, hhigh, Bool.false_eq_true, Bool.not_false, if_false, if_true, Char.ofNat_toNat]
  exact takes_pure _ _

theorem takes_unicodeEscape_pair {high low : Nat} (hs : FourDigits s high) (ht : FourDigits t low)
    (hhigh : 0xD800 ≤ high ∧ high ≤ 0xDBFF) (hlow : 0xDC00 ≤ low ∧ low ≤ 0xDFFF)
    (hch : ch.toNat = 0x10000 + (high - 0xD800) * 0x400 + (low - 0xDC00)) :
    Takes unicodeEscape (s ++ '\\' :: 'u' :: t) ch never := by
  have hfirst : isLowSurrogate high = false ∧ isHighSurrogate high = true := by
    simp only [isLowSurrogate, isHighSurrogate, Bool.and_eq_false_iff, decide_eq_false_iff_not,
      Bool.and_eq_true, decide_eq_true_eq]
    omega
  have hsecond : isLowSurrogate low = true := by simp [isLowSurrogate, hlow]
  unfold unicodeEscape
  refine (takes_fourDigits hs).before ?_
  simp only [hfirst, Bool.false_eq_true, Bool.not_true, if_false]
  refine (takes_stringChar '\\').before ?_
  rw [if_neg (not_not_intro rfl)]
  refine (takes_stringChar 'u').before ?_
  rw [if_neg (not_not_intro rfl)]
  refine (takes_fourDigits ht).bind_nil ?_
  rw [if_pos hsecond, ← hch, Char.ofNat_toNat]
  exact takes_pure _ _

theorem takes_escape (h : Escape s ch) : Takes escape s ch never := by
  unfold escape
  cases h with
  | short h =>
    simp only [shortEscapes, List.mem_cons, Prod.mk.injEq, List.not_mem_nil, or_false] at h
    rcases h with ⟨rfl, rfl⟩ | ⟨rfl, rfl⟩ | ⟨rfl, rfl⟩ | ⟨rfl, rfl⟩ | ⟨rfl, rfl⟩ | ⟨rfl, rfl⟩ |
      ⟨rfl, rfl⟩ | ⟨rfl, rfl⟩
    all_goals exact (takes_stringChar _).bind_nil (takes_pure _ _)
  | single h => exact (takes_stringChar 'u').before (takes_unicodeEscape_single h)
  | pair hs ht h₁ h₂ h₃ h₄ hch =>
    exact (takes_stringChar 'u').before (takes_unicodeEscape_pair hs ht ⟨h₁, h₂⟩ ⟨h₃, h₄⟩ hch)

/-- As many rounds as a string has characters are enough. -/
theorem takes_stringTail {cs : List Char} (h : Spells s cs) : ∀ (fuel : Nat) (acc : List Char),
    s.length < fuel → Takes (stringTail fuel acc) (s ++ ['"']) (acc.reverse ++ cs) never := by
  induction h with
  | nil =>
    intro fuel acc hfuel
    obtain ⟨fuel, rfl⟩ := Nat.exists_eq_succ_of_ne_zero (Nat.ne_zero_of_lt hfuel)
    rw [List.append_nil]
    exact Takes.peek ((takes_pure _ _).take _)
  | @plain x s cs hquote hslash hcontrol _ ih =>
    intro fuel acc hfuel
    obtain ⟨fuel, rfl⟩ := Nat.exists_eq_succ_of_ne_zero (Nat.ne_zero_of_lt hfuel)
    refine Takes.peek ?_
    split
    · next heq => cases heq
    · next heq => exact absurd (Option.some.inj heq) hquote
    · next heq => exact absurd (Option.some.inj heq) hslash
    · next y _ _ heq =>
      cases heq
      rw [if_neg (Nat.not_lt.mpr hcontrol)]
      have htail := ih fuel (x :: acc) (Nat.lt_of_succ_lt_succ hfuel)
      rw [List.reverse_cons, List.append_assoc] at htail
      exact htail.take x
  | @escape x e s cs hescape _ ih =>
    intro fuel acc hfuel
    obtain ⟨fuel, rfl⟩ := Nat.exists_eq_succ_of_ne_zero (Nat.ne_zero_of_lt hfuel)
    have hroom : s.length < fuel := by
      simp only [List.length_cons, List.length_append] at hfuel
      omega
    have htail := ih fuel (x :: acc) hroom
    rw [List.reverse_cons, List.append_assoc] at htail
    rw [List.cons_append, List.append_assoc]
    exact Takes.peek (((takes_escape hescape).before htail).take _)

/-- **A string is read as the characters it spells**, whatever follows it. -/
theorem takes_string {cs : List Char} (h : Spells s cs) :
    Takes string ('"' :: (s ++ ['"'])) (String.ofList cs) never := by
  unfold string
  refine Takes.take (fun c k hc hk => ?_) _
  have hroom : s.length < c.rest.length + 1 := by
    rw [hc]
    simp only [List.length_append]
    omega
  exact (takes_stringTail h _ [] hroom).return c k hc hk

/-! ## How scalars look -/

/-- What is left of a string up to its closing quote: a quote before it is escaped. -/
inductive StringRest : List Char → Prop where
  | quote : StringRest ['"']
  | escaped {c : Char} {s : List Char} : StringRest s → StringRest ('\\' :: c :: s)
  | plain {c : Char} {s : List Char} :
    c ≠ '"' → c ≠ '\\' → StringRest s → StringRest (c :: s)

theorem StringRest.fourDigits {n : Nat} (h : StringRest t) (hs : FourDigits s n) :
    StringRest (s ++ t) := by
  have hplain : ∀ {c d}, fourDigits.hexValue? c = some d → c ≠ '"' ∧ c ≠ '\\' := by
    intro c d hc
    constructor
    · rintro rfl
      cases hc
    · rintro rfl
      cases hc
  have hcons : ∀ {c d t}, fourDigits.hexValue? c = some d → StringRest t → StringRest (c :: t) :=
    fun hc ht => .plain (hplain hc).1 (hplain hc).2 ht
  cases hs with
  | mk h₁ h₂ h₃ h₄ => exact hcons h₁ (hcons h₂ (hcons h₃ (hcons h₄ h)))

theorem StringRest.escape {e : List Char} (h : StringRest t) (he : Escape e ch) :
    StringRest ('\\' :: (e ++ t)) := by
  cases he with
  | short _ => exact .escaped h
  | single hs => exact .escaped (h.fourDigits hs)
  | pair hs ht _ _ _ _ _ =>
    rw [List.cons_append, List.append_assoc]
    exact .escaped (StringRest.fourDigits (.escaped (h.fourDigits ht)) hs)

theorem stringRest_of_spells {cs : List Char} (h : Spells s cs) : StringRest (s ++ ['"']) := by
  induction h with
  | nil => exact .quote
  | plain hquote hslash _ _ ih => exact .plain hquote hslash ih
  | escape he _ ih =>
    rw [List.cons_append, List.append_assoc]
    exact ih.escape he

/-- The characters that mean something by themselves. -/
def marks : List Char := ['"', '/', ',', ':', '[', ']', '\x7b', '\x7d']

/-- Words and numbers have no blanks and no marks. -/
def isPlain (c : Char) : Bool := !Text.isBlank c && !marks.contains c

theorem isPlain_of_isDigit (h : ch.isDigit = true) : isPlain ch = true := by
  have hrange : 48 ≤ ch.toNat ∧ ch.toNat ≤ 57 := by
    simpa [Char.isDigit, UInt32.le_iff_toNat_le] using h
  have hblank : Text.isBlank ch = false := by
    rw [Bool.eq_false_iff, ne_eq]
    simp only [Text.isBlank, Bool.or_eq_true, Bool.and_eq_true, decide_eq_true_eq, beq_iff_eq]
    omega
  have hmark : ch ∉ marks := by
    intro hmem
    simp only [marks, List.mem_cons, List.not_mem_nil, or_false] at hmem
    rcases hmem with rfl | rfl | rfl | rfl | rfl | rfl | rfl | rfl
    all_goals exact absurd h (by decide)
  simp [isPlain, hblank, hmark]

theorem isPlain_of_isNumeral (h : isNumeral ch = true) : isPlain ch = true := by
  simp only [isNumeral, Bool.or_eq_true, List.contains_eq_mem, decide_eq_true_eq, List.mem_cons,
    List.not_mem_nil, or_false] at h
  rcases h with h | rfl | rfl | rfl | rfl | rfl
  · exact isPlain_of_isDigit h
  all_goals decide

/-- How words, numbers and strings are written. -/
inductive Solid : List Char → Prop where
  | plain {c : Char} {s : List Char} : (∀ x ∈ c :: s, isPlain x = true) → Solid (c :: s)
  | string {s : List Char} : StringRest s → Solid ('"' :: s)

theorem takes_scalar_word {cs : List Char} {v : Json}
    (hscalar : scalar ch = do take; word cs; return v) : Takes (scalar ch) (ch :: cs) v goesOn :=
  hscalar ▸ ((takes_word cs).any _).return.take ch

/-- **A number is read from its own characters**, wherever it stands, its sign with it. -/
theorem of_scalar_number {n : JsonNumber} (hrest : c.rest = ch :: l)
    (h : (scalar ch).run c = .ok (.number n, c')) :
    ∃ s, l = s ++ c'.rest ∧ (∀ x ∈ ch :: s, isPlain x = true) ∧
      Takes (scalar ch) (ch :: s) (.number n) goesOn := by
  have hword : ∀ {cs : List Char} {w : Json},
      (do take; word cs; return w : Reader Json).run c = .ok (.number n, c') → w = .number n := by
    intro cs w h
    rw [take_bind_run] at h
    obtain ⟨u, c₁, -, h⟩ := bind_run_ok.mp h
    cases h
    rfl
  unfold scalar at h
  split at h
  · cases hword h
  · cases hword h
  · cases hword h
  · rw [take_bind_run] at h
    obtain ⟨m, c₁, hnumber, h⟩ := bind_run_ok.mp h
    obtain ⟨s, hs, -, hall, htakes⟩ := of_number hnumber
    rw [rest_next hrest] at hs
    cases h
    have hplain : ∀ x ∈ '-' :: s, isPlain x = true :=
      List.forall_mem_cons.mpr ⟨by decide, fun x hx => isPlain_of_isNumeral (hall x hx)⟩
    exact ⟨s, hs, hplain, htakes.return.take '-'⟩
  · obtain ⟨str, c₁, -, h⟩ := bind_run_ok.mp h
    cases h
  · next hn ht hf hminus hquote =>
    by_cases hdigit : ch.isDigit = true
    · rw [if_pos hdigit] at h
      obtain ⟨m, c₁, hnumber, h⟩ := bind_run_ok.mp h
      obtain ⟨s, hs, hne, hall, htakes⟩ := of_number hnumber
      cases h
      obtain ⟨x, s, rfl⟩ := List.exists_cons_of_ne_nil hne
      rw [hrest] at hs
      obtain ⟨rfl, hl⟩ := List.cons.inj hs
      have hscalar : scalar ch = do return .number (← number true) := by
        unfold scalar
        split
        · exact (hn rfl).elim
        · exact (ht rfl).elim
        · exact (hf rfl).elim
        · exact (hminus rfl).elim
        · exact (hquote rfl).elim
        · rw [if_pos hdigit]
      exact ⟨s, hl, fun y hy => isPlain_of_isNumeral (hall y hy), hscalar ▸ htakes.return⟩
    · rw [if_neg hdigit] at h
      cases h

end ComponentRegistry.Json.Reader
