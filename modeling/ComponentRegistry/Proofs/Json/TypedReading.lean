import ComponentRegistry.Proofs.Json.Printing

/-!
# Reading values of an expected kind

What readers of strings, of optional values and of objects make of printed values.  An object is read
as the fold of what is read of its members (`Collects`), whatever is done with each of them
(`takes_object`).
-/

namespace ComponentRegistry.Json

open Reader

variable {α β σ : Type} {ch : Char} {g s : List Char} {p : Char → Bool} {v : Json}
  {ms : List (String × Json)}

/-! ## Values -/

/-- A reader that has taken the whole text has the answer. -/
theorem readAll_of_takes {r : Reader α} {text : String} {a : α} (h : Takes r text.toList a p) :
    readAll r text = .ok a := by
  have hstart : (Cursor.start text.toList).rest = text.toList ++ [] := by simp [Cursor.start]
  obtain ⟨c, hrun, hrest⟩ := h (Cursor.start text.toList) [] hstart (ends_nil p)
  have hfinish : finish.run c = .ok ((), c.skipBlanks) := by
    unfold finish
    rw [peekValue_bind_run, rest_skipBlanks, hrest]
    rfl
  have hall : (do let a ← r; finish; return a : Reader α).run (Cursor.start text.toList) =
      .ok (a, c.skipBlanks) :=
    bind_run_ok.mpr ⟨a, c, hrun, bind_run_ok.mpr ⟨(), _, hfinish, rfl⟩⟩
  rw [readAll, hall]
  rfl

/-- Behind blanks the next character decides. -/
theorem takes_peekValue {f : Option Char → Reader β} {b : β} (hg : Blanks g) (hch : isSpace ch = false)
    (h : Takes (f (some ch)) (ch :: s) b p) : Takes (peekValue? >>= f) (g ++ ch :: s) b p := by
  intro c k hc hk
  rw [List.append_assoc] at hc
  rw [peekValue_bind_run_of hg hch hc]
  exact h _ k (rest_skipBlanks_of hg hch hc) hk

/-- A value is read by the reader of values of its kind, unless it looks like `null`. -/
theorem takes_orNull {r : Reader α} {a : α} (hg : Blanks g) (hch : isSpace ch = false)
    (hnull : ch ≠ 'n') (h : Takes r (ch :: s) a p) : Takes (orNull r) (g ++ ch :: s) (some a) p := by
  unfold orNull
  refine takes_peekValue hg hch ?_
  split
  · next heq => exact absurd (Option.some.inj heq) hnull
  · exact h.return

theorem takes_quotedChars (str : String) : Takes Reader.string (quotedChars str) str never := by
  have h := takes_string (spells_escaped str.toList)
  rwa [String.ofList_toList] at h

theorem takes_stringValue (hg : Blanks g) (expected str : String) :
    Takes (stringValue expected) (g ++ quotedChars str) str never := by
  unfold stringValue
  show Takes _ (g ++ '"' :: (str.toList.flatMap escapedChar ++ ['"'])) str never
  exact takes_peekValue hg (by decide) (takes_quotedChars str)

/-! ## Objects -/

/-- The reader of members makes `last` of `acc` and the members, one after the other. -/
inductive Collects (member : σ → String → Reader σ) : σ → List (String × Json) → σ → Prop where
  | nil {acc : σ} : Collects member acc [] acc
  | cons {acc next last : σ} {key : String} {v : Json} {ms : List (String × Json)} :
    (∀ level, Takes (member acc key) (':' :: ' ' :: print level v) next never) →
    Collects member next ms last → Collects member acc ((key, v) :: ms) last

variable {member : σ → String → Reader σ} {acc next last : σ}

/-- A member, its key's quote next, and those after it. -/
theorem takes_member {key : String} {fuel : Nat} {t : List Char}
    (hmember : Takes (member acc key) s next never)
    (htail : Takes (members member fuel false next) t last never) :
    Takes (do members member fuel false (← member acc (← Reader.string)) : Reader σ)
      (quotedChars key ++ (s ++ t)) last never :=
  (takes_quotedChars key).before (f := fun key => member acc key >>= members member fuel false)
    (hmember.before htail)

/-- The members after the first have room in their text. -/
theorem length_le_printMembers (level : Nat) (ms : List (String × Json)) :
    ms.length ≤ (printMembers level ms).length := by
  induction ms with
  | nil => exact Nat.zero_le _
  | cons m ms ih =>
    obtain ⟨k, v⟩ := m
    simp only [printMembers, List.length_cons, List.length_append]
    omega

/-- The members after the first, and the brace. -/
theorem takes_moreMembers (h : Collects member acc ms last) (level : Nat) (hg : Blanks g) :
    ∀ fuel, ms.length < fuel →
      Takes (members member fuel false acc) (printMembers level ms ++ (g ++ ['\x7d'])) last never := by
  induction h with
  | nil =>
    intro fuel hfuel c k hc _
    have hbrace : c.rest = g ++ '\x7d' :: k := by simpa [printMembers] using hc
    exact members_end hfuel hg hbrace
  | @cons acc next last key v ms hmember _ ih =>
    intro fuel hfuel c k hc hk
    obtain ⟨fuel, rfl⟩ := Nat.exists_eq_succ_of_ne_zero (Nat.ne_zero_of_lt hfuel)
    have hmore : c.rest = [] ++ ',' :: (lineBreak level ++ '"' :: (key.toList.flatMap escapedChar ++
        '"' :: (':' :: ' ' :: (print level v ++ (printMembers level ms ++ (g ++ '\x7d' :: k)))))) := by
      simpa [printMembers, quotedChars] using hc
    obtain ⟨c', hrun, hrest⟩ := moreMembers_next blanks_nil (blanks_lineBreak level) hmore
    have hread := takes_member (hmember level) (ih fuel (Nat.lt_of_succ_lt_succ hfuel))
    rw [members_run hrun]
    refine hread c' k ?_ hk
    simpa [quotedChars] using hrest

/-- **An object is read member by member.** -/
theorem takes_object (h : Collects member acc ms last) (level : Nat) :
    Takes (do take; members member (← roomForItems) true acc : Reader σ)
      (print level (.object ms)) last never := by
  have hroom : ∀ c : Cursor, (do take; members member (← roomForItems) true acc : Reader σ).run c =
      (members member (c.next.rest.length + 1) true acc).run c.next := fun _ => rfl
  intro c k hc hk
  rw [hroom]
  cases h with
  | nil =>
    have hbrace : c.next.rest = [] ++ '\x7d' :: k := rest_next (by simpa [print] using hc)
    exact members_end (Nat.succ_pos _) blanks_nil hbrace
  | @cons _ next _ key v ms hmember htail =>
    have hnext : c.next.rest = lineBreak (level + 1) ++ '"' :: (key.toList.flatMap escapedChar ++
        '"' :: (':' :: ' ' :: (print (level + 1) v ++ (printMembers (level + 1) ms ++
          (lineBreak level ++ '\x7d' :: k))))) :=
      rest_next (by simpa [print, quotedChars] using hc)
    have hblanks := blanks_lineBreak (level + 1)
    have hfuel : ms.length < c.next.rest.length := by
      have hle := length_le_printMembers (level + 1) ms
      rw [hnext]
      simp only [List.length_append, List.length_cons]
      omega
    have hread := takes_member (hmember (level + 1))
      (takes_moreMembers htail (level + 1) (blanks_lineBreak level) _ hfuel)
    rw [members_run (moreMembers_first hblanks hnext)]
    refine hread _ k ?_ hk
    rw [rest_skipBlanks_of hblanks (by decide) hnext]
    simp [quotedChars]

theorem print_object (level : Nat) (ms : List (String × Json)) :
    ∃ l, print level (.object ms) = '\x7b' :: l := by
  cases ms with
  | nil => exact ⟨_, rfl⟩
  | cons m ms => exact ⟨_, rfl⟩

/-- Behind blanks the brace of an object decides. -/
theorem takes_peekObject {f : Option Char → Reader β} {b : β} {level : Nat} (hg : Blanks g)
    (h : Takes (f (some '\x7b')) (print level (.object ms)) b p) :
    Takes (peekValue? >>= f) (g ++ print level (.object ms)) b p := by
  obtain ⟨l, hl⟩ := print_object level ms
  rw [hl] at h ⊢
  exact takes_peekValue hg (by decide) h

/-- The blank between a colon and a value. -/
theorem blanks_space : Blanks [' '] := by
  intro x hx
  rw [List.mem_singleton.mp hx]
  rfl

/-- A colon and what is read behind it. -/
theorem takes_colon {r : Reader α} {a : α} (h : Takes r s a p) :
    Takes (do colon; r) (':' :: s) a p := by
  have hcolon : Takes colon [':'] () never := fun c k hc _ => colon_run blanks_nil hc
  exact hcolon.before h

end ComponentRegistry.Json
