import ComponentRegistry.Json.Printer
import ComponentRegistry.Proofs.Json.Reading
import Mathlib.Tactic.IntervalCases

/-!
# Writing the texts of values

The printed text of a value is a text of the value's tokens with blanks between them
(`Exact.spaced_pretty`), so it is read as the value again (`Exact.parse_pretty`).  The reader puts
the members of objects in the order of their keys, hence what is read is the value with its members
in order (`sorted`).  The induction is on what makes a value printable without loss (`Exact`).
-/

namespace ComponentRegistry.Json

variable {c : Char} {g s cs text : List Char} {v : Json} {vs : List Json}
  {ms : List (String × Json)} {n level : Nat} {ts us : List Token}

/-! ## Strings -/

theorem hexValue?_digitChar {d : Nat} (h : d < 16) :
    Reader.fourDigits.hexValue? (Nat.digitChar d) = some d := by
  interval_cases d <;> rfl

/-- A control character without a short escape is written by its number. -/
theorem escape_control (h : c.toNat < 32) :
    Escape ['u', '0', '0', Nat.digitChar (c.toNat / 16), Nat.digitChar (c.toNat % 16)] c := by
  have hdigits : FourDigits ['0', '0', Nat.digitChar (c.toNat / 16), Nat.digitChar (c.toNat % 16)]
      (((0 * 16 + 0) * 16 + c.toNat / 16) * 16 + c.toNat % 16) :=
    .mk rfl rfl (hexValue?_digitChar (by omega)) (hexValue?_digitChar (by omega))
  have hnumber : ((0 * 16 + 0) * 16 + c.toNat / 16) * 16 + c.toNat % 16 = c.toNat := by omega
  rw [hnumber] at hdigits
  exact .single hdigits

/-- **Every character is written as something that spells it.** -/
theorem spells_escapedChar (h : Spells s cs) : Spells (escapedChar c ++ s) (c :: cs) := by
  have hshort : ∀ {e d : Char}, (e, d) ∈ shortEscapes → c = d →
      Spells ('\\' :: ([e] ++ s)) (c :: cs) := fun he hc => hc ▸ .escape (.short he) h
  unfold escapedChar
  split_ifs with hquote hslash hfeed hreturn htab hback hform hcontrol
  · exact hshort (by decide) hquote
  · exact hshort (by decide) hslash
  · exact hshort (by decide) hfeed
  · exact hshort (by decide) hreturn
  · exact hshort (by decide) htab
  · exact hshort (e := 'b') (d := '\x08') (by decide) (Char.toNat_inj.mp hback)
  · exact hshort (e := 'f') (d := '\x0c') (by decide) (Char.toNat_inj.mp hform)
  · exact .escape (escape_control hcontrol) h
  · exact .plain hquote hslash (Nat.le_of_not_lt hcontrol) h

theorem spells_escaped (cs : List Char) : Spells (cs.flatMap escapedChar) cs := by
  induction cs with
  | nil => exact .nil
  | cons c cs ih => exact spells_escapedChar ih

/-- **A string is written as a literal of itself**, whatever characters it has. -/
theorem literal_quotedChars (str : String) : Literal (quotedChars str) (.string str) := by
  have := Literal.string (spells_escaped str.toList)
  rwa [String.ofList_toList] at this

/-! ## Values as they are read -/

mutual

/-- The value with the members of its objects in the order of their keys, each key once. -/
def sorted : Json → Json
  | .array vs => .array (sortedItems vs)
  | .object ms => ofMembers (sortedMembers ms)
  | .null => .null
  | .bool b => .bool b
  | .number n => .number n
  | .string s => .string s

def sortedItems : List Json → List Json
  | [] => []
  | v :: vs => sorted v :: sortedItems vs

def sortedMembers : List (String × Json) → List (String × Json)
  | [] => []
  | (k, v) :: ms => (k, sorted v) :: sortedMembers ms

end

mutual

/-- How deep containers nest in a value. -/
def depth : Json → Nat
  | .array vs => depthItems vs + 1
  | .object ms => depthMembers ms + 1
  | _ => 0

def depthItems : List Json → Nat
  | [] => 0
  | v :: vs => max (depth v) (depthItems vs)

def depthMembers : List (String × Json) → Nat
  | [] => 0
  | (_, v) :: ms => max (depth v) (depthMembers ms)

end

theorem sortedItems_eq_map (vs : List Json) : sortedItems vs = vs.map sorted := by
  induction vs with
  | nil => rfl
  | cons v vs ih => rw [sortedItems, ih, List.map_cons]

/-- The texts of all numbers in the value are read as these numbers. -/
inductive Exact : Json → Prop where
  | null : Exact .null
  | bool (b : Bool) : Exact (.bool b)
  | number {n : JsonNumber} :
    parse n.text = .ok (.number n) → Text.trim n.text.toList = n.text.toList → Exact (.number n)
  | string (s : String) : Exact (.string s)
  | array {vs : List Json} : (∀ v ∈ vs, Exact v) → Exact (.array vs)
  | object {ms : List (String × Json)} : (∀ m ∈ ms, Exact m.2) → Exact (.object ms)

/-! ## Layout -/

theorem Laid.append {gap : List Char → Prop} {s' : List Char} (h : Laid gap ts s)
    (h' : Laid gap us s') : Laid gap (ts ++ us) (s ++ s') := by
  induction h with
  | nil => exact h'
  | cons hg _ ih =>
    rw [List.append_assoc, List.append_assoc]
    exact .cons hg ih

/-- The gap before the first token may be wider. -/
theorem Laid.pad (hg : Blanks g) (hts : ts ≠ []) (h : Laid Blanks ts s) :
    Laid Blanks ts (g ++ s) := by
  cases h with
  | nil => exact absurd rfl hts
  | cons hg' hrest =>
    rw [← List.append_assoc]
    exact .cons (List.forall_mem_append.mpr ⟨hg, hg'⟩) hrest

theorem Writes.ne_nil {φ : Phrase} (h : Writes n φ ts) : ts ≠ [] := by
  obtain ⟨t, rest, rfl, -⟩ := h.head
  exact List.cons_ne_nil _ _

theorem blanks_lineBreak (level : Nat) : Blanks (lineBreak level) := by
  intro x hx
  rcases List.mem_cons.mp hx with rfl | hx
  · rfl
  · rw [List.eq_of_mem_replicate hx]
    rfl

/-- A token without a gap before it. -/
theorem laid_token (t : Token) (h : Laid Blanks ts s) : Laid Blanks (t :: ts) (t.text ++ s) :=
  .cons blanks_nil h

/-! ## Printed values -/

/-- The text of the value on any level is one of its tokens. -/
def Printed (v : Json) : Prop :=
  ∀ level, ∃ ts, Writes v.depth (.value v.sorted) ts ∧ Laid Blanks ts (print level v)

theorem printed_literal (h : Literal text v) (hsorted : v.sorted = v) (hdepth : v.depth = 0)
    (hprint : ∀ level, print level v = text) : Printed v := by
  intro level
  refine ⟨[.literal text], ?_, ?_⟩
  · rw [hsorted, hdepth]
    exact .literal h
  · rw [hprint]
    simpa [Token.text] using laid_token (.literal text) .nil

/-- The elements of a list, the first one on a new line as the others are. -/
theorem printed_items (hv : Printed v) (hvs : ∀ v ∈ vs, Printed v) (level : Nat) :
    ∃ ts, Writes (depthItems (v :: vs)) (.items (sortedItems (v :: vs))) ts ∧
      Laid Blanks ts (lineBreak level ++ (print level v ++ printItems level vs)) := by
  have hbreak := blanks_lineBreak level
  induction vs generalizing v with
  | nil =>
    obtain ⟨ts, hts, hs⟩ := hv level
    refine ⟨ts, ?_, ?_⟩
    · rw [depthItems, depthItems, Nat.max_eq_left (Nat.zero_le _)]
      exact .item hts
    · rw [printItems, List.append_nil]
      exact hs.pad hbreak hts.ne_nil
  | cons w vs ih =>
    obtain ⟨hw, hvs⟩ := List.forall_mem_cons.mp hvs
    obtain ⟨ts, hts, hs⟩ := hv level
    obtain ⟨us, hus, hlaid⟩ := ih hw hvs
    refine ⟨ts ++ .comma :: us, .items hts hus, ?_⟩
    have hmore := (hs.pad hbreak hts.ne_nil).append (laid_token .comma hlaid)
    simpa [printItems, Token.text] using hmore

/-- The key, the colon and a blank before the tokens of the value. -/
theorem laid_member (k : String) (hts : ts ≠ []) (hs : Laid Blanks ts s) (level : Nat) :
    Laid Blanks (.literal (quotedChars k) :: .colon :: ts)
      (lineBreak level ++ (quotedChars k ++ (':' :: ' ' :: s))) := by
  have hblank : Blanks [' '] := by simp [Blanks, isSpace]
  exact .cons (blanks_lineBreak level) (laid_token .colon (hs.pad hblank hts))

theorem printed_members {k : String} (hv : Printed v) (hms : ∀ m ∈ ms, Printed m.2) (level : Nat) :
    ∃ ts, Writes (depthMembers ((k, v) :: ms)) (.members (sortedMembers ((k, v) :: ms))) ts ∧
      Laid Blanks ts (lineBreak level ++
        (quotedChars k ++ (':' :: ' ' :: (print level v ++ printMembers level ms)))) := by
  induction ms generalizing k v with
  | nil =>
    obtain ⟨ts, hts, hs⟩ := hv level
    refine ⟨.literal (quotedChars k) :: .colon :: ts, ?_, ?_⟩
    · rw [depthMembers, depthMembers, Nat.max_eq_left (Nat.zero_le _)]
      exact .member (literal_quotedChars k) hts
    · rw [printMembers, List.append_nil]
      exact laid_member k hts.ne_nil hs level
  | cons m ms ih =>
    obtain ⟨j, w⟩ := m
    obtain ⟨hw, hms⟩ := List.forall_mem_cons.mp hms
    obtain ⟨ts, hts, hs⟩ := hv level
    obtain ⟨us, hus, hlaid⟩ := ih (k := j) hw hms
    refine ⟨.literal (quotedChars k) :: .colon :: (ts ++ .comma :: us),
      .members (literal_quotedChars k) hts hus, ?_⟩
    have hmore := (laid_member k hts.ne_nil hs level).append (laid_token .comma hlaid)
    simpa [printMembers, Token.text] using hmore

/-- What stands in a container that is not empty, between its brackets. -/
theorem laid_container {o t : Token} (hs : Laid Blanks ts s) (level : Nat) :
    Laid Blanks (o :: (ts ++ [t])) (o.text ++ (s ++ (lineBreak level ++ t.text))) := by
  have hclose : Laid Blanks [t] (lineBreak level ++ t.text) := by
    simpa using Laid.cons (t := t) (blanks_lineBreak level) .nil
  exact laid_token o (hs.append hclose)

theorem printed_array (h : ∀ v ∈ vs, Printed v) : Printed (.array vs) := by
  intro level
  cases vs with
  | nil => exact ⟨_, .emptyList, laid_token .listStart (laid_token .listEnd .nil)⟩
  | cons v vs =>
    obtain ⟨hv, hvs⟩ := List.forall_mem_cons.mp h
    obtain ⟨ts, hts, hs⟩ := printed_items hv hvs (level + 1)
    refine ⟨_, .list hts, ?_⟩
    simpa [print, Token.text] using laid_container (o := .listStart) (t := .listEnd) hs level

theorem printed_object (h : ∀ m ∈ ms, Printed m.2) : Printed (.object ms) := by
  intro level
  cases ms with
  | nil => exact ⟨_, .emptyObject, laid_token .objectStart (laid_token .objectEnd .nil)⟩
  | cons m ms =>
    obtain ⟨k, v⟩ := m
    obtain ⟨hv, hms⟩ := List.forall_mem_cons.mp h
    obtain ⟨ts, hts, hs⟩ := printed_members (k := k) hv hms (level + 1)
    refine ⟨_, .object hts, ?_⟩
    simpa [print, Token.text] using laid_container (o := .objectStart) (t := .objectEnd) hs level

theorem Exact.printed (h : Exact v) : Printed v := by
  induction h with
  | null => exact printed_literal .null rfl rfl fun _ => rfl
  | bool b =>
    cases b with
    | false => exact printed_literal .false rfl rfl fun _ => rfl
    | true => exact printed_literal .true rfl rfl fun _ => rfl
  | number hreads htrim =>
    have hlit := Literal.number (by rwa [String.ofList_toList]) htrim
    exact printed_literal hlit rfl rfl fun _ => rfl
  | string str => exact printed_literal (literal_quotedChars str) rfl rfl fun _ => rfl
  | array _ ih => exact printed_array ih
  | object _ ih => exact printed_object ih

/-! ## Texts of values -/

/-- The text is JSON, and the value is what it writes. -/
def IsText (v : Json) (text : String) : Prop :=
  ∃ n ts, Writes n (.value v) ts ∧ Spaced ts text.toList

/-- **A printed value is JSON text of the value**, its members in order. -/
theorem Exact.spaced_pretty (h : Exact v) : ∃ ts, Writes v.depth (.value v.sorted) ts ∧
    Spaced ts v.pretty.toList := by
  obtain ⟨ts, hts, hs⟩ := h.printed 0
  exact ⟨ts, hts, _, [], hs, blanks_nil, by rw [pretty, String.toList_ofList, List.append_nil]⟩

/-- **A printed value is read as the value**, its members in order, if it nests 127 deep at most. -/
theorem Exact.parse_pretty (h : Exact v) (hdepth : v.depth ≤ 127) : parse v.pretty = .ok v.sorted := by
  obtain ⟨ts, hts, hs⟩ := h.spaced_pretty
  exact (parse_of_spaced hts hs).1 hdepth

end ComponentRegistry.Json
