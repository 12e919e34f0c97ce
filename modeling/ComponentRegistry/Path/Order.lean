import ComponentRegistry.Path.Basic

/-!
# The order of paths

Paths are put in order component by component, and names byte by byte.
-/

namespace ComponentRegistry

namespace Text

/-- The bytes that a unit is written with. -/
def Glyph.encoded : Glyph → List UInt8
  | .char c => String.utf8EncodeChar c
  | .bytes run => run

/-- Lists in the order of dictionaries, given the order of their members. -/
def lexicographic {α : Type} [DecidableEq α] (le : α → α → Bool) : List α → List α → Bool
  | [], _ => true
  | _ :: _, [] => false
  | a :: s, b :: t => if a = b then lexicographic le s t else le a b

section Lexicographic

variable {α : Type} [DecidableEq α] {le : α → α → Bool} {s t u : List α}

/-- Of any two lists one comes first. -/
theorem lexicographic_total (h : ∀ a b, le a b = true ∨ le b a = true) (s t : List α) :
    lexicographic le s t = true ∨ lexicographic le t s = true := by
  induction s generalizing t with
  | nil => exact Or.inl rfl
  | cons a s ih =>
    cases t with
    | nil => exact Or.inr rfl
    | cons b t =>
      by_cases hab : a = b
      · simpa [lexicographic, hab] using ih t
      · simpa [lexicographic, hab, Ne.symm hab] using h a b

/-- Lists that come before each other are the same. -/
theorem lexicographic_antisymm (h : ∀ a b, le a b = true → le b a = true → a = b)
    (hst : lexicographic le s t = true) (hts : lexicographic le t s = true) : s = t := by
  induction s generalizing t with
  | nil =>
    cases t with
    | nil => rfl
    | cons b t => cases hts
  | cons a s ih =>
    cases t with
    | nil => cases hst
    | cons b t =>
      by_cases hab : a = b
      · simp only [lexicographic, hab, if_true] at hst hts
        rw [hab, ih hst hts]
      · simp only [lexicographic, hab, Ne.symm hab, if_false] at hst hts
        exact absurd (h a b hst hts) hab

theorem lexicographic_trans (hanti : ∀ a b, le a b = true → le b a = true → a = b)
    (h : ∀ a b c, le a b = true → le b c = true → le a c = true)
    (hst : lexicographic le s t = true) (htu : lexicographic le t u = true) :
    lexicographic le s u = true := by
  induction s generalizing t u with
  | nil => rfl
  | cons a s ih =>
    cases t with
    | nil => cases hst
    | cons b t =>
      cases u with
      | nil => cases htu
      | cons c u =>
        by_cases hab : a = b
        · subst hab
          by_cases hac : a = c
          · simp only [lexicographic, hac, if_true] at hst htu ⊢
            exact ih hst htu
          · simpa [lexicographic, hac] using htu
        · by_cases hbc : b = c
          · subst hbc
            simpa [lexicographic, hab] using hst
          · simp only [lexicographic, hab, hbc, if_false] at hst htu
            have hac : a ≠ c := by
              rintro rfl
              exact hab (hanti a b hst htu)
            simpa [lexicographic, hac] using h a b c hst htu

end Lexicographic

end Text

namespace Path

/-- What a component counts for in the order: the root is first, then `.`, `..` and the names. -/
def Component.key : Component → List Nat
  | .root => [0]
  | .current => [1]
  | .parent => [2]
  | .normal name => 3 :: name.flatMap fun g => g.encoded.map UInt8.toNat

/-- The path comes before the other one, or they have the same components. -/
def precedes (p q : Path) : Bool :=
  Text.lexicographic (Text.lexicographic Nat.ble) (p.components.map Component.key)
    (q.components.map Component.key)

theorem precedes_total (p q : Path) : p.precedes q = true ∨ q.precedes p = true := by
  refine Text.lexicographic_total (Text.lexicographic_total fun a b => ?_) _ _
  simpa using Nat.le_total a b

theorem precedes_trans {p q r : Path} (hpq : p.precedes q = true) (hqr : q.precedes r = true) :
    p.precedes r = true := by
  have hanti : ∀ a b, Nat.ble a b = true → Nat.ble b a = true → a = b := fun a b hab hba =>
    Nat.le_antisymm (Nat.le_of_ble_eq_true hab) (Nat.le_of_ble_eq_true hba)
  have htrans : ∀ a b c, Nat.ble a b = true → Nat.ble b c = true → Nat.ble a c = true :=
    fun a b c hab hbc =>
      Nat.ble_eq_true_of_le (Nat.le_trans (Nat.le_of_ble_eq_true hab) (Nat.le_of_ble_eq_true hbc))
  exact Text.lexicographic_trans (fun _ _ => Text.lexicographic_antisymm hanti)
    (fun _ _ _ => Text.lexicographic_trans hanti htrans) hpq hqr

end Path

end ComponentRegistry
