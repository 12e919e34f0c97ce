/-!
# Searching in text

Finding, splitting at and replacing the first occurrence of a character or a word, over lists of
characters.
-/

namespace ComponentRegistry.Text

/-- What follows `p` in `s`, if `s` starts with `p`. -/
def stripStart? {α : Type} [DecidableEq α] : List α → List α → Option (List α)
  | [], s => some s
  | _ :: _, [] => none
  | a :: p, b :: s => if a = b then stripStart? p s else none

/-- What precedes `p` in `s`, if `s` ends with `p`. -/
def stripEnd? {α : Type} [DecidableEq α] (p s : List α) : Option (List α) :=
  (stripStart? p.reverse s.reverse).map List.reverse

/-- `s` starts with `p`. -/
def startsWith {α : Type} [DecidableEq α] (p s : List α) : Bool := (stripStart? p s).isSome

/-- The word `w` stands somewhere in `s`. -/
def containsWord (w : List Char) : List Char → Bool
  | [] => w.isEmpty
  | c :: r => startsWith w (c :: r) || containsWord w r

/-- The texts before and after the first `c`. -/
def splitOnce? (c : Char) : List Char → Option (List Char × List Char)
  | [] => none
  | d :: r => if d = c then some ([], r) else (splitOnce? c r).map fun (a, b) => (d :: a, b)

/-- The pieces of a list between occurrences of `c`; always at least one. -/
def splitAt {α : Type} [DecidableEq α] (c : α) : List α → List (List α)
  | [] => [[]]
  | d :: r =>
    if d = c then [] :: splitAt c r
    else match splitAt c r with
      | [] => [[d]]
      | p :: ps => (d :: p) :: ps

/-- The pieces put together again with `c` between them. -/
def joinWith {α : Type} (c : α) : List (List α) → List α
  | [] => []
  | [p] => p
  | p :: ps => p ++ c :: joinWith c ps

/-- The first `c` replaced by the word `w`. -/
def replaceFirst (c : Char) (w : List Char) : List Char → List Char
  | [] => []
  | d :: r => if d = c then w ++ r else d :: replaceFirst c w r

/-- Number of bytes of the text in UTF-8. -/
def byteLength : List Char → Nat
  | [] => 0
  | c :: cs => c.utf8Size + byteLength cs

theorem splitAt_ne_nil {α : Type} [DecidableEq α] (c : α) (s : List α) : splitAt c s ≠ [] := by
  induction s with
  | nil => simp [splitAt]
  | cons d r ih =>
    by_cases h : d = c
    · simp [splitAt, h]
    · simp only [splitAt, h, if_false]
      split <;> simp

theorem joinWith_splitAt {α : Type} [DecidableEq α] (c : α) (s : List α) :
    joinWith c (splitAt c s) = s := by
  induction s with
  | nil => rfl
  | cons d r ih =>
    by_cases h : d = c
    · subst h
      cases hs : splitAt d r with
      | nil => exact absurd hs (splitAt_ne_nil d r)
      | cons p ps => rw [hs] at ih; simp [splitAt, hs, joinWith, ih]
    · cases hs : splitAt c r with
      | nil => exact absurd hs (splitAt_ne_nil c r)
      | cons p ps =>
        rw [hs] at ih
        cases ps with
        | nil => simp only [joinWith] at ih; simp [splitAt, hs, h, joinWith, ih]
        | cons q qs => simp only [joinWith] at ih; simp [splitAt, hs, h, joinWith, ih]

theorem stripStart?_eq_some_iff {α : Type} [DecidableEq α] {p s r : List α} :
    stripStart? p s = some r ↔ s = p ++ r := by
  induction p generalizing s with
  | nil => simp [stripStart?]
  | cons a p ih =>
    cases s with
    | nil => simp [stripStart?]
    | cons b s =>
      by_cases h : a = b
      · subst h; simp [stripStart?, ih]
      · simp [stripStart?, h, Ne.symm h]

theorem startsWith_iff {α : Type} [DecidableEq α] {p s : List α} :
    startsWith p s = true ↔ p <+: s := by
  unfold startsWith
  rw [Option.isSome_iff_exists]
  exact exists_congr fun rest => stripStart?_eq_some_iff.trans eq_comm

end ComponentRegistry.Text
