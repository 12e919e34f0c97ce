import ComponentRegistry.Package.Workspace
import ComponentRegistry.Proofs.Path.Joining
import ComponentRegistry.Resolver.Candidates

/-!
# The package that a specifier names

A workspace compares a specifier with the names of its packages, and the resolver cuts the name off the
specifier.  Both read the same name off it: the segments of a well-formed name begin those of the
specifier exactly if the specifier is the name or goes on with a slash (`prefix_splitAt_iff`), and such
a name has as many segments as the resolver takes (`nameOf_eq_iff`).  So a specifier belongs to a
workspace exactly if the name that is cut off it is one of its names (`contains_iff_splitSpecifier`).
-/

namespace ComponentRegistry

namespace Text

variable {α : Type} [DecidableEq α] {c : α} {s : List α} {ps : List (List α)}

/-- The pieces of a text begin with given ones exactly if the text is these put together, or goes on
behind them with a separator. -/
theorem prefix_splitAt_iff (hne : ps ≠ []) (hfree : ∀ p ∈ ps, c ∉ p) :
    ps <+: splitAt c s ↔ s = joinWith c ps ∨ ∃ rest, s = joinWith c ps ++ c :: rest := by
  constructor
  · rintro ⟨qs, hqs⟩
    have hs : s = joinWith c (ps ++ qs) := by rw [hqs, joinWith_splitAt]
    by_cases hnil : qs = []
    · left
      simpa [hnil] using hs
    · right
      exact ⟨joinWith c qs, by rw [hs, joinWith_append c hne hnil]⟩
  · have hsplit := splitAt_joinWith hne hfree
    rintro (rfl | ⟨rest, rfl⟩)
    · simp [hsplit]
    · rw [splitAt_append, hsplit]
      exact List.prefix_append _ _

end Text

/-- A well-formed package name: one segment, or a scope behind an `@` and one segment. -/
inductive IsPackageName : List Char → Prop where
  | plain {name : List Char} :
    name ≠ [] → '/' ∉ name → name.head? ≠ some '@' → IsPackageName name
  | inScope {scope name : List Char} :
    scope ≠ [] → name ≠ [] → '/' ∉ scope → '/' ∉ name → IsPackageName ('@' :: (scope ++ '/' :: name))

/-- The specifier is the name or a path below it. -/
def Below (name specifier : List Char) : Prop :=
  specifier = name ∨ ∃ rest, specifier = name ++ '/' :: rest

namespace Resolver

/-- How many segments the name of a package has: those of a scope are two. -/
def nameLength (specifier : List Char) : Nat := if Text.startsWith ['@'] specifier then 2 else 1

/-- The segments that name the package of a specifier. -/
def nameOf (specifier : List Char) : List Char :=
  Text.joinWith '/' ((Text.splitAt '/' specifier).take (nameLength specifier))

theorem splitSpecifier_fst (specifier : String) :
    (splitSpecifier specifier).1 = String.ofList (nameOf specifier.toList) := rfl

theorem nameLength_cons (x : Char) (s : List Char) : nameLength (x :: s) = if x = '@' then 2 else 1 := by
  by_cases h : x = '@'
  · simp [nameLength, Text.startsWith, Text.stripStart?, h]
  · simp [nameLength, Text.startsWith, Text.stripStart?, h, Ne.symm h]

end Resolver

open Resolver

variable {name specifier : List Char}

/-- A well-formed name is made of as many segments as are cut off for it. -/
theorem IsPackageName.segments (h : IsPackageName name) :
    ∃ ps, name = Text.joinWith '/' ps ∧ ps.length = nameLength name ∧ ∀ p ∈ ps, '/' ∉ p := by
  cases h with
  | plain hne hslash hat =>
    refine ⟨[name], rfl, ?_, by simpa using hslash⟩
    obtain ⟨x, s, rfl⟩ := List.exists_cons_of_ne_nil hne
    have hx : x ≠ '@' := by simpa using hat
    simp [nameLength_cons, hx]
  | @inScope scope name hscope hname hfree hfree' =>
    refine ⟨['@' :: scope, name], rfl, ?_, ?_⟩
    · simp [nameLength_cons]
    · simp [hfree, hfree']

theorem IsPackageName.ne_nil (h : IsPackageName name) : name ≠ [] := by
  cases h with
  | plain hne _ _ => exact hne
  | inScope _ _ _ _ => exact List.cons_ne_nil _ _

/-- What begins with a name has as many segments in its name. -/
theorem nameLength_of_below (hne : name ≠ []) (h : Below name specifier) :
    nameLength specifier = nameLength name := by
  obtain ⟨x, s, rfl⟩ := List.exists_cons_of_ne_nil hne
  rcases h with rfl | ⟨rest, rfl⟩
  · rfl
  · rw [List.cons_append, nameLength_cons, nameLength_cons]

/-- **A well-formed name is cut off a specifier exactly if the specifier is the name or goes on behind
it with a slash.** -/
theorem nameOf_eq_iff (h : IsPackageName name) : nameOf specifier = name ↔ Below name specifier := by
  obtain ⟨ps, rfl, hlength, hfree⟩ := h.segments
  have hne : ps ≠ [] := by
    rintro rfl
    exact absurd rfl h.ne_nil
  have hbelow : Below (Text.joinWith '/' ps) specifier ↔ ps <+: Text.splitAt '/' specifier :=
    (Text.prefix_splitAt_iff hne hfree).symm
  constructor
  · intro hname
    have hpos : (Text.splitAt '/' specifier).take (nameLength specifier) ≠ [] := by
      have hcount : nameLength specifier ≠ 0 := by
        unfold nameLength
        split <;> simp
      simp [hcount, Text.splitAt_ne_nil]
    have hpieces : ∀ p ∈ (Text.splitAt '/' specifier).take (nameLength specifier), '/' ∉ p :=
      fun p hp => Text.not_mem_piece (List.mem_of_mem_take hp)
    -- put together they are the same text, so they are the same segments
    have hsegments : (Text.splitAt '/' specifier).take (nameLength specifier) = ps := by
      rw [← Text.splitAt_joinWith hpos hpieces, ← Text.splitAt_joinWith hne hfree]
      exact congrArg (Text.splitAt '/') hname
    rw [hbelow, ← hsegments]
    exact List.take_prefix _ _
  · intro hs
    have hcount := (nameLength_of_below h.ne_nil hs).trans hlength.symm
    have hbegins := List.prefix_iff_eq_take.mp (hbelow.mp hs)
    rw [nameOf, hcount, ← hbegins]

namespace Workspace

theorem contains_iff (w : Workspace) (specifier : String) :
    w.contains specifier = true ↔ ∃ name ∈ w.packages, Below name.toList specifier.toList := by
  unfold contains
  rw [List.any_eq_true]
  refine exists_congr fun name => and_congr_right fun _ => ⟨fun h => ?_, ?_⟩
  · split at h
    · next rest hrest =>
      have hs := Text.stripStart?_eq_some_iff.mp hrest
      rcases Bool.or_eq_true_iff.mp h with hempty | hslash
      · left
        simpa [List.isEmpty_iff.mp hempty] using hs
      · obtain ⟨below, rfl⟩ := Text.startsWith_iff.mp hslash
        exact .inr ⟨below, hs⟩
    · cases h
  · rintro (hs | ⟨below, hs⟩)
    · rw [Text.stripStart?_eq_some_iff.mpr (by rw [List.append_nil]; exact hs)]
      rfl
    · rw [Text.stripStart?_eq_some_iff.mpr hs]
      simp [Text.startsWith, Text.stripStart?]

/-- **A specifier belongs to a workspace exactly if the name that the resolver cuts off it is the name
of one of its packages.**  The package is the same for both: the resolver cuts off the very name that
the specifier is or goes on behind with a slash, and never one that the specifier goes on behind with
another character. -/
theorem contains_iff_splitSpecifier (w : Workspace)
    (hnames : ∀ name ∈ w.packages, IsPackageName name.toList) (specifier : String) :
    (w.contains specifier = true ↔ (splitSpecifier specifier).1 ∈ w.packages) ∧
    ∀ name ∈ w.packages,
      ((splitSpecifier specifier).1 = name ↔ Below name.toList specifier.toList) ∧
      ∀ c rest, c ≠ '/' → specifier.toList = name.toList ++ c :: rest →
        (splitSpecifier specifier).1 ≠ name := by
  have hname : ∀ name ∈ w.packages,
      ((splitSpecifier specifier).1 = name ↔ Below name.toList specifier.toList) := by
    intro name hmem
    rw [← nameOf_eq_iff (hnames name hmem), splitSpecifier_fst, ← String.toList_inj,
      String.toList_ofList]
  refine ⟨?_, fun name hmem => ⟨hname name hmem, fun c rest hc hs heq => ?_⟩⟩
  · rw [contains_iff]
    constructor
    · rintro ⟨name, hmem, hbelow⟩
      rwa [(hname name hmem).mpr hbelow]
    · intro hmem
      exact ⟨_, hmem, (hname _ hmem).mp rfl⟩
  · rcases (hname name hmem).mp heq with hself | ⟨below, hbelow⟩
    · rw [hself] at hs
      simp at hs
    · rw [hbelow] at hs
      have hslash : '/' = c := by simpa using congrArg List.head? (List.append_cancel_left hs)
      exact hc hslash.symm

/-- A workspace with a scoped package and one that is not. -/
def acmeKits : Workspace := { absent with packages := ["@acme/ui", "kit"] }

theorem acmeKits_contains :
    (∀ name ∈ acmeKits.packages, IsPackageName name.toList) ∧
    acmeKits.contains "@acme/ui/button" = true ∧ acmeKits.contains "kit/" = true ∧
    acmeKits.contains "@acme/ui-kit" = false ∧ acmeKits.contains "@acme" = false ∧
    acmeKits.contains "@acme//ui" = false := by
  have hnames : ∀ name ∈ acmeKits.packages, IsPackageName name.toList := by
    have hscoped : IsPackageName "@acme/ui".toList :=
      @IsPackageName.inScope "acme".toList "ui".toList (by decide) (by decide) (by decide) (by decide)
    have hplain : IsPackageName "kit".toList := .plain (by decide) (by decide) (by decide)
    intro name hmem
    simp only [acmeKits, List.mem_cons, List.not_mem_nil, or_false] at hmem
    rcases hmem with rfl | rfl
    · exact hscoped
    · exact hplain
  have hcontains := fun specifier => (contains_iff_splitSpecifier acmeKits hnames specifier).1
  have houtside : ∀ specifier, (splitSpecifier specifier).1 ∉ acmeKits.packages →
      acmeKits.contains specifier = false := by
    intro specifier hnot
    exact Bool.eq_false_iff.mpr (mt (hcontains specifier).mp hnot)
  exact ⟨hnames, (hcontains _).mpr (by decide), (hcontains _).mpr (by decide),
    houtside _ (by decide), houtside _ (by decide), houtside _ (by decide)⟩

end Workspace

end ComponentRegistry
