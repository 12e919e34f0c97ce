import ComponentRegistry.Package.Workspace
import ComponentRegistry.Proofs.Disk.Placement
import ComponentRegistry.Proofs.KeyMap
import ComponentRegistry.Proofs.Package.Matching
import Mathlib.Data.List.Sort

/-!
# Workspaces of trees that are moved

A project is a tree that stands at its root.  What is read of its workspace are files of the tree:
the description and the markers at the top, and the descriptions that workspace patterns cover.  So
the workspace does not depend on where the tree stands (`load_alike`), as long as no character of
the root's own path has a meaning in patterns.  Where one has, the packages of the workspace are
not found (`bracketed_differs`).
-/

namespace ComponentRegistry

open ComponentRegistry.Path (top)

variable {names xs ys : List String} {name : String}

theorem mem_sortedNames : name ∈ sortedNames names ↔ name ∈ names := by
  rw [sortedNames, KeyMap.mem_keys_ofList, List.map_map]
  simp [Function.comp_def]

/-- The order and the number of names does not count. -/
theorem sortedNames_congr (h : ∀ name, name ∈ xs ↔ name ∈ ys) :
    sortedNames xs = sortedNames ys := by
  have hirrefl : Std.Irrefl (α := String) (· < ·) := ⟨String.lt_irrefl⟩
  refine List.Pairwise.eq_of_mem_iff (KeyMap.pairwise_keys _) (KeyMap.pairwise_keys _) ?_
  intro name
  exact mem_sortedNames.trans ((h name).trans mem_sortedNames.symm)

namespace Package

variable {d : Disk} {file : Path} {q : Package}

theorem parse_ok_iff {text : String} : parse file text = .ok q ↔
    ∃ members, Json.parse text = .ok (.object members) ∧ ofObject (.object members) = q := by
  unfold parse
  cases Json.parse text with
  | error fault => simp
  | ok v => cases v <;> simp

/-- A description is read from a file that holds the text of an object. -/
theorem load_ok_iff : load d file = .ok q ↔
    ∃ text, (∃ l, d.locate file = .ok l ∧ d.node? l = some (.file (.text text))) ∧
      ∃ members, Json.parse text = .ok (.object members) ∧ ofObject (.object members) = q := by
  unfold load Disk.readText Disk.stat
  cases hl : d.locate file with
  | error e => simp
  | ok l =>
    cases hn : d.node? l with
    | none => simp [hn]
    | some n =>
      cases n with
      | directory | link target => simp [hn]
      | file content => cases content <;> simp [hn, parse_ok_iff]

end Package

namespace Workspace

/-! ## Trees as projects -/

/-- The names of a workspace pattern, from the root of the project to the description. -/
def names? (pattern : String) : Option (List (List Glob.Token)) :=
  Glob.names? (top.below [pattern, Package.fileName]).shown

/-- A workspace pattern covers the description below the root at these segments. -/
def Covers (pattern : String) (rel : List String) : Prop :=
  Text.startsWith ['!'] pattern.toList = false ∧
    ∃ names, names? pattern = some names ∧ Glob.Fits names rel

/-- A pattern is relative, and none of its names stands for `..`. -/
structure Inside (pattern : String) : Prop where
  isAbsolute : (Path.ofString pattern).isAbsolute = false
  notUp : ∀ names, names? pattern = some names → ∀ ts ∈ names, Glob.reachesUp ts = false

/-- The workspace patterns of a tree do not lead out of it; those that begin with `!` lead
nowhere. -/
def PatternsInside (T : Disk) : Prop :=
  ∀ p, Package.load T (top / Package.fileName) = .ok p → ∀ pattern ∈ p.workspacePatterns,
    Text.startsWith ['!'] pattern.toList = false → Inside pattern

/-- The segments of the files that are asked for below the root of a project. -/
inductive Sought (T : Disk) : List String → Prop
  | description : Sought T [Package.fileName]
  | marker {name : String} : name ∈ markers → Sought T [name]
  | package {p : Package} {pattern : String} {rel : List String} :
    Package.load T (top / Package.fileName) = .ok p → pattern ∈ p.workspacePatterns →
    Covers pattern rel → Sought T rel

/-- The tree stands where an absolute path leads, and what is asked for in it is within the
limits. -/
structure Placed (T d : Disk) (root : Path) : Prop where
  listed : d.Listed
  isAbsolute : root.isAbsolute = true
  holds : ∃ r, d.locate root = .ok r ∧ d.Holds r T
  within : ∀ rel, Sought T rel → T.isFile (top.below rel) = true → d.WithinLimits (root.below rel)

variable {T d : Disk} {root p : Path} {r : Location} {pattern : String} {rel segments : List String}
  {q : Package}

theorem isEntry_fileName : Glob.IsEntry Package.fileName := ⟨by decide, by decide, by decide⟩

/-- The last name of a pattern stands for the description. -/
theorem getLast?_of_names? {names : List (List Glob.Token)} (h : names? pattern = some names) :
    names.getLast? = some (Package.fileName.toList.map .char) := by
  obtain ⟨rest, hrest⟩ := Path.glyphs_below_top [pattern]
  obtain ⟨front, hfront⟩ := Path.exists_chars_trunk hrest
  have habs := Path.isAbsolute_top_below [pattern]
  have hjoin : (top.below [pattern, Package.fileName]).glyphs =
      (top.below [pattern]).trunk ++ Path.separator :: Text.ofChars Package.fileName.toList :=
    Path.glyphs_join (Disk.isEmpty_of_isAbsolute habs) (by decide)
  have hglyphs : (top.below [pattern, Package.fileName]).glyphs =
      Text.ofChars (front ++ '/' :: Package.fileName.toList) := by
    rw [hjoin, hfront]
    simp [Text.ofChars, Path.separator]
  rw [names?, Path.shown, hglyphs, Text.shown_ofChars] at h
  exact Glob.getLast?_names? h (by decide) (by simp [Package.fileName, Glob.special])

theorem inward_of_inside {names : List (List Glob.Token)} (hin : Inside pattern)
    (h : names? pattern = some names) : Glob.Inward names := by
  refine ⟨fun ts hts => Glob.slash_not_mem_name h hts, hin.notUp names h, fun ts hlast => ?_⟩
  rw [getLast?_of_names? h] at hlast
  rw [← Option.some.inj hlast]
  exact Glob.isRecursive_of_literal _

theorem Covers.leadsDown (h : Covers pattern rel) : Path.LeadsDown rel := by
  obtain ⟨-, names, hnames, hfits⟩ := h
  exact hfits.leadsDown isEntry_fileName (getLast?_of_names? hnames)

/-! ## Files below a root -/

section Files

variable (hT : T.Confined) (h : d.Holds r T) (hp : p.isAbsolute = true) (hr : d.locate p = .ok r)
  (hrel : Path.LeadsDown rel)
  (hlimits : T.isFile (top.below rel) = true → d.WithinLimits (p.below rel))
include hT h hp hr hrel hlimits

theorem load_below_iff :
    Package.load d (p.below rel) = .ok q ↔ Package.load T (top.below rel) = .ok q := by
  rw [Package.load_ok_iff, Package.load_ok_iff]
  simp only [Disk.file_below_iff hT h hp hr hrel hlimits]

theorem isFile_below : d.isFile (p.below rel) = T.isFile (top.below rel) := by
  rw [Bool.eq_iff_iff, Disk.isFile_iff, Disk.isFile_iff]
  constructor
  · rintro ⟨l, content, hl, hn⟩
    obtain ⟨m, hm⟩ := (Disk.file_below_iff hT h hp hr hrel hlimits).mp ⟨l, hl, hn⟩
    exact ⟨m, content, hm⟩
  · rintro ⟨m, content, hm, hn⟩
    obtain ⟨l, hl⟩ := (Disk.file_below_iff hT h hp hr hrel hlimits).mpr ⟨m, hm, hn⟩
    exact ⟨l, content, hl⟩

end Files

/-! ## Packages of a pattern -/

section Patterns

variable (hT : T.Confined) (hplaced : Placed T d root) (hliteral : Glob.IsLiteral root)
include hT hplaced hliteral

/-- **A pattern leads to the packages that it covers**, wherever the tree stands. -/
theorem mem_packagesAt (hin : Text.startsWith ['!'] pattern.toList = false → Inside pattern)
    (hsought : ∀ rel, Covers pattern rel → Sought T rel) {name : String} :
    name ∈ packagesAt d root pattern ↔
      ∃ rel q, Covers pattern rel ∧ Package.load T (top.below rel) = .ok q ∧
        q.name = some name := by
  obtain ⟨r, hr, hholds⟩ := hplaced.holds
  have hd : d.node? r = some .directory := by simpa using hholds []
  obtain ⟨segments, hspelled⟩ : ∃ segments, root.Spelled segments :=
    hliteral.elim fun cs hcs => Path.exists_spelled hplaced.isAbsolute hcs.1
  have hp := Path.isAbsolute_top_below segments
  have hl : d.locate (top.below segments) = .ok r := Disk.locate_of_spelled hspelled hr hd
  have hload {rel : List String} {q : Package} (hcovers : Covers pattern rel) :
      Package.load d ((top.below segments).below rel) = .ok q ↔
        Package.load T (top.below rel) = .ok q :=
    load_below_iff hT hholds hp hl hcovers.leadsDown fun hfile =>
      .of_spelled hspelled hcovers.leadsDown (hplaced.within rel (hsought rel hcovers) hfile)
  by_cases hbang : Text.startsWith ['!'] pattern.toList = true
  · simp [packagesAt, Covers, hbang]
  have hinside := hin (by simpa using hbang)
  have hparts : ∀ s ∈ [pattern, Package.fileName], (Path.ofString s).isAbsolute = false := by
    simp only [List.forall_mem_cons]
    exact ⟨hinside.isAbsolute, by decide, by simp⟩
  have hbelow : root / pattern / Package.fileName = root.below [pattern, Package.fileName] := rfl
  rw [packagesAt, if_neg hbang, hbelow, Glob.paths_below hspelled hliteral hparts (by simp) hl hd,
    List.mem_filterMap, ← names?]
  constructor
  · rintro ⟨file, hfile, hname⟩
    cases hnames : names? pattern with
    | none => simp [hnames] at hfile
    | some names =>
      rw [hnames] at hfile
      obtain ⟨rel, hfits, rfl⟩ :=
        Glob.exists_fits hplaced.listed (inward_of_inside hinside hnames) hfile
      have hcovers : Covers pattern rel := ⟨by simpa using hbang, names, hnames, hfits⟩
      cases hq : Package.load d ((top.below segments).below rel) with
      | error f => simp [hq, Except.toOption] at hname
      | ok q =>
        rw [hq] at hname
        exact ⟨rel, q, hcovers, (hload hcovers).mp hq, hname⟩
  · rintro ⟨rel, q, hcovers, hq, hname⟩
    have hq' := (hload hcovers).mpr hq
    obtain ⟨-, names, hnames, hfits⟩ := hcovers
    obtain ⟨text, ⟨l, hfile, -⟩, -⟩ := Package.load_ok_iff.mp hq'
    refine ⟨(top.below segments).below rel, ?_, ?_⟩
    · rw [hnames]
      exact Glob.mem_matchesBelow hfits hp
        (hfits.endsInEntry isEntry_fileName (getLast?_of_names? hnames)) hfile
        (hfits.length_lt hp hfile)
    · rw [hq']
      exact hname

end Patterns

/-! ## A small tree -/

/-- A project with one package. -/
def acme : Disk := Disk.ofTexts
  [("/package.json", "\x7b \"workspaces\": [\"packages/*\"] \x7d"),
    ("/packages/ui/package.json", "\x7b \"name\": \"@acme/ui\" \x7d")]

/-- The project alone in a directory below the root. -/
def acmeIn (place : String) : Disk := acme.graft [Text.ofChars place.toList]

theorem patterns_acme {p : Package} (h : Package.load acme (top / Package.fileName) = .ok p) :
    p.workspacePatterns = ["packages/*"] := by
  have hpatterns : (Package.load acme (top / Package.fileName)).toOption.map
      Package.workspacePatterns = some ["packages/*"] := by decide +kernel
  rw [h] at hpatterns
  exact Option.some.inj hpatterns

theorem names?_acme : names? "packages/*" = some
    ["packages".toList.map .char, [.anySequence], Package.fileName.toList.map .char] := by
  decide +kernel

theorem patternsInside_acme : PatternsInside acme := by
  intro p hp pattern hpattern _
  rw [patterns_acme hp, List.mem_singleton] at hpattern
  subst hpattern
  refine ⟨by decide, fun names hnames => ?_⟩
  rw [names?_acme] at hnames
  rw [← Option.some.inj hnames]
  decide

/-- What is asked for in the tree is the description, the markers and the one package. -/
theorem sought_acme (h : Sought acme rel) (hfile : acme.isFile (top.below rel) = true) :
    rel ∈ [Package.fileName] :: ["packages", "ui", Package.fileName] :: markers.map ([·]) := by
  cases h with
  | description => simp
  | marker hname =>
    exact List.mem_cons_of_mem _ (List.mem_cons_of_mem _ (List.mem_map_of_mem hname))
  | package hload hpattern hcovers =>
    rw [patterns_acme hload, List.mem_singleton] at hpattern
    subst hpattern
    obtain ⟨-, names, hnames, hfits⟩ := hcovers
    rw [names?_acme] at hnames
    obtain rfl := Option.some.inj hnames
    obtain ⟨inner, rfl, hinner⟩ := hfits.of_literal
    obtain ⟨s, rest, rfl, hs, -, hrest⟩ := hinner.of_name (by decide) (by decide)
    obtain ⟨last, rfl, hlast⟩ := hrest.of_literal
    cases hlast
    -- only one entry stands in the directory
    obtain ⟨l, content, hl, -⟩ := Disk.isFile_iff.mp hfile
    have hsegments : ∀ t ∈ [s, Package.fileName], Path.IsSegment t :=
      List.forall_mem_cons.mpr ⟨hs.isSegment, by decide⟩
    obtain ⟨m, hm, -, hsome⟩ := Disk.entry_of_below (p := top / "packages") (by decide) hsegments
      hs.isStep hs.notUp hl
    have hpackages : acme.locate (top / "packages") = .ok [Text.ofChars "packages".toList] := by
      decide +kernel
    rw [hpackages] at hm
    obtain rfl := Except.ok.inj hm
    obtain ⟨n, hn⟩ := Option.isSome_iff_exists.mp hsome
    have hlocation := Disk.mem_locations_of_node? (by simp) hn
    have honly : ∀ l ∈ acme.locations, l.length = 2 →
        l = [Text.ofChars "packages".toList, Text.ofChars "ui".toList] := by decide +kernel
    have hsame : Text.ofChars s.toList = Text.ofChars "ui".toList := by
      simpa using honly _ hlocation (by simp)
    rw [Text.eq_of_ofChars hsame]
    decide

/-- Where its description and its package are within the limits, the project can stand. -/
theorem placed_acme {place : String} (hlisted : (acmeIn place).Listed)
    (hroot : (acmeIn place).locate (top / place) = .ok [Text.ofChars place.toList])
    (hlimits : ∀ rel ∈ [Package.fileName] :: ["packages", "ui", Package.fileName] ::
      markers.map ([·]), (acmeIn place).WithinLimits ((top / place).below rel)) :
    Placed acme (acmeIn place) (top / place) :=
  ⟨hlisted, Path.isAbsolute_join_base _ (by decide), ⟨_, hroot, Disk.holds_graft _ _⟩,
    fun _ hsought hfile => hlimits _ (sought_acme hsought hfile)⟩

/-! ## The workspace of a tree -/

theorem leadsDown_singleton {name : String} (h : name ∈ Package.fileName :: markers) :
    Path.LeadsDown [name] := by
  revert name
  simp only [markers, List.forall_mem_cons]
  refine ⟨?_, ?_, ?_, by simp⟩ <;> exact ⟨by decide, by decide, _, rfl, by decide⟩

section Placed

variable {package : Package}

/-- At the root of a tree its own description is read. -/
theorem Placed.load_iff (hplaced : Placed T d root) (hT : T.Confined) :
    Package.load d (root / Package.fileName) = .ok package ↔
      Package.load T (top / Package.fileName) = .ok package := by
  obtain ⟨r, hr, hholds⟩ := hplaced.holds
  have hdown : Path.LeadsDown [Package.fileName] := leadsDown_singleton (by simp)
  have hsame : Package.load d (root.below [Package.fileName]) = .ok package ↔
      Package.load T (top.below [Package.fileName]) = .ok package :=
    load_below_iff hT hholds hplaced.isAbsolute hr hdown (hplaced.within _ .description)
  exact hsame

/-- At the root of a tree its own markers stand. -/
theorem Placed.isFile_marker (hplaced : Placed T d root) (hT : T.Confined) {name : String}
    (hname : name ∈ markers) : d.isFile (root / name) = T.isFile (top / name) := by
  obtain ⟨r, hr, hholds⟩ := hplaced.holds
  have hdown : Path.LeadsDown [name] := leadsDown_singleton (List.mem_cons_of_mem _ hname)
  have hsame : d.isFile (root.below [name]) = T.isFile (top.below [name]) :=
    isFile_below hT hholds hplaced.isAbsolute hr hdown (hplaced.within _ (.marker hname))
  exact hsame

/-- **The packages of a workspace** are those that are linked and those that its patterns cover. -/
theorem Placed.mem_packages (hplaced : Placed T d root) (hT : T.Confined)
    (hliteral : Glob.IsLiteral root) (hin : PatternsInside T)
    (hload : Package.load T (top / Package.fileName) = .ok package) {name : String} :
    name ∈ (ofPackage d root package).packages ↔ name ∈ package.linkedDependencies ∨
      ∃ pattern ∈ package.workspacePatterns, ∃ rel q, Covers pattern rel ∧
        Package.load T (top.below rel) = .ok q ∧ q.name = some name := by
  rw [ofPackage, mem_sortedNames, List.mem_append, List.mem_flatMap]
  refine or_congr_right (exists_congr fun pattern => and_congr_right fun hpattern => ?_)
  exact mem_packagesAt hT hplaced hliteral (hin package hload pattern hpattern)
    fun rel hcovers => .package hload hpattern hcovers

end Placed

variable {d₁ d₂ : Disk} {root₁ root₂ : Path}

/-- **The workspace of a project does not depend on where the project stands**, if the text of the
root stands for itself in patterns: what the description at the top says of it is the same, and its
packages are those that are linked and those in the directories of the tree that a pattern fits. -/
theorem load_alike (hT : T.Confined) (hin : PatternsInside T)
    (h₁ : Placed T d₁ root₁) (hliteral₁ : Glob.IsLiteral root₁)
    (h₂ : Placed T d₂ root₂) (hliteral₂ : Glob.IsLiteral root₂) :
    load d₁ root₁ = load d₂ root₂ ∧
      ∀ package, Package.load T (top / Package.fileName) = .ok package →
        ∀ name, name ∈ (load d₁ root₁).packages ↔ name ∈ package.linkedDependencies ∨
          ∃ pattern ∈ package.workspacePatterns, ∃ rel q, Covers pattern rel ∧
            Package.load T (top.below rel) = .ok q ∧ q.name = some name := by
  have hread {d : Disk} {root : Path} (h : Placed T d root) {package : Package}
      (hload : Package.load T (top / Package.fileName) = .ok package) :
      load d root = ofPackage d root package := by
    rw [load, (h.load_iff hT).mpr hload]
  refine ⟨?_, fun package hload name => ?_⟩
  · cases hload : Package.load T (top / Package.fileName) with
    | error f =>
      have habsent {d : Disk} {root : Path} (h : Placed T d root) : load d root = absent := by
        unfold load
        cases hfile : Package.load d (root / Package.fileName) with
        | error f => rfl
        | ok package =>
          rw [(h.load_iff hT).mp hfile] at hload
          cases hload
      rw [habsent h₁, habsent h₂]
    | ok package =>
      have hmarkers : (markers.any fun name => d₁.isFile (root₁ / name)) =
          markers.any fun name => d₂.isFile (root₂ / name) := by
        rw [Bool.eq_iff_iff, List.any_eq_true, List.any_eq_true]
        refine exists_congr fun name => and_congr_right fun hname => ?_
        rw [h₁.isFile_marker hT hname, h₂.isFile_marker hT hname]
      have hpackages :
          (ofPackage d₁ root₁ package).packages = (ofPackage d₂ root₂ package).packages :=
        sortedNames_congr fun name => mem_sortedNames.symm.trans
          (((h₁.mem_packages hT hliteral₁ hin hload).trans
            (h₂.mem_packages hT hliteral₂ hin hload).symm).trans mem_sortedNames)
      rw [hread h₁ hload, hread h₂ hload, ofPackage, ofPackage, Workspace.mk.injEq]
      exact ⟨by rw [hmarkers], rfl, rfl, hpackages⟩
  · rw [hread h₁ hload]
    exact h₁.mem_packages hT hliteral₁ hin hload

/-- The project with one package has the same workspace in both of these directories. -/
theorem acme_alike : load (acmeIn "work") (top / "work") = load (acmeIn "home") (top / "home") ∧
    (load (acmeIn "work") (top / "work")).packages = ["@acme/ui"] :=
  ⟨(load_alike (Disk.confined_ofTexts _) patternsInside_acme
      (placed_acme (by decide +kernel) (by decide +kernel) (by decide +kernel))
      ⟨"/work".toList, by decide, by simp [Glob.special]⟩
      (placed_acme (by decide +kernel) (by decide +kernel) (by decide +kernel))
      ⟨"/home".toList, by decide, by simp [Glob.special]⟩).1, by decide +kernel⟩

/-- In a directory with a bracket in its name the project has no package. -/
theorem bracketed_differs : acme.Confined ∧ PatternsInside acme ∧
    Placed acme (acmeIn "a[1]") (top / "a[1]") ∧ Placed acme (acmeIn "work") (top / "work") ∧
    load (acmeIn "a[1]") (top / "a[1]") ≠ load (acmeIn "work") (top / "work") :=
  ⟨Disk.confined_ofTexts _, patternsInside_acme,
    placed_acme (by decide +kernel) (by decide +kernel) (by decide +kernel),
    placed_acme (by decide +kernel) (by decide +kernel) (by decide +kernel), by decide +kernel⟩

end Workspace

end ComponentRegistry
