import ComponentRegistry.Proofs.Disk.Spelling
import ComponentRegistry.Proofs.Resolver.MappingKeys

/-!
# Inherited settings

A configuration may extend another one, and that a third: a chain of levels, which ends where nothing
readable is extended, and after eight extended ones also if they extend each other in a circle
(`Chain`).  Each setting is that of the first level that declares it (`settings?_eq_some_iff`), so the
base directory and the path mappings may come from different ones (`load_eq_nearest`).
-/

namespace ComponentRegistry

namespace Path

variable {p : Path}

theorem parentsOf_ne_nil {a : Anchor} {s : Name} {segments : List Name} (h : s ∈ segments)
    (hs : isStep s = true) : parentsOf a segments ≠ [] := by
  induction segments with
  | nil => cases h
  | cons t rest ih =>
    unfold parentsOf
    split_ifs with ht
    · exact List.cons_ne_nil _ _
    · refine ih ((List.mem_cons.mp h).resolve_left ?_)
      rintro rfl
      exact ht hs

/-- A path that ends in a name stands in a directory. -/
theorem EndsInName.parent? (h : p.EndsInName) : ∃ dir, p.parent? = some dir := by
  obtain ⟨s, hlast, hs⟩ := h
  have hname : s ∈ p.names := List.mem_filter.mpr ⟨List.mem_of_getLast? hlast, hs⟩
  rw [← filter_parts] at hname
  have hsegment : s ∈ p.parts.2.reverse := List.mem_reverse.mpr (List.mem_filter.mp hname).1
  obtain ⟨dir, more, hparents⟩ := List.exists_cons_of_ne_nil (parentsOf_ne_nil (a := p.parts.1) hsegment hs)
  exact ⟨dir, by simp [Path.parent?, parents, hparents]⟩

end Path

namespace ProjectConfig

variable {d : Disk} {file parent : Path} {limit : Nat}

/-! ## Levels -/

/-- A configuration in a chain: the directory it stands in and what it says. -/
structure Level where
  dir : Path
  said : Json

namespace Level

variable {l : Level}

/-- The level is what stands in the file. -/
def Reads (d : Disk) (file : Path) (l : Level) : Prop := file.parent? = some l.dir ∧ Says d file l.said

/-- The file that a level extends is named relative to it, if there is one of that name, and else the
name lacks `.json`. -/
inductive Extends (d : Disk) (l : Level) : Path → Prop where
  | named {name : String} : l.said.member? "extends" = some (.string name) → ['.'] <+: name.toList →
      d.isFile (l.dir / name) = true → Extends d l (l.dir / name)
  | completed {name : String} : l.said.member? "extends" = some (.string name) → ['.'] <+: name.toList →
      d.isFile (l.dir / name) = false →
      Extends d l ⟨(l.dir / name).glyphs ++ Text.ofChars ".json".toList⟩

/-- A member of the options of a level. -/
def option? (key : String) (l : Level) : Option Json :=
  (l.said.member? "compilerOptions").bind (Json.member? key)

/-- The base directory that a level declares. -/
def baseUrl? (l : Level) : Option Path :=
  ((l.option? "baseUrl").bind Json.string?).map fun url => l.dir / url

/-- The members of `paths` that a level declares, and its directory. -/
def paths? (l : Level) : Option (List (String × Json) × Path) :=
  ((l.option? "paths").bind Json.members?).map fun members => (members, l.dir)

theorem extends_iff : l.Extends d parent ↔ parentFile? d l.dir l.said = some parent := by
  unfold parentFile?
  constructor
  · rintro (⟨hname, hdot, hfile⟩ | ⟨hname, hdot, hfile⟩) <;>
      simp [hname, Json.string?, Text.startsWith_iff.mpr hdot, hfile]
  · intro h
    cases hname : (l.said.member? "extends").bind Json.string? with
    | none => simp [hname] at h
    | some name =>
      obtain ⟨v, hv, hstring⟩ := Option.bind_eq_some_iff.mp hname
      have hmember : l.said.member? "extends" = some (.string name) := by
        cases v <;> simp_all [Json.string?]
      simp only [hname, Bool.not_eq_true', Option.ite_none_left_eq_some, Bool.not_eq_false,
        Text.startsWith_iff, Option.some_inj] at h
      obtain ⟨hdot, rfl⟩ := h
      split_ifs with hfile
      · exact .named hmember hdot hfile
      · exact .completed hmember hdot (by simpa using hfile)

/-- What is read stands in a directory. -/
theorem exists_reads {v : Json} (h : Says d file v) : ∃ l, Reads d file l ∧ l.said = v := by
  obtain ⟨text, htext, hparse⟩ := h
  obtain ⟨dir, hdir⟩ := (Disk.spelling_of_isFile (Disk.isFile_of_readText htext)).1.parent?
  exact ⟨⟨dir, v⟩, ⟨hdir, text, htext, hparse⟩, rfl⟩

theorem Reads.unique {l' : Level} (h : Reads d file l) (h' : Reads d file l') : l = l' := by
  obtain ⟨hdir, text, htext, hparse⟩ := h
  obtain ⟨hdir', text', htext', hparse'⟩ := h'
  obtain rfl := Except.ok.inj (htext.symm.trans htext')
  cases l
  cases l'
  congr
  · exact Option.some.inj (hdir.symm.trans hdir')
  · exact Except.ok.inj (hparse.symm.trans hparse')

theorem Extends.unique {parent' : Path} (h : l.Extends d parent) (h' : l.Extends d parent') :
    parent = parent' :=
  Option.some.inj ((extends_iff.mp h).symm.trans (extends_iff.mp h'))

end Level

/-! ## Chains -/

/-- The levels from a file on, with at most `limit` that are extended: each is followed by the one that
it extends, if that can be read. -/
inductive Chain (d : Disk) : Nat → Path → List Level → Prop where
  | full {file : Path} {l : Level} : l.Reads d file → Chain d 0 file [l]
  | last {limit : Nat} {file : Path} {l : Level} : l.Reads d file →
      (∀ parent, l.Extends d parent → ∀ v, ¬ Says d parent v) → Chain d (limit + 1) file [l]
  | next {limit : Nat} {file parent : Path} {l : Level} {levels : List Level} : l.Reads d file →
      l.Extends d parent → Chain d limit parent levels → Chain d (limit + 1) file (l :: levels)

variable {levels : List Level}

theorem Chain.length_le (h : Chain d limit file levels) : levels.length ≤ limit + 1 := by
  induction h with
  | full => simp
  | last => simp
  | next _ _ _ ih =>
    rw [List.length_cons]
    omega

theorem Chain.says (h : Chain d limit file levels) : ∃ v, Says d file v := by
  cases h with
  | full hl => exact ⟨_, hl.2⟩
  | last hl => exact ⟨_, hl.2⟩
  | next hl => exact ⟨_, hl.2⟩

/-- A file has one chain. -/
theorem Chain.unique {levels' : List Level} (h : Chain d limit file levels)
    (h' : Chain d limit file levels') : levels = levels' := by
  induction h generalizing levels' with
  | full hl =>
    cases h' with
    | full hl' => rw [hl.unique hl']
  | last hl hends =>
    cases h' with
    | last hl' => rw [hl.unique hl']
    | next hl' hparent hrest =>
      obtain ⟨v, hv⟩ := hrest.says
      exact absurd hv (hends _ (hl.unique hl' ▸ hparent) v)
  | next hl hparent hrest ih =>
    cases h' with
    | last hl' hends =>
      obtain ⟨v, hv⟩ := hrest.says
      exact absurd hv (hends _ (hl'.unique hl ▸ hparent) v)
    | next hl' hparent' hrest' =>
      obtain rfl := hl.unique hl'
      obtain rfl := hparent.unique hparent'
      rw [ih hrest']

/-! ## Settings of a chain -/

/-- The settings of the levels that declare them first. -/
def nearest (levels : List Level) : Settings :=
  ⟨levels.findSome? Level.baseUrl?, levels.findSome? Level.paths?⟩

/-- A level lays its settings over those of the levels behind it. -/
theorem overlay_nearest (l : Level) (levels : List Level) :
    (nearest levels).overlay l.dir l.said = nearest (l :: levels) := by
  unfold Settings.overlay nearest Level.baseUrl? Level.paths? Level.option?
  rw [List.findSome?_cons, List.findSome?_cons]
  cases l.said.member? "compilerOptions" with
  | none => rfl
  | some options =>
    simp only [Option.bind_some]
    congr 1
    · cases (options.member? "baseUrl").bind Json.string? <;> rfl
    · cases (options.member? "paths").bind Json.members? <;> rfl

/-- A configuration that is read has settings, whatever it extends. -/
theorem exists_settings? {v : Json} (h : Says d file v) (limit : Nat) :
    ∃ s, settings? d limit file = some s := by
  obtain ⟨l, ⟨hown, hl⟩, -⟩ := Level.exists_reads h
  cases limit with
  | zero =>
    rw [settings?_zero]
    exact ⟨_, (read_eq_some_iff fun _ _ => .absent).mpr ⟨_, _, hl, hown, rfl⟩⟩
  | succ limit =>
    rw [settings?_succ]
    exact ⟨_, (read_eq_some_iff (inheritedFrom d limit)).mpr ⟨_, _, hl, hown, rfl⟩⟩

/-- **Settings are those of the chain**: each that of the first level that declares it. -/
theorem settings?_eq_some_iff {s : Settings} :
    settings? d limit file = some s ↔ ∃ levels, Chain d limit file levels ∧ s = nearest levels := by
  induction limit generalizing file s with
  | zero =>
    rw [settings?_zero]
    refine (read_eq_some_iff fun _ _ => .absent).trans ?_
    constructor
    · rintro ⟨v, own, hv, hown, rfl⟩
      exact ⟨[⟨own, v⟩], .full ⟨hown, hv⟩, overlay_nearest ⟨own, v⟩ []⟩
    · rintro ⟨levels, hchain, rfl⟩
      cases hchain with
      | full hl => exact ⟨_, _, hl.2, hl.1, overlay_nearest _ []⟩
  | succ limit ih =>
    rw [settings?_succ]
    refine (read_eq_some_iff (inheritedFrom d limit)).trans ?_
    unfold inheritedFrom
    constructor
    · rintro ⟨v, own, hv, hown, rfl⟩
      cases hbehind : (parentFile? d own v).bind (settings? d limit) with
      | none =>
        refine ⟨[⟨own, v⟩], .last ⟨hown, hv⟩ fun parent hparent v' hv' => ?_, overlay_nearest ⟨own, v⟩ []⟩
        obtain ⟨s, hs⟩ := exists_settings? hv' limit
        rw [Level.extends_iff.mp hparent, Option.bind_some, hs] at hbehind
        cases hbehind
      | some inherited =>
        obtain ⟨parent, hparent, hs⟩ := Option.bind_eq_some_iff.mp hbehind
        obtain ⟨levels, hchain, rfl⟩ := ih.mp hs
        exact ⟨⟨own, v⟩ :: levels, .next ⟨hown, hv⟩ (Level.extends_iff.mpr hparent) hchain,
          overlay_nearest ⟨own, v⟩ levels⟩
    · rintro ⟨levels, hchain, rfl⟩
      cases hchain with
      | last hl hends =>
        refine ⟨_, _, hl.2, hl.1, ?_⟩
        rw [← overlay_nearest]
        congr 1
        cases hbehind : (parentFile? d _ _).bind (settings? d limit) with
        | none => rfl
        | some inherited =>
          obtain ⟨parent, hparent, hs⟩ := Option.bind_eq_some_iff.mp hbehind
          obtain ⟨levels, hchain, -⟩ := ih.mp hs
          obtain ⟨v, hv⟩ := hchain.says
          exact absurd hv (hends parent (Level.extends_iff.mpr hparent) v)
      | next hl hparent hrest =>
        refine ⟨_, _, hl.2, hl.1, ?_⟩
        rw [← overlay_nearest, Level.extends_iff.mp hparent, Option.bind_some,
          ih.mpr ⟨_, hrest, rfl⟩, Option.getD_some]

theorem load_eq_none_iff : load d file = none ↔ ∀ v, ¬ Says d file v := by
  unfold load
  rw [Option.map_eq_none_iff]
  constructor
  · intro hnone v hv
    obtain ⟨s, hs⟩ := exists_settings? hv extendsLimit
    rw [hnone] at hs
    cases hs
  · intro hno
    cases hs : settings? d extendsLimit file with
    | none => rfl
    | some s =>
      obtain ⟨levels, hchain, -⟩ := settings?_eq_some_iff.mp hs
      obtain ⟨v, hv⟩ := hchain.says
      exact absurd hv (hno v)

/-- The mappings that settings describe start from the directory that these fix. -/
theorem Settings.base_of_mem_mappings {s : Settings} {members : List (String × Json)} {dir : Path}
    (hpaths : s.paths = some (members, dir)) {m : PathMapping} (hm : m ∈ s.mappings) :
    m.base = s.baseUrl.getD dir := by
  obtain ⟨members', dir', hpaths', ⟨key, v⟩, -, hread⟩ := mem_mappings.mp hm
  obtain ⟨rfl, rfl⟩ := Prod.mk.inj (Option.some.inj (hpaths.symm.trans hpaths'))
  obtain ⟨items, -, rfl⟩ := PathMapping.ofMember?_eq_some_iff.mp hread
  rfl

/-- **A configuration takes each setting from the nearest level that declares it.**  Nothing is loaded
exactly if the file itself cannot be read.  If it can, its chain is one, of at most nine levels; the
base directory is the first that a level declares, the mappings are read from the first `paths` that one
declares, and their targets start from the base directory, or else from where these `paths` stand. -/
theorem load_eq_nearest (d : Disk) (file : Path) :
    (load d file = none ↔ ∀ v, ¬ Says d file v) ∧
    ∀ v, Says d file v → ∃ levels config, Chain d extendsLimit file levels ∧
      (∀ levels', Chain d extendsLimit file levels' → levels' = levels) ∧
      levels.length ≤ extendsLimit + 1 ∧ load d file = some config ∧
      config.baseUrl = levels.findSome? Level.baseUrl? ∧
      (levels.findSome? Level.paths? = none → config.mappings = []) ∧
      ∀ members dir, levels.findSome? Level.paths? = some (members, dir) →
        config.mappings.Perm
          (members.filterMap (PathMapping.ofMember? (config.baseUrl.getD dir))) ∧
        ∀ m ∈ config.mappings, ∀ captured, m.destinations captured =
          m.targets.map fun target => config.baseUrl.getD dir / PathMapping.fill target captured := by
  refine ⟨load_eq_none_iff, fun v hv => ?_⟩
  obtain ⟨s, hs⟩ := exists_settings? hv extendsLimit
  obtain ⟨levels, hchain, rfl⟩ := settings?_eq_some_iff.mp hs
  refine ⟨levels, ⟨(nearest levels).baseUrl, (nearest levels).mappings⟩, hchain,
    fun levels' hchain' => hchain'.unique hchain, hchain.length_le, ?_, rfl, ?_, ?_⟩
  · rw [load, hs]
    rfl
  · intro hnone
    have hpaths : (nearest levels).paths = none := hnone
    simp [Settings.mappings, hpaths]
  · intro members dir hfirst
    have hpaths : (nearest levels).paths = some (members, dir) := hfirst
    refine ⟨?_, fun m hm captured => ?_⟩
    · simp only [Settings.mappings, hpaths]
      exact List.mergeSort_perm _ _
    · unfold PathMapping.destinations
      rw [Settings.base_of_mem_mappings hpaths hm]

/-- Two configurations that extend each other; the nearer one declares the base directory, the other one
the mappings, and a base directory that does not count. -/
def circle : Disk := .ofTexts [
  ("p/app/tsconfig.json",
    "\x7b\"extends\":\"../base\",\"compilerOptions\":\x7b\"baseUrl\":\"src\"\x7d\x7d"),
  ("p/base.json", "\x7b\"extends\":\"./app/tsconfig.json\",\"compilerOptions\":" ++
    "\x7b\"baseUrl\":\"lib\",\"paths\":\x7b\"$/*\":[\"ui/*\"]\x7d\x7d\x7d")]

theorem circle_nearest :
    ∃ levels, Chain circle extendsLimit (Path.ofString "/p/app/tsconfig.json") levels ∧
      levels.findSome? Level.baseUrl? = some (Path.ofString "/p/app/src") ∧
      ∃ members dir, levels.findSome? Level.paths? = some (members, dir) ∧
        members.filterMap (PathMapping.ofMember? (Path.ofString "/p/app/src")) =
          [⟨"$/", some "", ["ui/*"], Path.ofString "/p/app/src"⟩] := by
  have hload : load circle (Path.ofString "/p/app/tsconfig.json") =
      some ⟨some (Path.ofString "/p/app/src"),
        [⟨"$/", some "", ["ui/*"], Path.ofString "/p/app/src"⟩]⟩ :=
    Resolver.load_of_sorted _ _ _ _ (by decide +kernel) (by decide +kernel)
  obtain ⟨hreadable, hnearest⟩ := load_eq_nearest circle (Path.ofString "/p/app/tsconfig.json")
  obtain ⟨v, hv⟩ : ∃ v, Says circle (Path.ofString "/p/app/tsconfig.json") v := by
    by_contra hno
    rw [hreadable.mpr (not_exists.mp hno)] at hload
    cases hload
  obtain ⟨levels, config, hchain, -, -, hconfig, hbase, hempty, hpaths⟩ := hnearest v hv
  obtain rfl := Option.some.inj (hload.symm.trans hconfig)
  refine ⟨levels, hchain, hbase.symm, ?_⟩
  cases hfirst : levels.findSome? Level.paths? with
  | none => cases hempty hfirst
  | some found =>
    obtain ⟨members, dir⟩ := found
    obtain ⟨hperm, -⟩ := hpaths members dir hfirst
    exact ⟨members, dir, rfl, List.perm_singleton.mp hperm.symm⟩

end ProjectConfig

end ComponentRegistry
