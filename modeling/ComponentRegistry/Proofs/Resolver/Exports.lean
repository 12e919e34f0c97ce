import ComponentRegistry.Proofs.Resolver.MappingOrder

/-!
# Modules that packages export

The `exports` of a package lead a requested key to a file: the entry of that key, or else one whose
key has a star for what is missing.  Of several such entries that lead to a file the one with the
smallest key is used (`exports_precedence`).  Whether that is the key with the longer text before its
star depends on the one character that follows the shorter text (`lt_iff_of_stem`).
-/

namespace ComponentRegistry

/-- What is found first in a list whose keys go up is found under the smallest key. -/
theorem SortedEntries.findSome?_eq_some_iff {α β : Type} {entries : List (String × α)}
    (hs : SortedEntries entries) {f : String × α → Option β} {b : β} :
    entries.findSome? f = some b ↔ ∃ e ∈ entries, f e = some b ∧
      ∀ e' ∈ entries, f e' ≠ none → e'.1 ≠ e.1 → e.1 < e'.1 := by
  rw [List.findSome?_eq_some_iff]
  constructor
  · rintro ⟨before, e, after, rfl, he, hbefore⟩
    refine ⟨e, by simp, he, fun e' he' hfound hne => ?_⟩
    rcases List.mem_append.mp he' with hmem | hmem
    · exact absurd (hbefore e' hmem) hfound
    · rcases List.mem_cons.mp hmem with rfl | hmem
      · exact absurd rfl hne
      · exact List.rel_of_pairwise_cons (List.pairwise_append.mp hs).2.1 hmem
  · rintro ⟨e, he, hfound, hleast⟩
    obtain ⟨before, after, rfl⟩ := List.append_of_mem he
    refine ⟨before, e, after, rfl, hfound, fun e' he' => ?_⟩
    have hlt : e'.1 < e.1 := (List.pairwise_append.mp hs).2.2 e' he' e List.mem_cons_self
    by_contra hother
    have hne : e'.1 ≠ e.1 := fun heq => String.lt_irrefl _ (heq ▸ hlt)
    exact String.lt_asymm hlt (hleast e' (List.mem_append_left _ he') hother hne)

/-- Texts that begin alike are ordered by the first characters that differ. -/
theorem Text.append_cons_lt_iff {a b : Char} (h : a ≠ b) (front xs ys : List Char) :
    front ++ a :: xs < front ++ b :: ys ↔ a < b := by
  induction front with
  | nil => simp [List.cons_lt_cons_iff, h]
  | cons x front ih =>
    rw [List.cons_append, List.cons_append, List.cons_lt_cons_iff, ih]
    simp

namespace Resolver

open PathMapping

variable {d : Disk} {dir : Path} {members : List (String × Json)} {entry : Json}
  {key key' requested : String} {captured captured' : List Char} {path : Path}

/-! ## Keys with a star -/

theorem captureKey?_eq_some_iff : captureKey? key requested = some captured ↔
    '*' ∈ key.toList ∧ Fits requested key captured := by
  unfold captureKey?
  by_cases hstar : '*' ∈ key.toList
  · obtain ⟨before, after, hkey, hbefore⟩ := Text.exists_split hstar
    rw [Text.splitOnce?_eq_some hbefore hkey, Option.bind_some]
    simp only [Option.bind_eq_some_iff, Text.stripStart?_eq_some_iff, Text.stripEnd?_eq_some_iff]
    constructor
    · rintro ⟨rest, hrequested, rfl⟩
      exact ⟨hstar, .pattern hkey hbefore (by rw [hrequested, List.append_assoc])⟩
    · rintro ⟨-, hfree | ⟨hkey', hbefore', hrequested⟩⟩
      · exact absurd hstar hfree
      · obtain ⟨rfl, rfl⟩ := Prod.mk.inj (Option.some.inj
          ((Text.splitOnce?_eq_some hbefore hkey).symm.trans (Text.splitOnce?_eq_some hbefore' hkey')))
        exact ⟨_, by rw [hrequested, List.append_assoc], rfl⟩
  · rw [Text.splitOnce?_eq_none hstar]
    simp [hstar]

/-- Of two keys of one module, the one with the longer text before its star is the smaller one exactly
if the character that follows the shorter text is smaller than the star. -/
theorem lt_iff_of_stem (hstar : '*' ∈ key.toList) (hstar' : '*' ∈ key'.toList)
    (hfits : Fits requested key captured) (hfits' : Fits requested key' captured')
    (hlonger : (stem key').length < (stem key).length) :
    ∃ c rest, stem key = stem key' ++ c :: rest ∧ (key < key' ↔ c < '*') := by
  obtain hfree | ⟨hkey, hbefore, hrequested⟩ := hfits
  · exact absurd hstar hfree
  obtain hfree' | ⟨hkey', hbefore', hrequested'⟩ := hfits'
  · exact absurd hstar' hfree'
  rename_i before after before' after'
  rw [stem_of_split hkey hbefore, stem_of_split hkey' hbefore'] at hlonger ⊢
  -- both texts begin the requested key
  have hprefix : before' <+: before := by
    have hbegins : before <+: requested.toList :=
      ⟨captured ++ after, by rw [hrequested, List.append_assoc]⟩
    have hbegins' : before' <+: requested.toList :=
      ⟨captured' ++ after', by rw [hrequested', List.append_assoc]⟩
    exact List.prefix_of_prefix_length_le hbegins' hbegins hlonger.le
  obtain ⟨behind, rfl⟩ := hprefix
  cases behind with
  | nil => simp at hlonger
  | cons c rest =>
    have hc : c ≠ '*' := fun heq => hbefore (by simp [heq])
    refine ⟨c, rest, rfl, ?_⟩
    rw [String.lt_iff, hkey, hkey', List.append_assoc, List.cons_append]
    exact Text.append_cons_lt_iff hc ..

/-! ## Entries -/

/-- With the captured text for the star, the first target of the entry that is a file is this one. -/
def LeadsTo (d : Disk) (dir : Path) (entry : Json) (captured : List Char) (path : Path) : Prop :=
  ∃ earlier target later, targets entry = earlier ++ target :: later ∧
    (∀ t ∈ earlier, d.isFile (dir / fill t captured) = false) ∧
    d.isFile (dir / fill target captured) = true ∧ dir / fill target captured = path

theorem leadsTo_iff :
    LeadsTo d dir entry captured path ↔ (exportFiles dir entry captured).find? d.isFile = some path := by
  unfold LeadsTo exportFiles
  rw [List.find?_map, Option.map_eq_some_iff]
  simp only [List.find?_eq_some_iff_append, Function.comp_apply]
  constructor
  · rintro ⟨earlier, target, later, htargets, hearlier, hfile, hpath⟩
    exact ⟨target, ⟨hfile, earlier, later, htargets, fun t ht => by simp [hearlier t ht]⟩, hpath⟩
  · rintro ⟨target, ⟨hfile, earlier, later, htargets, hearlier⟩, hpath⟩
    exact ⟨earlier, target, later, htargets, fun t ht => by simpa using hearlier t ht, hfile, hpath⟩

/-- The members have the key, which has a star, the requested key fits it, and its entry leads to the
file. -/
def Exports (d : Disk) (dir : Path) (members : List (String × Json)) (requested key : String)
    (path : Path) : Prop :=
  ∃ entry captured, (key, entry) ∈ members ∧ '*' ∈ key.toList ∧ Fits requested key captured ∧
    LeadsTo d dir entry captured path

/-- The file of one member. -/
def exported? (d : Disk) (dir : Path) (requested : String) (member : String × Json) : Option Path :=
  (captureKey? member.1 requested).bind fun captured =>
    (exportFiles dir member.2 captured).find? d.isFile

theorem exports_iff : Exports d dir members requested key path ↔
    ∃ entry, (key, entry) ∈ members ∧ exported? d dir requested (key, entry) = some path := by
  unfold Exports exported?
  simp only [leadsTo_iff, Option.bind_eq_some_iff, captureKey?_eq_some_iff]
  constructor
  · rintro ⟨entry, captured, hmem, hstar, hfits, hfile⟩
    exact ⟨entry, hmem, captured, ⟨hstar, hfits⟩, hfile⟩
  · rintro ⟨entry, hmem, captured, ⟨hstar, hfits⟩, hfile⟩
    exact ⟨entry, captured, hmem, hstar, hfits, hfile⟩

/-- Of several keys that lead to a file, the smallest is the first one. -/
theorem findSome?_exported_eq_some_iff (hsorted : SortedEntries members) :
    members.findSome? (exported? d dir requested) = some path ↔
      ∃ key, Exports d dir members requested key path ∧
        ∀ key' path', Exports d dir members requested key' path' → key' ≠ key → key < key' := by
  rw [hsorted.findSome?_eq_some_iff]
  constructor
  · rintro ⟨⟨key, entry⟩, hmem, hfound, hleast⟩
    refine ⟨key, exports_iff.mpr ⟨entry, hmem, hfound⟩, fun key' path' hexported hne => ?_⟩
    obtain ⟨entry', hmem', hfound'⟩ := exports_iff.mp hexported
    exact hleast _ hmem' (by simp [hfound']) hne
  · rintro ⟨key, hexported, hleast⟩
    obtain ⟨entry, hmem, hfound⟩ := exports_iff.mp hexported
    refine ⟨_, hmem, hfound, fun member hmember hother hne => ?_⟩
    obtain ⟨path', hfound'⟩ := Option.ne_none_iff_exists'.mp hother
    exact hleast member.1 path' (exports_iff.mpr ⟨member.2, hmember, hfound'⟩) hne

theorem findSome?_exported_eq_none_iff :
    members.findSome? (exported? d dir requested) = none ↔
      ∀ key path, ¬ Exports d dir members requested key path := by
  rw [List.findSome?_eq_none_iff]
  constructor
  · intro hall key path hexported
    obtain ⟨entry, hmem, hfound⟩ := exports_iff.mp hexported
    rw [hall _ hmem] at hfound
    cases hfound
  · intro hno member hmember
    by_contra hother
    obtain ⟨path, hfound⟩ := Option.ne_none_iff_exists'.mp hother
    exact hno member.1 path (exports_iff.mpr ⟨member.2, hmember, hfound⟩)

/-! ## Precedence -/

/-- A module that no key names is looked for under the keys with a star. -/
theorem find?_exportCandidates (hlists : listsModules members = true) {subpath : Option String}
    (habsent : entryValue? (exportKey subpath) members = none) :
    (exportCandidates dir (.object members) subpath).find? d.isFile =
      members.findSome? (exported? d dir (exportKey subpath)) := by
  simp only [exportCandidates, hlists, if_true, habsent, List.find?_flatMap]
  congr 1
  funext ⟨key, entry⟩
  unfold exported?
  cases captureKey? key (exportKey subpath) <;> rfl

theorem sorted_of_load {package : Package} {file : Path} (hload : Package.load d file = .ok package)
    (hexports : package.exports = some (.object members)) : SortedEntries members := by
  unfold Package.load at hload
  cases hread : d.readText file with
  | error cause => rw [hread] at hload; cases hload
  | ok text =>
    simp only [hread, Package.parse] at hload
    cases hparse : Json.parse text with
    | error fault => rw [hparse] at hload; cases hload
    | ok v =>
      rw [hparse] at hload
      cases v with
      | object listed =>
        obtain rfl := Except.ok.inj hload
        exact ((Json.sorted_of_parse hparse).member hexports).members rfl
      | _ => cases hload

/-- **Which exported module counts.**  An entry of the requested key is the only one that counts.
Without one, of the keys with a star that lead to a file the smallest is used: of two keys, the one
with the longer text before its star exactly if what follows the shorter text is smaller than a star.
A resolver with a memory finds the same file exactly if all that it remembers of the files that it asks
for is right, and if those of them that are there are asked for by spellings that a file can have. -/
theorem exports_precedence {d : Disk} {dir : Path} {package : Package}
    {members : List (String × Json)} (hload : Package.load d (dir / Package.fileName) = .ok package)
    (hexports : package.exports = some (.object members)) (hlists : listsModules members = true)
    (subpath : Option String) :
    (∀ entry, (exportKey subpath, entry) ∈ members → ∀ path,
      firstFile? (Lookups.direct d) (exportCandidates dir (.object members) subpath) = some path ↔
        LeadsTo d dir entry [] path) ∧
    ((∀ entry, (exportKey subpath, entry) ∉ members) →
      (∀ path,
        firstFile? (Lookups.direct d) (exportCandidates dir (.object members) subpath) = some path ↔
          ∃ key, Exports d dir members (exportKey subpath) key path ∧
            ∀ key' path', Exports d dir members (exportKey subpath) key' path' → key' ≠ key → key < key') ∧
      (firstFile? (Lookups.direct d) (exportCandidates dir (.object members) subpath) = none ↔
        ∀ key path, ¬ Exports d dir members (exportKey subpath) key path)) ∧
    (∀ key key' path path', Exports d dir members (exportKey subpath) key path →
      Exports d dir members (exportKey subpath) key' path' → (stem key').length < (stem key).length →
        ∃ c rest, stem key = stem key' ++ c :: rest ∧ (key < key' ↔ c < '*')) ∧
    ∀ c, (firstFile? (Cache.lookups d) (exportCandidates dir (.object members) subpath) c).1 =
        firstFile? (Lookups.direct d) (exportCandidates dir (.object members) subpath) ↔
      (∀ p ∈ tried d (exportCandidates dir (.object members) subpath), ∀ answer,
          c.file? p.components = some answer → answer = d.isFile p) ∧
        SpelledAsFiles d (tried d (exportCandidates dir (.object members) subpath)) := by
  have hsorted : SortedEntries members := sorted_of_load hload hexports
  refine ⟨fun entry hentry path => ?_, fun habsent => ?_, ?_, fun c => ?_⟩
  · have hvalue := hsorted.entryValue?_eq_some_iff.mpr hentry
    rw [firstFile?_direct, leadsTo_iff]
    simp only [exportCandidates, hlists, if_true, hvalue]
  · have hnone : entryValue? (exportKey subpath) members = none := by
      cases hvalue : entryValue? (exportKey subpath) members with
      | none => rfl
      | some entry => exact absurd (mem_of_entryValue? hvalue) (habsent entry)
    rw [firstFile?_direct, find?_exportCandidates hlists hnone]
    exact ⟨fun path => findSome?_exported_eq_some_iff hsorted, findSome?_exported_eq_none_iff⟩
  · rintro key key' path path' ⟨-, captured, -, hstar, hfits, -⟩ ⟨-, captured', -, hstar', hfits', -⟩ hlonger
    exact lt_iff_of_stem hstar hstar' hfits hfits' hlonger
  · rw [firstFile?_direct, firstFile?_remembered_iff, isFile_all_iff, spelledAsFiles_iff]

/-- A package that exports all its modules from one directory, and those with two names before them
from another one. -/
def kit : Disk := .ofTexts [
  ("node_modules/kit/package.json",
    "\x7b\"exports\":\x7b\"./ui/*\":\"./a/*\",\"./$/*\":\"./a/*\",\"./*\":\"./b/*\"\x7d\x7d"),
  ("node_modules/kit/a/x.ts", ""),
  ("node_modules/kit/b/ui/x.ts", ""),
  ("node_modules/kit/b/$/x.ts", "")]

def kitDirectory : Path := Path.ofString "/node_modules/kit"

theorem load_kit : ∃ package members, Package.load kit (kitDirectory / Package.fileName) = .ok package ∧
    package.exports = some (.object members) ∧ listsModules members = true ∧
    members.map (fun member => (member.1, targets member.2)) =
      [("./$/*", ["./a/*"]), ("./*", ["./b/*"]), ("./ui/*", ["./a/*"])] := by
  have hread : ((((Package.load kit (kitDirectory / Package.fileName)).toOption.bind
      Package.exports).bind Json.members?).map fun members =>
        (listsModules members, members.map fun member => (member.1, targets member.2))) =
      some (true, [("./$/*", ["./a/*"]), ("./*", ["./b/*"]), ("./ui/*", ["./a/*"])]) := by
    decide +kernel
  obtain ⟨members, hmembers, hlisted⟩ := Option.map_eq_some_iff.mp hread
  obtain ⟨exports, hexports, hobject⟩ := Option.bind_eq_some_iff.mp hmembers
  obtain ⟨package, hpackage, hfield⟩ := Option.bind_eq_some_iff.mp hexports
  obtain ⟨hlists, htargets⟩ := Prod.mk.inj hlisted
  refine ⟨package, members, ?_, ?_, hlists, htargets⟩
  · cases hload : Package.load kit (kitDirectory / Package.fileName) with
    | error failure => rw [hload] at hpackage; cases hpackage
    | ok loaded =>
      rw [hload] at hpackage
      rw [Option.some.inj hpackage]
  · cases exports with
    | object listed =>
      rw [hfield, Option.some.inj hobject]
    | _ => cases hobject

/-- A member with one target exports a module, if that target is a file. -/
theorem exports_of_targets (target : String) (captured : List Char) (hmember : (key, [target]) ∈
    members.map fun member => (member.1, targets member.2))
    (hcapture : captureKey? key requested = some captured)
    (hfile : d.isFile (dir / fill target captured) = true)
    (hpath : dir / fill target captured = path) : Exports d dir members requested key path := by
  obtain ⟨⟨listed, entry⟩, hmem, heq⟩ := List.mem_map.mp hmember
  obtain ⟨rfl, htargets⟩ := Prod.mk.inj heq
  obtain ⟨hstar, hfits⟩ := captureKey?_eq_some_iff.mp hcapture
  exact ⟨entry, captured, hmem, hstar, hfits, [], target, [], htargets, by simp, hfile, hpath⟩

/-- Behind a `$` the key with the longer text counts. -/
theorem kit_precedence :
    ∃ package members, Package.load kit (kitDirectory / Package.fileName) = .ok package ∧
      package.exports = some (.object members) ∧ listsModules members = true ∧
      Exports kit kitDirectory members "./$/x.ts" "./*" (kitDirectory / "./b/$/x.ts") ∧
      firstFile? (Lookups.direct kit)
        (exportCandidates kitDirectory (.object members) (some "$/x.ts")) =
          some (kitDirectory / "./a/x.ts") := by
  obtain ⟨package, members, hload, hexports, hlists, hlisted⟩ := load_kit
  obtain ⟨-, hpatterns, -, -⟩ := exports_precedence hload hexports hlists (some "$/x.ts")
  have hkeys : ∀ member ∈ members, member.1 ∈ ["./$/*", "./*", "./ui/*"] := by
    intro member hmember
    have hmem := List.mem_map_of_mem (f := fun member => (member.1, targets member.2)) hmember
    rw [hlisted] at hmem
    exact List.mem_map_of_mem (f := Prod.fst) hmem
  have hgeneral : Exports kit kitDirectory members "./$/x.ts" "./*" (kitDirectory / "./b/$/x.ts") :=
    exports_of_targets "./b/*" "$/x.ts".toList (by simp [hlisted]) (by decide +kernel)
      (by decide +kernel) (by decide +kernel)
  have hspecial : Exports kit kitDirectory members "./$/x.ts" "./$/*" (kitDirectory / "./a/x.ts") :=
    exports_of_targets "./a/*" "x.ts".toList (by simp [hlisted]) (by decide +kernel)
      (by decide +kernel) (by decide +kernel)
  have habsent : exportKey (some "$/x.ts") ∉ ["./$/*", "./*", "./ui/*"] := by decide
  have hleast : ∀ key ∈ ["./$/*", "./*", "./ui/*"], key ≠ "./$/*" → "./$/*" < key := by decide
  refine ⟨package, members, hload, hexports, hlists, hgeneral, ?_⟩
  refine ((hpatterns fun entry hentry => absurd (hkeys _ hentry) habsent).1 _).mpr
    ⟨"./$/*", hspecial, ?_⟩
  rintro key path ⟨entry, -, hmem, -⟩ hne
  exact hleast key (hkeys _ hmem) hne

/-- Behind a letter the key with the shorter text counts. -/
theorem kit_general :
    ∃ package members, Package.load kit (kitDirectory / Package.fileName) = .ok package ∧
      package.exports = some (.object members) ∧ listsModules members = true ∧
      Exports kit kitDirectory members "./ui/x.ts" "./*" (kitDirectory / "./b/ui/x.ts") ∧
      Exports kit kitDirectory members "./ui/x.ts" "./ui/*" (kitDirectory / "./a/x.ts") ∧
      (stem "./*").length < (stem "./ui/*").length ∧
      (resolve kit (Cache.lookups kit) ⟨none⟩ "kit/ui/x.ts" (Path.ofString "/app.ts") .empty).1 =
        some (Path.ofString "/node_modules/kit/b/ui/x.ts") := by
  obtain ⟨package, members, hload, hexports, hlists, hlisted⟩ := load_kit
  have hlonger : (stem "./*").length < (stem "./ui/*").length := by decide +kernel
  have hanswer : (resolve kit (Cache.lookups kit) ⟨none⟩ "kit/ui/x.ts"
      (Path.ofString "/app.ts") .empty).1 =
        some (Path.ofString "/node_modules/kit/b/ui/x.ts") := by
    decide +kernel
  refine ⟨package, members, hload, hexports, hlists, ?_, ?_, hlonger, hanswer⟩
  · exact exports_of_targets "./b/*" "ui/x.ts".toList (by simp [hlisted])
      (by decide +kernel) (by decide +kernel) (by decide +kernel)
  · exact exports_of_targets "./a/*" "x.ts".toList (by simp [hlisted]) (by decide +kernel)
      (by decide +kernel) (by decide +kernel)

end Resolver

end ComponentRegistry
