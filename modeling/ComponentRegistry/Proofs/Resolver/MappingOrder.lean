import ComponentRegistry.Proofs.Resolver.MappingKeys
import ComponentRegistry.Proofs.Resolver.Memory

/-!
# Which mapping counts

Of the keys that send a specifier to a file, the one without a star is used, or else one with the
longest text before its star, the smallest of several, and within it the first target that stands for
a file (`byMappings_precedence`).  A memory gives the same answer, unless a file has been asked for
before by a spelling that no file can have.
-/

namespace ComponentRegistry

/-! ## Without a memory -/

namespace Resolver

open ProjectConfig

section Direct

variable {d : Disk} {s : Settings} {specifier key : String} {path : Path}

theorem firstAnswer?_direct {α : Type} (ask : α → Id (Option Path)) (questions : List α) :
    firstAnswer? ask questions = questions.findSome? ask := by
  induction questions with
  | nil => rfl
  | cons a questions ih =>
    rw [List.findSome?_cons, ← ih, firstAnswer?]
    cases ask a <;> rfl

theorem firstFile?_direct (d : Disk) (files : List Path) :
    firstFile? (Lookups.direct d) files = files.find? d.isFile := by
  induction files with
  | nil => rfl
  | cons file files ih =>
    rw [List.find?_cons, firstFile?, ih]
    show (if d.isFile file = true then some file else _) = _
    cases d.isFile file <;> rfl

/-- The file that a mapping sends a specifier to. -/
def sent? (d : Disk) (specifier : String) (m : PathMapping) : Option Path :=
  (m.capture? specifier).bind fun captured =>
    (m.destinations captured).findSome? (probe d (Lookups.direct d))

theorem byMappings_direct (d : Disk) (r : Resolver) (specifier : String) :
    byMappings d (Lookups.direct d) r specifier = r.mappings.findSome? (sent? d specifier) := by
  unfold byMappings
  rw [firstAnswer?_direct, findSome?_flatMap]
  congr 1
  funext m
  unfold sent?
  cases m.capture? specifier <;> rfl

/-- The specifier has the form of a key of the settings, and with its text for the star the first of
the key's targets that stands for a file stands for this one. -/
def Sends (d : Disk) (s : Settings) (specifier key : String) (path : Path) : Prop :=
  ∃ members dir items captured, s.paths = some (members, dir) ∧ (key, Json.array items) ∈ members ∧
    PathMapping.Fits specifier key captured ∧
    ∃ earlier target later, items.filterMap Json.string? = earlier ++ target :: later ∧
      (∀ t ∈ earlier, probe d (Lookups.direct d)
        (s.baseUrl.getD dir / PathMapping.fill t captured) = none) ∧
      probe d (Lookups.direct d) (s.baseUrl.getD dir / PathMapping.fill target captured) = some path

theorem sends_iff : Sends d s specifier key path ↔
    ∃ m ∈ s.mappings, m.written = key ∧ sent? d specifier m = some path := by
  constructor
  · rintro ⟨members, dir, items, captured, hpaths, hmem, hfits, earlier, target, later, htargets,
      hearlier, htarget⟩
    obtain ⟨m, hm⟩ : ∃ m, PathMapping.ofMember? (s.baseUrl.getD dir) (key, .array items) = some m :=
      ⟨_, rfl⟩
    obtain ⟨hwritten, -, hmatches⟩ := PathMapping.of_ofMember? hm
    refine ⟨m, Settings.mem_mappings.mpr ⟨members, dir, hpaths, _, hmem, hm⟩, hwritten, ?_⟩
    obtain ⟨items', hitems, rfl⟩ := PathMapping.ofMember?_eq_some_iff.mp hm
    cases hitems
    unfold sent? PathMapping.destinations
    rw [PathMapping.capture?_eq_some_iff.mpr ((hmatches specifier captured).mpr hfits),
      Option.bind_some, List.findSome?_map, List.findSome?_eq_some_iff]
    exact ⟨earlier, target, later, htargets, htarget, hearlier⟩
  · rintro ⟨m, hm, rfl, hsent⟩
    obtain ⟨members, dir, hpaths, ⟨key, v⟩, hmem, hread⟩ := Settings.mem_mappings.mp hm
    obtain ⟨hwritten, -, hmatches⟩ := PathMapping.of_ofMember? hread
    obtain ⟨items, rfl, hmapping⟩ := PathMapping.ofMember?_eq_some_iff.mp hread
    obtain ⟨captured, hcapture, hfirst⟩ := Option.bind_eq_some_iff.mp hsent
    have hfits := (hmatches specifier captured).mp (PathMapping.capture?_eq_some_iff.mp hcapture)
    unfold PathMapping.destinations at hfirst
    rw [List.findSome?_map, List.findSome?_eq_some_iff, hmapping] at hfirst
    obtain ⟨earlier, target, later, htargets, htarget, hearlier⟩ := hfirst
    rw [hwritten]
    exact ⟨members, dir, items, captured, hpaths, hmem, hfits, earlier, target, later, htargets,
      hearlier, htarget⟩

/-- What a mapping that sends a specifier has of its key, which the specifier has the form of. -/
theorem of_sent? {m : PathMapping} (hm : m ∈ s.mappings) (hsent : sent? d specifier m = some path) :
    m.weight = Text.byteLength (PathMapping.stem m.written) ∧
      ∃ captured, PathMapping.Fits specifier m.written captured := by
  obtain ⟨members, dir, -, ⟨key, v⟩, -, hread⟩ := Settings.mem_mappings.mp hm
  obtain ⟨rfl, hweight, hmatches⟩ := PathMapping.of_ofMember? hread
  obtain ⟨captured, hcapture, -⟩ := Option.bind_eq_some_iff.mp hsent
  exact ⟨hweight, captured,
    (hmatches specifier captured).mp (PathMapping.capture?_eq_some_iff.mp hcapture)⟩

/-- The key that counts is used. -/
theorem of_findSome? (hs : s.Sorted) (h : s.mappings.findSome? (sent? d specifier) = some path) :
    ∃ key, Sends d s specifier key path ∧
      ∀ key' path', Sends d s specifier key' path' → key' ≠ key → PathMapping.Outranks key key' := by
  obtain ⟨before, m, after, hmappings, hsent, hbefore⟩ := List.findSome?_eq_some_iff.mp h
  have hm : m ∈ s.mappings := by simp [hmappings]
  refine ⟨m.written, sends_iff.mpr ⟨m, hm, rfl, hsent⟩, fun key' path' hsends hne => ?_⟩
  obtain ⟨m', hm', rfl, hsent'⟩ := sends_iff.mp hsends
  have hafter : m' ∈ after := by
    rw [hmappings] at hm'
    rcases List.mem_append.mp hm' with hmem | hmem
    · rw [hbefore m' hmem] at hsent'
      cases hsent'
    · exact (List.mem_cons.mp hmem).resolve_left fun heq => hne (heq ▸ rfl)
  have hstands := hs.pairwise
  rw [hmappings] at hstands
  have hfirst := List.rel_of_pairwise_cons (List.pairwise_append.mp hstands).2.1 hafter
  obtain ⟨hweight, captured, hfits⟩ := of_sent? hm hsent
  obtain ⟨hweight', captured', hfits'⟩ := of_sent? hm' hsent'
  rw [hweight, hweight'] at hfirst
  exact PathMapping.outranks_of_stem hfits hfits' hfirst

/-- A key sends a specifier to one file. -/
theorem Sends.unique (hs : s.Sorted) {path' : Path} (h : Sends d s specifier key path)
    (h' : Sends d s specifier key path') : path = path' := by
  obtain ⟨m, hm, hkey, hsent⟩ := sends_iff.mp h
  obtain ⟨m', hm', hkey', hsent'⟩ := sends_iff.mp h'
  obtain rfl := List.inj_on_of_nodup_map hs.nodup hm hm' (hkey.trans hkey'.symm)
  exact Option.some.inj (hsent.symm.trans hsent')

theorem Sends.fits (h : Sends d s specifier key path) :
    ∃ captured, PathMapping.Fits specifier key captured := by
  obtain ⟨-, -, -, captured, -, -, hfits, -⟩ := h
  exact ⟨captured, hfits⟩

end Direct

/-! ## With a memory -/

section Remembered

variable {d : Disk} {c : Cache} {path : Path}

/-- What is asked for until a file is found. -/
def tried (d : Disk) : List Path → List Path
  | [] => []
  | file :: files => if d.isFile file then [file] else file :: tried d files

/-- With a memory, the first file is asked for until the memory has or gives the answer that it is
there. -/
theorem firstFile?_run (d : Disk) (file : Path) (files : List Path) (c : Cache) :
    (firstFile? (Cache.lookups d) (file :: files) c).1 =
      if (Cache.isFile d file c).1 then some file
      else (firstFile? (Cache.lookups d) files (Cache.isFile d file c).2).1 := by
  show ((if (Cache.isFile d file c).1 = true then pure (some file)
    else firstFile? (Cache.lookups d) files : StateM Cache (Option Path)) (Cache.isFile d file c).2).1 = _
  split_ifs <;> rfl

/-- What is remembered as missing is not found. -/
theorem firstFile?_ne_of_missing {files : List Path} (h : c.file? path.components = some false) :
    (firstFile? (Cache.lookups d) files c).1 ≠ some path := by
  induction files generalizing c with
  | nil => nofun
  | cons file files ih =>
    obtain ⟨hanswer, hafter⟩ := isFile_eq d file c
    rw [firstFile?_run]
    split_ifs with hfound
    · rintro ⟨⟩
      rw [hanswer, h] at hfound
      cases hfound
    · refine ih ?_
      rw [hafter]
      split_ifs with hkey
      · rw [← hkey, h, Option.getD_some]
      · exact h

/-- **A memory finds the first file exactly if, up to it, it answers as the disk does.** -/
theorem firstFile?_remembered_iff (d : Disk) (files : List Path) (c : Cache) :
    (firstFile? (Cache.lookups d) files c).1 = files.find? d.isFile ↔
      ((tried d files).mapM (Cache.isFile d) c).1 = (tried d files).map d.isFile := by
  induction files generalizing c with
  | nil => exact ⟨fun _ => rfl, fun _ => rfl⟩
  | cons file files ih =>
    have hrun : ∀ paths : List Path, ((file :: paths).mapM (Cache.isFile d) c).1 =
        (Cache.isFile d file c).1 :: (paths.mapM (Cache.isFile d) (Cache.isFile d file c).2).1 := by
      intro paths
      rw [List.mapM_cons]
      rfl
    rw [firstFile?_run, tried]
    by_cases hfile : d.isFile file = true
    · rw [if_pos hfile, hrun, List.find?_cons_of_pos hfile, List.map_singleton, hfile]
      cases hanswer : (Cache.isFile d file c).1 with
      | true => exact ⟨fun _ => rfl, fun _ => rfl⟩
      | false =>
        -- the file is taken for missing, whatever comes later
        have hmissing : (Cache.isFile d file c).2.file? file.components = some false := by
          obtain ⟨hgiven, hafter⟩ := isFile_eq d file c
          rw [hafter, if_pos rfl, ← hgiven, hanswer]
        exact ⟨fun heq => absurd heq (firstFile?_ne_of_missing hmissing), fun heq => by cases heq⟩
    · have hnone : d.isFile file = false := by simpa using hfile
      rw [if_neg hfile, hrun, List.find?_cons_of_neg hfile, List.map_cons, hnone, List.cons_eq_cons,
        ← ih]
      cases hanswer : (Cache.isFile d file c).1 with
      | true =>
        refine ⟨fun heq => absurd (List.find?_some heq.symm) hfile, fun heq => by cases heq.1⟩
      | false => simp

end Remembered

/-! ## Precedence -/

/-- **Which mapping counts.**  Of the keys that send a specifier to a file, the one that counts is
used, whatever order they are written in, and there is no answer if no key sends it to one.  A
resolver with a memory gives this answer exactly if all that it remembers of the files that it asks
for is right, and if those of them that are there are asked for by spellings that a file can have. -/
theorem byMappings_precedence {d : Disk} {file : Path} {s : Settings}
    (h : settings? d extendsLimit file = some s) (specifier : String) :
    (∀ path, byMappings d (Lookups.direct d) ⟨load d file⟩ specifier = some path ↔
      ∃ key, Sends d s specifier key path ∧ ∀ key' path', Sends d s specifier key' path' →
        key' ≠ key → PathMapping.Outranks key key') ∧
    (byMappings d (Lookups.direct d) ⟨load d file⟩ specifier = none ↔
      ∀ key path, ¬ Sends d s specifier key path) ∧
    ∀ c, (byMappings d (Cache.lookups d) ⟨load d file⟩ specifier c).1 =
        byMappings d (Lookups.direct d) ⟨load d file⟩ specifier ↔
      (∀ p ∈ tried d (offered d ⟨load d file⟩ specifier), ∀ answer,
          c.file? p.components = some answer → answer = d.isFile p) ∧
        SpelledAsFiles d (tried d (offered d ⟨load d file⟩ specifier)) := by
  have hs : s.Sorted := sorted_of_settings? h
  have hmappings : mappings ⟨load d file⟩ = s.mappings := by
    unfold load mappings
    rw [h]
    rfl
  have hnone : byMappings d (Lookups.direct d) ⟨load d file⟩ specifier = none ↔
      ∀ key path, ¬ Sends d s specifier key path := by
    rw [byMappings_direct, hmappings, List.findSome?_eq_none_iff]
    constructor
    · intro hall key path hsends
      obtain ⟨m, hm, -, hsent⟩ := sends_iff.mp hsends
      rw [hall m hm] at hsent
      cases hsent
    · intro hno m hm
      cases hsent : sent? d specifier m with
      | none => rfl
      | some path => exact absurd (sends_iff.mpr ⟨m, hm, rfl, hsent⟩) (hno m.written path)
  refine ⟨fun path => ⟨fun hpath => ?_, ?_⟩, hnone, fun c => ?_⟩
  · rw [byMappings_direct, hmappings] at hpath
    exact of_findSome? hs hpath
  · rintro ⟨key, hsends, hcounts⟩
    cases hanswer : byMappings d (Lookups.direct d) ⟨load d file⟩ specifier with
    | none => exact absurd hsends (hnone.mp hanswer key path)
    | some path' =>
      rw [byMappings_direct, hmappings] at hanswer
      obtain ⟨key', hsends', hcounts'⟩ := of_findSome? hs hanswer
      by_cases hkey : key' = key
      · subst hkey
        rw [hsends.unique hs hsends']
      · -- each of the two would count before the other
        obtain ⟨captured, hfits⟩ := hsends.fits
        obtain ⟨captured', hfits'⟩ := hsends'.fits
        exact absurd (PathMapping.eq_of_outranks hfits' hfits (hcounts' key path hsends (Ne.symm hkey))
          (hcounts key' path' hsends' hkey)) hkey
  · rw [byMappings_eq, byMappings_eq, firstFile?_direct, firstFile?_remembered_iff, isFile_all_iff,
      spelledAsFiles_iff]

/-- A library that two keys lead to, one of them for everything. -/
def library : Disk := .ofTexts [
  ("p/tsconfig.json", "\x7b\"compilerOptions\":\x7b\"paths\":\x7b" ++
    "\"*\":[\"x/*\"],\"$/*\":[\"y/*\",\"z/*\"]\x7d\x7d\x7d"),
  ("p/z/card.ts", ""),
  ("p/x/$/card.ts", "")]

/-- The key with the longer text is used, with its second target. -/
theorem library_precedence :
    ∃ s, settings? library extendsLimit (Path.ofString "/p/tsconfig.json") = some s ∧
      Sends library s "$/card" "$/*" (Path.ofString "/p/z/card.ts") ∧
      Sends library s "$/card" "*" (Path.ofString "/p/x/$/card.ts") ∧
      (byMappings library (Cache.lookups library) ⟨load library (Path.ofString "/p/tsconfig.json")⟩
        "$/card" .empty).1 = some (Path.ofString "/p/z/card.ts") := by
  have hload : load library (Path.ofString "/p/tsconfig.json") = some ⟨none,
      [⟨"$/", some "", ["y/*", "z/*"], Path.ofString "/p"⟩,
        ⟨"", some "", ["x/*"], Path.ofString "/p"⟩]⟩ :=
    load_of_sorted _ _ _ _ (by decide +kernel) (by decide +kernel)
  obtain ⟨s, hs, hread⟩ := Option.map_eq_some_iff.mp hload
  obtain ⟨-, hmappings⟩ := ProjectConfig.mk.inj hread
  have hlonger : Sends library s "$/card" "$/*" (Path.ofString "/p/z/card.ts") :=
    sends_iff.mpr ⟨_, hmappings ▸ List.mem_cons_self, by decide +kernel, by decide +kernel⟩
  have hshorter : Sends library s "$/card" "*" (Path.ofString "/p/x/$/card.ts") :=
    sends_iff.mpr ⟨_, hmappings ▸ List.mem_cons_of_mem _ List.mem_cons_self, by decide +kernel,
      by decide +kernel⟩
  obtain ⟨huses, -, hremembered⟩ := byMappings_precedence hs "$/card"
  have hcounts : ∀ key path, Sends library s "$/card" key path → key ≠ "$/*" →
      PathMapping.Outranks "$/*" key := by
    intro key path hsends hne
    obtain ⟨m, hm, rfl, -⟩ := sends_iff.mp hsends
    rw [hmappings] at hm
    rcases List.mem_cons.mp hm with rfl | hm
    · exact absurd (by decide +kernel) hne
    · rw [List.mem_singleton.mp hm]
      decide +kernel
  have hspelled : SpelledAsFiles library (tried library (offered library
      ⟨load library (Path.ofString "/p/tsconfig.json")⟩ "$/card")) := by
    rw [hload]
    exact spelledAsFiles_of_all (by decide +kernel)
  refine ⟨s, hs, hlonger, hshorter, ?_⟩
  rw [(hremembered .empty).mpr ⟨(fun _ _ _ hanswer => by cases hanswer), hspelled⟩]
  exact (huses _).mpr ⟨"$/*", hlonger, hcounts⟩

/-- A mapping that names a module twice, first with a slash behind its name. -/
def slashedTwice : Disk := .ofTexts [
  ("p/tsconfig.json", "\x7b\"compilerOptions\":\x7b\"paths\":\x7b" ++
    "\"b\":[\"a.ts/\",\"a.ts\"]\x7d\x7d\x7d"),
  ("p/a.ts", "")]

/-- For a new resolver the module is missing: there is no file under the first name, which it has asked
for before. -/
theorem slashedTwice_missing :
    ∃ s, settings? slashedTwice extendsLimit (Path.ofString "/p/tsconfig.json") = some s ∧
      Sends slashedTwice s "b" "b" (Path.ofString "/p/a.ts") ∧
      (byMappings slashedTwice (Cache.lookups slashedTwice)
        ⟨load slashedTwice (Path.ofString "/p/tsconfig.json")⟩ "b" .empty).1 = none := by
  have hload : load slashedTwice (Path.ofString "/p/tsconfig.json") = some ⟨none,
      [⟨"b", none, ["a.ts/", "a.ts"], Path.ofString "/p"⟩]⟩ :=
    load_of_sorted _ _ _ _ (by decide +kernel) (by decide +kernel)
  obtain ⟨s, hs, hread⟩ := Option.map_eq_some_iff.mp hload
  obtain ⟨-, hmappings⟩ := ProjectConfig.mk.inj hread
  refine ⟨s, hs, sends_iff.mpr ⟨_, hmappings ▸ List.mem_cons_self, by decide +kernel,
    by decide +kernel⟩, ?_⟩
  rw [hload]
  decide +kernel

end Resolver

end ComponentRegistry
