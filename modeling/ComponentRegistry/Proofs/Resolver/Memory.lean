import ComponentRegistry.Proofs.Disk.Spelling
import ComponentRegistry.Resolver.Cache

/-!
# Remembered answers

A resolver remembers which files are there and what the package descriptions used last say, under
the components of their paths.  What it remembers is what the disk answered for some spelling of a
path (`Knows`), whatever has been forgotten since.  So its answers are those of a resolver without a
memory (`resolveAll_remembered`), unless a file is asked for by a spelling that no file can have as
well as by one that it has.
-/

namespace ComponentRegistry

namespace Resolver

/-! ## Calls and what they ask -/

/-- A specifier and the file that it stands in. -/
abbrev Call := String × Path

/-- The answers to calls, one after the other. -/
def resolveAll {m : Type → Type} [Monad m] (d : Disk) (look : Lookups m) (r : Resolver)
    (calls : List Call) : m (List (Option Path)) :=
  calls.mapM fun call => resolve d look r call.1 call.2

/-- Look-ups that ask the disk each time, and note which files they were asked for. -/
def noting (d : Disk) : Lookups (StateM (List Path)) where
  isFile path := fun asked => (d.isFile path, asked ++ [path])
  package? file := fun asked => ((Lookups.direct d).package? file, asked ++ [file])

/-- The files that are asked for by calls, as they are spelled. -/
def asked (d : Disk) (r : Resolver) (calls : List Call) : List Path :=
  (resolveAll d (noting d) r calls []).2

/-- What is a file under one of the spellings is asked for by spellings that a file can have: they
end in a name and are not too long. -/
def SpelledAsFiles (d : Disk) (paths : List Path) : Prop :=
  ∀ p ∈ paths, ∀ q ∈ paths, p.components = q.components → d.isFile p = true →
    q.EndsInName ∧ Disk.refusal? q = none

section Spellings

variable {d : Disk} {paths : List Path}

/-- So the disk gives one answer for all spellings of a path, and only so. -/
theorem spelledAsFiles_iff : SpelledAsFiles d paths ↔
    ∀ p ∈ paths, ∀ q ∈ paths, p.components = q.components → d.isFile p = d.isFile q := by
  constructor
  · intro h p hp q hq hpq
    by_cases hfile : d.isFile p = true
    · rw [hfile, Disk.isFile_of_spelling hpq (h p hp q hq hpq hfile) hfile]
    · by_contra hne
      have hfile' : d.isFile q = true := by simpa [hfile] using Ne.symm hne
      exact hfile (Disk.isFile_of_spelling hpq.symm (h q hq p hp hpq.symm hfile') hfile')
  · intro h p hp q hq hpq hfile
    exact Disk.spelling_of_isFile (h p hp q hq hpq ▸ hfile)

theorem spelledAsFiles_of_all (h : ∀ q ∈ paths, q.EndsInName ∧ Disk.refusal? q = none) :
    SpelledAsFiles d paths :=
  fun _ _ q hq _ _ => h q hq

/-- Then also the descriptions of packages do not depend on the spelling. -/
theorem SpelledAsFiles.package_eq (h : SpelledAsFiles d paths) {p q : Path} (hp : p ∈ paths)
    (hq : q ∈ paths) (hpq : p.components = q.components) :
    (Lookups.direct d).package? p = (Lookups.direct d).package? q := by
  have hsame : d.isFile p = d.isFile q := spelledAsFiles_iff.mp h p hp q hq hpq
  show (if d.isFile p then Lookups.readPackage? d p else none) =
    if d.isFile q then Lookups.readPackage? d q else none
  rw [hsame]
  by_cases hfile : d.isFile q = true
  · rw [if_pos hfile, if_pos hfile]
    unfold Lookups.readPackage? Package.load
    rw [Disk.readText_of_spelling hpq (hsame.trans hfile) hfile]
    cases hread : d.readText q with
    | error cause => rfl
    | ok text =>
      unfold Package.parse
      simp only
      cases Json.parse text with
      | error fault => rfl
      | ok v => cases v <;> rfl
  · rw [if_neg hfile, if_neg hfile]

end Spellings

/-! ## What a memory knows -/

/-- All that is remembered is what the disk answers for one of the paths. -/
structure Knows (d : Disk) (paths : List Path) (c : Cache) : Prop where
  files : ∀ e ∈ c.files, ∃ p ∈ paths, p.components = e.1 ∧ d.isFile p = e.2
  packages : ∀ e ∈ c.packages, ∃ p ∈ paths, p.components = e.1 ∧
    (Lookups.direct d).package? p = e.2

section Knows

variable {d : Disk} {paths : List Path} {c : Cache} {path : Path}

theorem knows_empty (d : Disk) (paths : List Path) : Knows d paths .empty :=
  ⟨fun _ he => absurd he List.not_mem_nil, fun _ he => absurd he List.not_mem_nil⟩

theorem Knows.putFile (h : Knows d paths c) (hpath : path ∈ paths) :
    Knows d paths (c.putFile path.components (d.isFile path)) := by
  refine ⟨fun e he => ?_, h.packages⟩
  rcases List.mem_cons.mp he with rfl | he
  · exact ⟨path, hpath, rfl, rfl⟩
  · exact h.files e he

/-- What is forgotten for a new description takes nothing from what is known. -/
theorem Knows.putPackage (h : Knows d paths c) (hpath : path ∈ paths) :
    Knows d paths (c.putPackage path.components ((Lookups.direct d).package? path)) := by
  refine ⟨h.files, fun e he => ?_⟩
  rcases List.mem_cons.mp (List.mem_of_mem_take he) with rfl | he
  · exact ⟨path, hpath, rfl, rfl⟩
  · exact h.packages e (List.mem_filter.mp he).1

theorem Knows.of_file? (h : Knows d paths c) (hs : SpelledAsFiles d paths) (hpath : path ∈ paths)
    {answer : Bool} (hanswer : c.file? path.components = some answer) : answer = d.isFile path := by
  obtain ⟨e, he, rfl⟩ := Option.map_eq_some_iff.mp hanswer
  have hkey : e.1 = path.components := by simpa using List.find?_some he
  obtain ⟨p, hp, hcomponents, hfile⟩ := h.files e (List.mem_of_find?_eq_some he)
  rw [← hfile]
  exact spelledAsFiles_iff.mp hs p hp path hpath (hcomponents.trans hkey)

theorem Knows.of_package? (h : Knows d paths c) (hs : SpelledAsFiles d paths) (hpath : path ∈ paths)
    {package : Option Package} (hpackage : c.package? path.components = some package) :
    package = (Lookups.direct d).package? path := by
  obtain ⟨e, he, rfl⟩ := Option.map_eq_some_iff.mp hpackage
  have hkey : e.1 = path.components := by simpa using List.find?_some he
  obtain ⟨p, hp, hcomponents, hdirect⟩ := h.packages e (List.mem_of_find?_eq_some he)
  rw [← hdirect]
  exact hs.package_eq hp hpath (hcomponents.trans hkey)

/-- One look-up for a file is answered as the disk answers it. -/
theorem Knows.isFile (h : Knows d paths c) (hs : SpelledAsFiles d paths) (hpath : path ∈ paths) :
    (Cache.isFile d path c).1 = d.isFile path ∧ Knows d paths (Cache.isFile d path c).2 := by
  unfold Cache.isFile
  cases hanswer : c.file? path.components with
  | some answer => exact ⟨h.of_file? hs hpath hanswer, h⟩
  | none => exact ⟨rfl, h.putFile hpath⟩

/-- And so is one look-up for a package. -/
theorem Knows.readPackage (h : Knows d paths c) (hs : SpelledAsFiles d paths) (hpath : path ∈ paths) :
    (Cache.readPackage d path c).1 = (Lookups.direct d).package? path ∧
      Knows d paths (Cache.readPackage d path c).2 := by
  cases hpackage : c.package? path.components with
  | some package =>
    have hrun : Cache.readPackage d path c = (package, c.putPackage path.components package) := by
      show (Cache.readPackage d path).run c = pure _
      simp only [Cache.readPackage, StateT.run_bind, StateT.run_get, StateT.run_modify,
        StateT.run_pure, pure_bind, hpackage]
    have hdirect := h.of_package? hs hpath hpackage
    rw [hrun, hdirect]
    exact ⟨rfl, h.putPackage hpath⟩
  | none =>
    have hrun : Cache.readPackage d path c =
        (if (Cache.isFile d path c).1 then Lookups.readPackage? d path else none,
          (Cache.isFile d path c).2.putPackage path.components
            (if (Cache.isFile d path c).1 then Lookups.readPackage? d path else none)) := by
      show (Cache.readPackage d path).run c = pure _
      have hfile : (Cache.isFile d path).run c =
          pure ((Cache.isFile d path c).1, (Cache.isFile d path c).2) := rfl
      simp only [Cache.readPackage, StateT.run_bind, StateT.run_get, StateT.run_modify,
        StateT.run_pure, pure_bind, hpackage, hfile]
    obtain ⟨hanswer, hknows⟩ := h.isFile hs hpath
    rw [hrun, hanswer]
    exact ⟨rfl, hknows.putPackage hpath⟩

end Knows

/-! ## With and without a memory -/

/-- A computation with a memory gives the answer `a` of the one that notes what it asks, as long as
what is asked is among the paths that are known. -/
structure Mirrors (d : Disk) (paths : List Path) {α : Type} (x : StateM Cache α)
    (y : StateM (List Path) α) (a : α) : Prop where
  answer : ∀ before, (y before).1 = a
  notes : ∀ before, before ⊆ (y before).2
  remembered : ∀ before c, (y before).2 ⊆ paths → Knows d paths c →
    (x c).1 = a ∧ Knows d paths (x c).2

section Mirrors

variable {d : Disk} {paths : List Path} {α β : Type}

theorem mirrors_pure (a : α) : Mirrors d paths (pure a) (pure a) a :=
  ⟨fun _ => rfl, fun before => List.Subset.refl before, fun _ _ _ hknows => ⟨rfl, hknows⟩⟩

theorem Mirrors.bind {x : StateM Cache α} {y : StateM (List Path) α} {a : Id α}
    {f : α → StateM Cache β} {g : α → StateM (List Path) β} {k : α → Id β}
    (h : Mirrors d paths x y a) (h' : ∀ a, Mirrors d paths (f a) (g a) (k a)) :
    Mirrors d paths (x >>= f) (y >>= g) (a >>= k) := by
  have hy : ∀ before, (y >>= g) before = g a (y before).2 := fun before =>
    congrArg (fun found => g found (y before).2) (h.answer before)
  refine ⟨fun before => ?_, fun before => ?_, fun before c hsub hknows => ?_⟩
  · rw [hy]
    exact (h' a).answer _
  · rw [hy]
    exact List.Subset.trans (h.notes before) ((h' a).notes _)
  · rw [hy] at hsub
    obtain ⟨hx, hknows'⟩ := h.remembered before c (List.Subset.trans ((h' a).notes _) hsub) hknows
    have hrun : (x >>= f) c = f a (x c).2 := congrArg (fun found => f found (x c).2) hx
    rw [hrun]
    exact (h' a).remembered _ _ hsub hknows'

theorem mirrors_isFile (hs : SpelledAsFiles d paths) (path : Path) :
    Mirrors d paths ((Cache.lookups d).isFile path) ((noting d).isFile path) (d.isFile path) :=
  ⟨fun _ => rfl, fun before => List.subset_append_left before [path],
    fun _ _ hsub hknows => hknows.isFile hs (hsub (by simp [noting]))⟩

theorem mirrors_package? (hs : SpelledAsFiles d paths) (file : Path) :
    Mirrors d paths ((Cache.lookups d).package? file) ((noting d).package? file)
      ((Lookups.direct d).package? file) :=
  ⟨fun _ => rfl, fun before => List.subset_append_left before [file],
    fun _ _ hsub hknows => hknows.readPackage hs (hsub (by simp [noting]))⟩

theorem mirrors_firstAnswer? {ask : α → StateM Cache (Option Path)}
    {ask' : α → StateM (List Path) (Option Path)} {direct : α → Id (Option Path)}
    (hask : ∀ a, Mirrors d paths (ask a) (ask' a) (direct a)) (questions : List α) :
    Mirrors d paths (firstAnswer? ask questions) (firstAnswer? ask' questions)
      (firstAnswer? direct questions) := by
  induction questions with
  | nil => exact mirrors_pure none
  | cons a questions ih =>
    refine (hask a).bind fun found => ?_
    cases found with
    | some path => exact mirrors_pure (some path)
    | none => exact ih

end Mirrors

section Rules

variable {d : Disk} {paths : List Path} (hs : SpelledAsFiles d paths)
include hs

theorem mirrors_firstFile? (files : List Path) :
    Mirrors d paths (firstFile? (Cache.lookups d) files) (firstFile? (noting d) files)
      (firstFile? (Lookups.direct d) files) := by
  induction files with
  | nil => exact mirrors_pure none
  | cons file files ih =>
    refine (mirrors_isFile hs file).bind fun found => ?_
    cases found with
    | true => exact mirrors_pure (some file)
    | false => exact ih

theorem mirrors_probe (path : Path) :
    Mirrors d paths (probe d (Cache.lookups d) path) (probe d (noting d) path)
      (probe d (Lookups.direct d) path) :=
  mirrors_firstFile? hs _

theorem mirrors_inPackage (dir : Path) (subpath : Option String) :
    Mirrors d paths (inPackage d (Cache.lookups d) dir subpath) (inPackage d (noting d) dir subpath)
      (inPackage d (Lookups.direct d) dir subpath) := by
  unfold inPackage
  refine (mirrors_package? hs (dir / Package.fileName)).bind fun package? => ?_
  dsimp only
  refine (mirrors_firstFile? hs _).bind fun found => ?_
  cases found with
  | some path => exact mirrors_pure (some path)
  | none =>
    cases subpath with
    | some below => exact mirrors_probe hs _
    | none => exact mirrors_firstAnswer? (mirrors_probe hs) _

theorem mirrors_byPackage (start : Path) (specifier : String) :
    Mirrors d paths (byPackage d (Cache.lookups d) start specifier)
      (byPackage d (noting d) start specifier) (byPackage d (Lookups.direct d) start specifier) := by
  unfold byPackage
  obtain ⟨name, subpath⟩ := splitSpecifier specifier
  dsimp only
  cases installedAt? d start name with
  | some dir => exact mirrors_inPackage hs dir subpath
  | none => exact mirrors_pure none

theorem mirrors_byBaseUrl (r : Resolver) (specifier : String) :
    Mirrors d paths (byBaseUrl d (Cache.lookups d) r specifier) (byBaseUrl d (noting d) r specifier)
      (byBaseUrl d (Lookups.direct d) r specifier) := by
  unfold byBaseUrl
  cases r.config?.bind ProjectConfig.baseUrl with
  | some base => exact mirrors_probe hs _
  | none => exact mirrors_pure none

theorem mirrors_find (r : Resolver) (specifier : String) (importer : Path) :
    Mirrors d paths (find d (Cache.lookups d) r specifier importer)
      (find d (noting d) r specifier importer) (find d (Lookups.direct d) r specifier importer) := by
  unfold find
  dsimp only
  refine Mirrors.bind (mirrors_firstAnswer? (mirrors_probe hs) _) fun found => ?_
  cases found with
  | some path => exact mirrors_pure (some path)
  | none =>
    dsimp only
    split_ifs
    · exact mirrors_probe hs _
    · refine (mirrors_byPackage hs _ specifier).bind fun found => ?_
      cases found with
      | some path => exact mirrors_pure (some path)
      | none => exact mirrors_byBaseUrl hs r specifier

theorem mirrors_resolve (r : Resolver) (specifier : String) (importer : Path) :
    Mirrors d paths (resolve d (Cache.lookups d) r specifier importer)
      (resolve d (noting d) r specifier importer)
      (resolve d (Lookups.direct d) r specifier importer) :=
  (mirrors_find hs r specifier importer).bind fun _ => mirrors_pure _

theorem mirrors_resolveAll (r : Resolver) (calls : List Call) :
    Mirrors d paths (resolveAll d (Cache.lookups d) r calls) (resolveAll d (noting d) r calls)
      (resolveAll d (Lookups.direct d) r calls) := by
  unfold resolveAll
  induction calls with
  | nil => exact mirrors_pure []
  | cons call calls ih =>
    rw [List.mapM_cons, List.mapM_cons, List.mapM_cons]
    exact (mirrors_resolve hs r call.1 call.2).bind fun _ => ih.bind fun _ => mirrors_pure _

end Rules

/-! ## Look-ups for files -/

/-- A look-up for a file gives the remembered answer, or else the disk's, and that is remembered. -/
theorem isFile_eq (d : Disk) (path : Path) (c : Cache) :
    (Cache.isFile d path c).1 = (c.file? path.components).getD (d.isFile path) ∧
      ∀ key, (Cache.isFile d path c).2.file? key =
        if key = path.components then some ((c.file? path.components).getD (d.isFile path))
        else c.file? key := by
  unfold Cache.isFile
  cases hanswer : c.file? path.components with
  | some answer =>
    refine ⟨rfl, fun key => ?_⟩
    split_ifs with hkey
    · rw [hkey, hanswer, Option.getD_some]
    · rfl
  | none =>
    refine ⟨rfl, fun key => ?_⟩
    unfold Cache.putFile Cache.file?
    split_ifs with hkey
    · simp [hkey]
    · simp [Ne.symm hkey]

/-- Look-ups are answered as the disk answers them, if what was remembered before is right, and if
the disk gives one answer for all spellings of a path; and only then. -/
theorem isFile_all_iff (d : Disk) (paths : List Path) (c : Cache) :
    (paths.mapM (Cache.isFile d) c).1 = paths.map d.isFile ↔
      (∀ p ∈ paths, ∀ answer, c.file? p.components = some answer → answer = d.isFile p) ∧
        ∀ p ∈ paths, ∀ q ∈ paths, p.components = q.components → d.isFile p = d.isFile q := by
  induction paths generalizing c with
  | nil => exact ⟨fun _ => ⟨by simp, by simp⟩, fun _ => rfl⟩
  | cons path paths ih =>
    obtain ⟨hanswer, hafter⟩ := isFile_eq d path c
    have hrun : ((path :: paths).mapM (Cache.isFile d) c).1 =
        (Cache.isFile d path c).1 :: (paths.mapM (Cache.isFile d) (Cache.isFile d path c).2).1 := by
      rw [List.mapM_cons]
      rfl
    rw [hrun, List.map_cons, List.cons_eq_cons, ih, hanswer]
    simp only [hafter]
    generalize hgiven : (c.file? path.components).getD (d.isFile path) = given
    constructor
    · rintro ⟨hright, hothers, hsame⟩
      have hpath : ∀ q ∈ paths, q.components = path.components → d.isFile path = d.isFile q :=
        fun q hq hkey => hright.symm.trans (hothers q hq given (if_pos hkey))
      refine ⟨List.forall_mem_cons.mpr ⟨fun answer hremembered => ?_, fun q hq answer hremembered => ?_⟩,
        List.forall_mem_cons.mpr ⟨List.forall_mem_cons.mpr ⟨fun _ => rfl, fun q hq hkey =>
          hpath q hq hkey.symm⟩, fun p hp => List.forall_mem_cons.mpr ⟨fun hkey =>
          (hpath p hp hkey).symm, hsame p hp⟩⟩⟩
      · rw [hremembered, Option.getD_some] at hgiven
        exact hgiven.trans hright
      · by_cases hkey : q.components = path.components
        · rw [hkey] at hremembered
          rw [hremembered, Option.getD_some] at hgiven
          exact hgiven.trans (hothers q hq given (if_pos hkey))
        · exact hothers q hq answer ((if_neg hkey).trans hremembered)
    · rintro ⟨hremembered, hsame⟩
      have hright : given = d.isFile path := by
        cases hfile : c.file? path.components with
        | none => rw [← hgiven, hfile, Option.getD_none]
        | some answer =>
          rw [← hgiven, hfile, Option.getD_some]
          exact hremembered path (List.mem_cons_self ..) answer hfile
      refine ⟨hright, fun q hq answer hanswer => ?_, fun p hp q hq =>
        hsame p (List.mem_cons_of_mem _ hp) q (List.mem_cons_of_mem _ hq)⟩
      split_ifs at hanswer with hkey
      · rw [← Option.some.inj hanswer, hright]
        exact hsame path (List.mem_cons_self ..) q (List.mem_cons_of_mem _ hq) hkey.symm
      · exact hremembered q (List.mem_cons_of_mem _ hq) answer hanswer

/-- With nothing remembered before, **look-ups for files are answered as the disk answers them
exactly if what is a file is asked for by spellings that a file can have**. -/
theorem isFile_remembered_iff (d : Disk) (paths : List Path) :
    (paths.mapM (Cache.isFile d) .empty).1 = paths.map d.isFile ↔ SpelledAsFiles d paths := by
  rw [spelledAsFiles_iff, isFile_all_iff]
  exact and_iff_right fun p _ answer hanswer => by cases hanswer

/-! ## Answers -/

/-- What one of several calls asks for is among what they all ask for. -/
theorem asked_of_mem {d : Disk} {paths : List Path} (hs : SpelledAsFiles d paths) {r : Resolver}
    {calls : List Call} {before : List Path}
    (hsub : (resolveAll d (noting d) r calls before).2 ⊆ paths) {call : Call} (hcall : call ∈ calls) :
    ∃ before, (resolve d (noting d) r call.1 call.2 before).2 ⊆ paths := by
  induction calls generalizing before with
  | nil => cases hcall
  | cons first calls ih =>
    have hrun : (resolveAll d (noting d) r (first :: calls) before).2 =
        (resolveAll d (noting d) r calls
          (resolve d (noting d) r first.1 first.2 before).2).2 := by
      unfold resolveAll
      rw [List.mapM_cons]
      rfl
    rw [hrun] at hsub
    rcases List.mem_cons.mp hcall with rfl | hcall
    · exact ⟨before, List.Subset.trans ((mirrors_resolveAll hs r calls).notes _) hsub⟩
    · exact ih hsub hcall

/-- Among several calls, each one is answered as the disk answers it, and that leaves the memory
right. -/
theorem Knows.resolve {d : Disk} {paths : List Path} {c : Cache} (h : Knows d paths c)
    (hs : SpelledAsFiles d paths) {r : Resolver} {calls : List Call} {before : List Path}
    (hsub : (resolveAll d (noting d) r calls before).2 ⊆ paths) {call : Call} (hcall : call ∈ calls) :
    (resolve d (Cache.lookups d) r call.1 call.2 c).1 = resolve d (Lookups.direct d) r call.1 call.2 ∧
      Knows d paths (resolve d (Cache.lookups d) r call.1 call.2 c).2 := by
  obtain ⟨before', hbefore⟩ := asked_of_mem hs hsub hcall
  exact (mirrors_resolve hs r call.1 call.2).remembered before' c hbefore h

/-- In a sequence of calls each one has the answer that it has alone. -/
theorem resolve_of_mem {d : Disk} {paths : List Path} (hs : SpelledAsFiles d paths) {r : Resolver}
    {calls : List Call} {before : List Path}
    (hsub : (resolveAll d (noting d) r calls before).2 ⊆ paths) {call : Call} (hcall : call ∈ calls) :
    (resolve d (Cache.lookups d) r call.1 call.2 .empty).1 =
      resolve d (Lookups.direct d) r call.1 call.2 :=
  ((knows_empty d paths).resolve hs hsub hcall).1

/-- **A memory changes no answer**, if what is a file is asked for by spellings that a file can have:
to each call of a sequence the resolver gives the answer that a new one gives to this call alone,
which is the answer of a resolver without a memory. -/
theorem resolveAll_remembered (d : Disk) (r : Resolver) (calls : List Call)
    (h : SpelledAsFiles d (asked d r calls)) :
    (resolveAll d (Cache.lookups d) r calls .empty).1 =
        calls.map (fun call => (resolve d (Cache.lookups d) r call.1 call.2 .empty).1) ∧
      (resolveAll d (Cache.lookups d) r calls .empty).1 =
        calls.map fun call => resolve d (Lookups.direct d) r call.1 call.2 := by
  have hsub : (resolveAll d (noting d) r calls []).2 ⊆ asked d r calls := List.Subset.refl _
  have hremembered : (resolveAll d (Cache.lookups d) r calls .empty).1 =
      resolveAll d (Lookups.direct d) r calls :=
    ((mirrors_resolveAll h r calls).remembered [] .empty hsub (knows_empty d _)).1
  have hdirect : resolveAll d (Lookups.direct d) r calls =
      calls.map fun call => resolve d (Lookups.direct d) r call.1 call.2 := by
    clear hremembered hsub h
    unfold resolveAll
    induction calls with
    | nil => rfl
    | cons call calls ih =>
      rw [List.mapM_cons, ih]
      rfl
  rw [hremembered, hdirect]
  exact ⟨List.map_congr_left fun call hcall => (resolve_of_mem h hsub hcall).symm, rfl⟩

/-- A component with a module beside it, and a package that it uses. -/
def furnished : Disk := .ofTexts [
  ("p/button.ts", "import './text'; import 'react';"),
  ("p/text.ts", ""),
  ("p/node_modules/react/package.json", "\x7b\"main\":\"main.js\"\x7d"),
  ("p/node_modules/react/main.js", "")]

def furnishedCalls : List Call :=
  ["./text", "react", "./text.ts", "react"].map fun specifier =>
    (specifier, Path.ofString "/p/button.ts")

theorem furnished_remembered : SpelledAsFiles furnished (asked furnished ⟨none⟩ furnishedCalls) ∧
    (resolveAll furnished (Cache.lookups furnished) ⟨none⟩ furnishedCalls .empty).1 =
      furnishedCalls.map (fun call =>
        (resolve furnished (Cache.lookups furnished) ⟨none⟩ call.1 call.2 .empty).1) := by
  have hs : SpelledAsFiles furnished (asked furnished ⟨none⟩ furnishedCalls) :=
    spelledAsFiles_of_all (by decide +kernel)
  exact ⟨hs, (resolveAll_remembered furnished ⟨none⟩ furnishedCalls hs).1⟩

/-- That a module is there is remembered also of its path with a slash behind the name, where no file
is. -/
theorem slash_remembered :
    (resolveAll furnished (Cache.lookups furnished) ⟨none⟩
      [("./text.ts", Path.ofString "/p/button.ts"), ("./text.ts/", Path.ofString "/p/button.ts")]
      .empty).1 = [some (Path.ofString "/p/text.ts"), some (Path.ofString "/p/./text.ts/")] ∧
    (resolve furnished (Cache.lookups furnished) ⟨none⟩ "./text.ts/" (Path.ofString "/p/button.ts")
      .empty).1 = none :=
  ⟨by decide +kernel, by decide +kernel⟩

end Resolver

end ComponentRegistry
