import ComponentRegistry.Proofs.Disk.Canonical
import ComponentRegistry.Proofs.Resolver.Finding
import ComponentRegistry.Proofs.Resolver.Memory

/-!
# What specifiers are resolved to

What a memory says of a file, the disk has said of it under some spelling of its path (`Truthful`).
So whatever a resolver answers, after any calls, is spelled as a file of the disk is, up to dots and
slashes.  If the spelling that was asked for is one that a file can have, then it leads to the file,
and the answer is the path of the place of the file.  Else the answer is what was asked for, and no
file (`answer_canonical`).
-/

namespace ComponentRegistry.Resolver

variable {d : Disk} {r : Resolver} {c : Cache} {path : Path}

/-! ## What a memory says of files -/

/-- The path is that of a file, up to its spelling. -/
def SpellsFile (d : Disk) (path : Path) : Prop :=
  ∃ p, p.components = path.components ∧ d.isFile p = true

/-- What is remembered of files is what the disk says of a spelling of their path. -/
def Truthful (d : Disk) (c : Cache) : Prop :=
  ∀ e ∈ c.files, ∃ p, p.components = e.1 ∧ d.isFile p = e.2

theorem truthful_empty (d : Disk) : Truthful d .empty := fun _ he => absurd he List.not_mem_nil

theorem Truthful.isFile (h : Truthful d c) (path : Path) :
    ((Cache.isFile d path c).1 = true → SpellsFile d path) ∧
      Truthful d (Cache.isFile d path c).2 := by
  unfold Cache.isFile
  cases hanswer : c.file? path.components with
  | some answer =>
    refine ⟨fun hfound => ?_, h⟩
    obtain ⟨e, he, rfl⟩ := Option.map_eq_some_iff.mp hanswer
    have hkey : e.1 = path.components := by simpa using List.find?_some he
    obtain ⟨p, hp, hfile⟩ := h e (List.mem_of_find?_eq_some he)
    exact ⟨p, hp.trans hkey, hfile.trans hfound⟩
  | none =>
    refine ⟨fun hfound => ⟨path, rfl, hfound⟩, fun e he => ?_⟩
    rcases List.mem_cons.mp he with rfl | he
    · exact ⟨path, rfl, rfl⟩
    · exact h e he

/-- What is answered from a truthful memory, which stays truthful. -/
def truthfully (d : Disk) : Assurance (StateM Cache) where
  Gives Q x := ∀ c, Truthful d c → Q (x c).1 ∧ Truthful d (x c).2
  pure h _ hc := ⟨h, hc⟩
  bind h h' c hc := h' _ (h c hc).1 _ (h c hc).2

theorem gives_isFile (d : Disk) (path : Path) :
    (truthfully d).Gives (fun found => found = true → SpellsFile d path) (Cache.isFile d path) :=
  fun _ hc => hc.isFile path

/-- Package descriptions are remembered apart from files. -/
theorem gives_putPackage (d : Disk) (key : CacheKey) (package : Option Package) :
    (truthfully d).Gives (fun _ => True)
      (modify (fun c => c.putPackage key package) : StateM Cache PUnit) :=
  fun _ hc => ⟨trivial, hc⟩

theorem vouches_cache (d : Disk) : Vouches (truthfully d) (Cache.lookups d) (SpellsFile d) := by
  refine ⟨gives_isFile d, fun file => ?_⟩
  have hget : (truthfully d).Gives (fun _ => True) (get : StateM Cache Cache) :=
    fun _ hc => ⟨trivial, hc⟩
  have hput : ∀ package : Option Package, (truthfully d).Gives (fun _ => True)
      (do modify fun c => c.putPackage file.components package; return package) := fun package =>
    (truthfully d).bind (gives_putPackage d _ package) fun _ _ => (truthfully d).pure trivial
  show (truthfully d).Gives (fun _ => True) (Cache.readPackage d file)
  unfold Cache.readPackage
  refine (truthfully d).bind hget fun c _ => ?_
  cases c.package? file.components with
  | some package => exact hput package
  | none => exact (truthfully d).bind (gives_isFile d file) fun _ _ => hput _

/-! ## After any calls -/

/-- What a resolver remembers after calls. -/
def memory (d : Disk) (r : Resolver) (calls : List Call) : Cache :=
  (resolveAll d (Cache.lookups d) r calls .empty).2

/-- The file that is found for a call after others, as it was asked for. -/
def found? (d : Disk) (r : Resolver) (calls : List Call) (call : Call) : Option Path :=
  (find d (Cache.lookups d) r call.1 call.2 (memory d r calls)).1

/-- The answer to a call after others. -/
def answer? (d : Disk) (r : Resolver) (calls : List Call) (call : Call) : Option Path :=
  (resolve d (Cache.lookups d) r call.1 call.2 (memory d r calls)).1

theorem answer?_eq (d : Disk) (r : Resolver) (calls : List Call) (call : Call) :
    answer? d r calls call =
      (found? d r calls call).map fun path => (d.canonical path).toOption.getD path := rfl

theorem gives_resolve (d : Disk) (r : Resolver) (call : Call) :
    (truthfully d).Gives (fun _ => True) (resolve d (Cache.lookups d) r call.1 call.2) :=
  (truthfully d).bind ((vouches_cache d).find r call.1 call.2) fun _ _ => (truthfully d).pure trivial

theorem truthful_memory (d : Disk) (r : Resolver) (calls : List Call) :
    Truthful d (memory d r calls) := by
  have hall : (truthfully d).Gives (fun _ => True) (resolveAll d (Cache.lookups d) r calls) := by
    unfold resolveAll
    induction calls with
    | nil => exact (truthfully d).pure trivial
    | cons call calls ih =>
      rw [List.mapM_cons]
      exact (truthfully d).bind (gives_resolve d r call) fun _ _ =>
        (truthfully d).bind ih fun _ _ => (truthfully d).pure trivial
  exact (hall .empty (truthful_empty d)).2

/-- What is found is spelled as a file is. -/
theorem spellsFile_of_found? {calls : List Call} {call : Call}
    (h : found? d r calls call = some path) : SpellsFile d path :=
  ((vouches_cache d).find r call.1 call.2 _ (truthful_memory d r calls)).1 path h

/-! ## Paths of files -/

/-- The path of the place of a file: written with one slash before each name, none of which is `.` or
`..`, with no link on the way. -/
structure IsPlaceOfFile (d : Disk) (p : Path) : Prop where
  written : p = Disk.pathOf p.names
  proper : ∀ s ∈ p.names, Disk.Proper s
  standing : Disk.Standing d p.names
  file : ∃ content, d.node? p.names = some (.file content)

/-- The file can be read by this path if it is not too long. -/
theorem IsPlaceOfFile.isFile {p : Path} (h : IsPlaceOfFile d p) (hr : Disk.refusal? p = none) :
    d.isFile p = true := by
  obtain ⟨content, hn⟩ := h.file
  have hl : d.locate p = .ok p.names := by
    rw [h.written] at hr
    rw [h.written, (Disk.of_pathOf h.proper).2]
    exact Disk.locate_pathOf h.standing h.proper hr
  exact Disk.isFile_iff.mpr ⟨p.names, content, hl, hn⟩

theorem isPlaceOfFile_pathOf {l : Location} {content : Content} (hl : d.locate path = .ok l)
    (hn : d.node? l = some (.file content)) : IsPlaceOfFile d (Disk.pathOf l) := by
  have hproper := Disk.proper_of_locate hl
  have hnames : (Disk.pathOf l).names = l := (Disk.of_pathOf hproper).2
  refine ⟨by rw [hnames], ?_, ?_, ?_⟩ <;> rw [hnames]
  · exact hproper
  · exact Disk.standing_of_locate hl
  · exact ⟨content, hn⟩

/-- What is spelled as a file is, by a spelling that no file can have, leads nowhere. -/
theorem SpellsFile.lost (h : SpellsFile d path)
    (hspelling : ¬ (path.EndsInName ∧ Disk.refusal? path = none)) :
    ∃ cause, d.locate path = .error cause := by
  obtain ⟨p, hp, hfile⟩ := h
  cases hl : d.locate path with
  | error cause => exact ⟨cause, rfl⟩
  | ok l =>
    -- the file would stand at the same place
    obtain ⟨l', content, hl', hn⟩ := Disk.isFile_iff.mp hfile
    rw [Disk.locate_of_spelling hp.symm (Disk.spelling_of_isFile hfile) hl] at hl'
    obtain rfl := Except.ok.inj hl'
    exact absurd (Disk.spelling_of_isFile (Disk.isFile_iff.mpr ⟨l, content, hl, hn⟩)) hspelling

/-! ## Answers -/

/-- A call, after others, finds what stands at a place. -/
def Designates (d : Disk) (r : Resolver) (calls : List Call) (call : Call) (l : Location) : Prop :=
  ∃ path, found? d r calls call = some path ∧ d.locate path = .ok l

theorem Designates.answer?_eq {calls : List Call} {call : Call} {l : Location}
    (h : Designates d r calls call l) : answer? d r calls call = some (Disk.pathOf l) := by
  obtain ⟨path, hfound, hl⟩ := h
  rw [Resolver.answer?_eq, hfound]
  simp [Disk.canonical, hl, Except.map, Except.toOption]

/-- **Answers are canonical paths of files.**  After any calls a specifier is resolved to the path of
the place of a file, or else to a path that was asked for by a spelling that no file can have, though
a file is there under another one.  What designates the same place, for any resolver and after any
calls, is resolved to the same path. -/
theorem answer_canonical (d : Disk) (r : Resolver) (calls : List Call) (call : Call) {p : Path}
    (h : answer? d r calls call = some p) :
    ((IsPlaceOfFile d p ∧ (Disk.refusal? p = none → d.isFile p = true)) ∨
      (¬ (p.EndsInName ∧ Disk.refusal? p = none) ∧ d.isFile p = false ∧ SpellsFile d p)) ∧
    ∀ (r' : Resolver) (calls' : List Call) (call' : Call),
      (∃ l, Designates d r calls call l ∧ Designates d r' calls' call' l) →
        answer? d r' calls' call' = some p := by
  refine ⟨?_, fun r' calls' call' ⟨l, hl, hl'⟩ => ?_⟩
  · obtain ⟨path, hfound, rfl⟩ := Option.map_eq_some_iff.mp (answer?_eq d r calls call ▸ h)
    have hspells := spellsFile_of_found? hfound
    by_cases hspelling : path.EndsInName ∧ Disk.refusal? path = none
    · obtain ⟨q, hq, hfile⟩ := hspells
      obtain ⟨l, content, hl, hn⟩ := Disk.isFile_iff.mp (Disk.isFile_of_spelling hq hspelling hfile)
      have hplace := isPlaceOfFile_pathOf hl hn
      have hcanonical : (d.canonical path).toOption.getD path = Disk.pathOf l := by
        simp [Disk.canonical, hl, Except.map, Except.toOption]
      rw [hcanonical]
      exact .inl ⟨hplace, hplace.isFile⟩
    · obtain ⟨cause, hlost⟩ := hspells.lost hspelling
      have hcanonical : (d.canonical path).toOption.getD path = path := by
        simp [Disk.canonical, hlost, Except.map, Except.toOption]
      rw [hcanonical]
      exact .inr ⟨hspelling, by simp [Disk.isFile, Disk.stat, hlost], hspells⟩
  · rw [hl'.answer?_eq, ← hl.answer?_eq, h]

theorem furnished_canonical :
    answer? furnished ⟨none⟩ furnishedCalls ("./text", Path.ofString "/p/button.ts") =
        some (Path.ofString "/p/text.ts") ∧
      IsPlaceOfFile furnished (Path.ofString "/p/text.ts") ∧
      answer? furnished ⟨none⟩ [] ("../p/./text.ts", Path.ofString "/p/button.ts") =
        some (Path.ofString "/p/text.ts") := by
  have hanswer : answer? furnished ⟨none⟩ furnishedCalls ("./text", Path.ofString "/p/button.ts") =
      some (Path.ofString "/p/text.ts") := by
    decide +kernel
  obtain ⟨hplace, hsame⟩ := answer_canonical furnished ⟨none⟩ furnishedCalls
    ("./text", Path.ofString "/p/button.ts") hanswer
  refine ⟨hanswer, ?_, hsame ⟨none⟩ [] ("../p/./text.ts", Path.ofString "/p/button.ts") ?_⟩
  · rcases hplace with ⟨hplace, -⟩ | ⟨hspelling, -⟩
    · exact hplace
    · exact absurd (by decide +kernel) hspelling
  · exact ⟨Disk.locationOf "p/text.ts",
      ⟨Path.ofString "/p/./text.ts", by decide +kernel, by decide +kernel⟩,
      ⟨Path.ofString "/p/../p/./text.ts", by decide +kernel, by decide +kernel⟩⟩

/-- A package that exports its description, with a slash behind the name. -/
def described : Disk := .ofTexts [
  ("p/button.ts", "import 'kit';"),
  ("p/node_modules/kit/package.json", "\x7b\"exports\":\"./package.json/\"\x7d")]

/-- A new resolver has read the description before it asks for the export, which is no file. -/
theorem described_lost :
    answer? described ⟨none⟩ [] ("kit", Path.ofString "/p/button.ts") =
        some (Path.ofString "/p/node_modules/kit/./package.json/") ∧
      described.isFile (Path.ofString "/p/node_modules/kit/./package.json/") = false ∧
      ¬ IsPlaceOfFile described (Path.ofString "/p/node_modules/kit/./package.json/") := by
  have hfile : described.isFile (Path.ofString "/p/node_modules/kit/./package.json/") = false := by
    decide +kernel
  have hr : Disk.refusal? (Path.ofString "/p/node_modules/kit/./package.json/") = none := by
    decide +kernel
  refine ⟨by decide +kernel, hfile, fun hplace => ?_⟩
  rw [hplace.isFile hr] at hfile
  cases hfile

end ComponentRegistry.Resolver
