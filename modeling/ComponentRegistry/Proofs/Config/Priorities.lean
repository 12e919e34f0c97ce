import ComponentRegistry.Proofs.Config.Precedence

/-!
# Priorities and layers

The precedence of settings is written down twice: as the priorities of the sources and as the order in
which the sources are laid over each other.  The settings of a command are those of the last source
that sets them (`field?_load`).  This is the source of the highest priority wherever the command line
has a say; but a file has a higher priority than the environment, and the environment is laid over it
(`load_prefers_iff`).
-/

namespace ComponentRegistry.Config

/-- The fields of settings. -/
inductive Field where
  | name
  | version
  | registryDependencies
  | outputDir
  | basePath
  deriving DecidableEq, Repr

/-- What a field holds. -/
def Field.Value : Field → Type
  | .name => String
  | .version => String
  | .registryDependencies => KeyMap String
  | .outputDir => Path
  | .basePath => String

/-- The value of a field, if it is set. -/
def field? (c : Config) : (f : Field) → Option f.Value
  | .name => c.name
  | .version => c.version
  | .registryDependencies => c.registryDependencies
  | .outputDir => c.outputDir
  | .basePath => c.basePathField

/-- What a source sets a field to. -/
def Source.field? (s : Source) (f : Field) : Option f.Value :=
  if s.isAvailable then s.config.toOption.bind fun c => c.field? f else none

/-- The environment as a source of a command. -/
abbrev environmentSource (env : Environment) : Source := .ofEnvironment environmentStart env

/-- The sources of a command whose configuration file is `file?`, in the order in which they are laid
over each other. -/
def sources (d : Disk) (env : Environment) (flags : Flags) (file? : Option Path) : List Source :=
  (file?.map (Source.ofFile d)).toList ++ [environmentSource env, .ofFlags flags]

variable {d : Disk} {env : Environment} {dir : Path} {flags : Flags} {file? : Option Path}
  {c : Config} {f : Field}

/-! ## What the sources set -/

theorem isFile_of_selected {named? : Option Path} {path : Path}
    (h : Selected d env dir named? (some path)) : d.isFile path = true := by
  cases h with
  | named hfile => exact hfile
  | near hfile => exact hfile
  | user _ _ hfile => exact hfile

theorem field?_ofFile {named? : Option Path} {path : Path}
    (h : Selected d env dir named? (some path)) (hload : loadFile d path = .ok c) (f : Field) :
    (Source.ofFile d path).field? f = c.field? f := by
  have hfile := isFile_of_selected h
  simp [Source.field?, Source.ofFile, Source.ofFileNamed, hfile, hload, Except.toOption]

theorem field?_ofFlags (flags : Flags) (f : Field) : (Source.ofFlags flags).field? f =
    ({ unset with outputDir := flags.output, basePathField := flags.basePath } : Config).field? f :=
  rfl

/-- An environment that sets nothing is no source; it leaves all open. -/
theorem field?_environmentSource (env : Environment) (f : Field) :
    (environmentSource env).field? f = (unset.under env .none).field? f := by
  have hover := overlay_ofEnvironment unset env
  unfold Source.overlay at hover
  unfold Source.field?
  split at hover
  · next havailable =>
    have hconfig : (unset.under env .none) = unset.overlay _ := (Except.ok.inj hover).symm
    rw [if_pos havailable, hconfig, unset_overlay]
    rfl
  · next havailable =>
    rw [if_neg havailable, ← Except.ok.inj hover]
    cases f <;> rfl

/-- The flags go first, then the environment, then the settings under them. -/
theorem field?_under (c : Config) (env : Environment) (flags : Flags) (f : Field) :
    (c.under env flags).field? f =
      ((Source.ofFlags flags).field? f).or (((environmentSource env).field? f).or (c.field? f)) := by
  rw [field?_ofFlags, field?_environmentSource]
  cases f with
  | name => rfl
  | version => rfl
  | registryDependencies => rfl
  | outputDir =>
    show (c.under env flags).outputDir =
      flags.output.or ((unset.under env .none).outputDir.or c.outputDir)
    simp [under, unset, Flags.none]
  | basePath =>
    show (c.under env flags).basePathField =
      flags.basePath.or ((unset.under env .none).basePathField.or c.basePathField)
    simp [under, unset, Flags.none]

/-! ## What a command is given -/

/-- The flags come first, then the environment, and the file last. -/
theorem field?_load (hsel : Selected d env dir flags.config file?)
    (hload : load d env dir flags = .ok c) (f : Field) :
    c.field? f = ((Source.ofFlags flags).field? f).or (((environmentSource env).field? f).or
      (file?.bind fun path => (Source.ofFile d path).field? f)) := by
  rw [load_of_selected hsel] at hload
  cases hfile : selectedSettings d file? with
  | error failure => simp [hfile, Except.bind] at hload
  | ok file =>
    rw [hfile] at hload
    obtain ⟨rfl, -⟩ := validate_eq_ok_iff.mp hload
    rw [field?_under]
    cases file? with
    | none =>
      obtain rfl : unset = file := Except.ok.inj hfile
      cases f <;> rfl
    | some path => rw [Option.bind_some, field?_ofFile hsel hfile]

theorem getLast?_sources (d : Disk) (env : Environment) (flags : Flags) (file? : Option Path)
    (f : Field) : ((sources d env flags file?).filterMap fun s => s.field? f).getLast? =
      ((Source.ofFlags flags).field? f).or (((environmentSource env).field? f).or
        (file?.bind fun path => (Source.ofFile d path).field? f)) := by
  simp only [sources, List.filterMap_append, List.filterMap_cons, List.filterMap_nil]
  cases (Source.ofFlags flags).field? f with
  | some v => cases (environmentSource env).field? f <;> simp
  | none =>
    cases (environmentSource env).field? f with
    | some v => simp
    | none =>
      cases file? with
      | none => rfl
      | some path => cases hfile : (Source.ofFile d path).field? f <;> simp [hfile]

theorem mem_sources {s : Source} : s ∈ sources d env flags file? ↔
    (∃ path, file? = some path ∧ s = .ofFile d path) ∨ s = environmentSource env ∨ s = .ofFlags flags := by
  cases file? <;> simp [sources]

theorem ofFlags_ne_ofFile (flags : Flags) (d : Disk) (path : Path) :
    Source.ofFlags flags ≠ .ofFile d path := by
  intro heq
  have hpriority : 30 = 20 := congrArg Source.priority heq
  omega

/-- No source has a higher priority than the flags. -/
theorem priority_le_ofFlags {s : Source} (hs : s ∈ sources d env flags file?) :
    s.priority ≤ (Source.ofFlags flags).priority := by
  rcases mem_sources.mp hs with ⟨path, -, rfl⟩ | rfl | rfl
  · show 20 ≤ 30
    omega
  · show 10 ≤ 30
    omega
  · exact Nat.le_refl _

/-- **Which source has the say.**  Each field of a command's settings is that of the last source that
sets it: the file, the environment over it, the flags over both.  Of two sources that set a field the
one of the higher priority has the say, if none above it sets the field too; with one exception, which
is a file over which the environment lays another value. -/
theorem load_prefers_iff (hsel : Selected d env dir flags.config file?)
    (hload : load d env dir flags = .ok c) (f : Field) :
    c.field? f = ((sources d env flags file?).filterMap fun s => s.field? f).getLast? ∧
    ∀ lower ∈ sources d env flags file?, ∀ higher ∈ sources d env flags file?,
      lower.priority < higher.priority →
      (lower.field? f).isSome = true → (higher.field? f).isSome = true →
      (∀ other ∈ sources d env flags file?, higher.priority < other.priority →
        other.field? f = none) →
      (c.field? f = higher.field? f ↔
        ((∃ path, higher = .ofFile d path) → lower.field? f = higher.field? f)) := by
  have hfield := field?_load hsel hload f
  refine ⟨hfield.trans (getLast?_sources d env flags file? f).symm, ?_⟩
  intro lower hlower higher hhigher hlt hsets hsets' habove
  rw [hfield]
  have hflags : (Source.ofFlags flags) ∈ sources d env flags file? := mem_sources.mpr (.inr (.inr rfl))
  rcases mem_sources.mp hhigher with ⟨path, rfl, rfl⟩ | rfl | rfl
  · -- over the file stand the flags, and under it the environment
    have hopen : (Source.ofFlags flags).field? f = none :=
      habove _ hflags (show 20 < 30 by omega)
    have henv : lower = environmentSource env := by
      rcases mem_sources.mp hlower with ⟨other, -, rfl⟩ | rfl | rfl
      · exact absurd hlt (show ¬ 20 < 20 by omega)
      · rfl
      · exact absurd hlt (show ¬ 30 < 20 by omega)
    subst henv
    obtain ⟨v, hv⟩ := Option.isSome_iff_exists.mp hsets
    simp [hopen, hv]
  · -- nothing stands under the environment
    rcases mem_sources.mp hlower with ⟨other, -, rfl⟩ | rfl | rfl
    · exact absurd hlt (show ¬ 20 < 10 by omega)
    · exact absurd hlt (show ¬ 10 < 10 by omega)
    · exact absurd hlt (show ¬ 30 < 10 by omega)
  · have hno : ¬ ∃ path, Source.ofFlags flags = .ofFile d path :=
      not_exists.mpr (ofFlags_ne_ofFile flags d)
    obtain ⟨v, hv⟩ := Option.isSome_iff_exists.mp hsets'
    simp [hv, hno]

/-! ### A setting in every place -/

def layeredDisk : Disk := .ofTexts [("/p/regify.json", "\x7b\"basePath\": \"file\"\x7d")]

def layeredEnvironment : Environment := [("REGIFY_BASE_PATH", "variable")]

def layeredFlags : Flags := { Flags.none with basePath := some "flag" }

def layeredDirectory : Path := .ofString "/p"

def layeredFile : Path := layeredDirectory / fileName

theorem selected_layered :
    Selected layeredDisk layeredEnvironment layeredDirectory none (some layeredFile) :=
  .near (by decide +kernel)

theorem field?_layeredFile :
    (Source.ofFile layeredDisk layeredFile).field? .basePath = some "file" :=
  field?_ofFile (c := { unset with basePathField := some "file" }) selected_layered
    (by decide +kernel) .basePath

/-- The flag has the highest priority, and the say. -/
theorem layered_prefers :
    ∃ c, load layeredDisk layeredEnvironment layeredDirectory layeredFlags = .ok c ∧
      (Source.ofFile layeredDisk layeredFile).priority < (Source.ofFlags layeredFlags).priority ∧
      (Source.ofFile layeredDisk layeredFile).field? .basePath = some "file" ∧
      (Source.ofFlags layeredFlags).field? .basePath = some "flag" ∧
      c.field? .basePath = some "flag" := by
  obtain ⟨c, hload⟩ : ∃ c, load layeredDisk layeredEnvironment layeredDirectory layeredFlags = .ok c :=
    ⟨{ unset with basePathField := some "flag" }, by decide +kernel⟩
  have hflag : (Source.ofFlags layeredFlags).field? .basePath = some "flag" := rfl
  have hlt : (Source.ofFile layeredDisk layeredFile).priority <
      (Source.ofFlags layeredFlags).priority := show 20 < 30 by omega
  have hprefers := (load_prefers_iff selected_layered hload .basePath).2
    (.ofFile layeredDisk layeredFile) (mem_sources.mpr (.inl ⟨_, rfl, rfl⟩))
    (.ofFlags layeredFlags) (mem_sources.mpr (.inr (.inr rfl))) hlt
    (by rw [field?_layeredFile]; rfl) (by rw [hflag]; rfl)
  have habove : ∀ other ∈ sources layeredDisk layeredEnvironment layeredFlags (some layeredFile),
      (Source.ofFlags layeredFlags).priority < other.priority → other.field? .basePath = none := by
    intro other hother hover
    exact absurd (priority_le_ofFlags hother) (Nat.not_le_of_lt hover)
  refine ⟨c, hload, hlt, field?_layeredFile, hflag, ((hprefers habove).mpr ?_).trans hflag⟩
  rintro ⟨path, heq⟩
  exact absurd heq (ofFlags_ne_ofFile _ _ path)

/-- Without the flag the file has the highest priority, but the environment has the say. -/
theorem layered_environment_over_file :
    ∃ c, load layeredDisk layeredEnvironment layeredDirectory .none = .ok c ∧
      (environmentSource layeredEnvironment).priority <
        (Source.ofFile layeredDisk layeredFile).priority ∧
      (environmentSource layeredEnvironment).field? .basePath = some "variable" ∧
      (Source.ofFile layeredDisk layeredFile).field? .basePath = some "file" ∧
      (Source.ofFlags .none).field? .basePath = none ∧
      c.field? .basePath = some "variable" ∧
      c.field? .basePath ≠ (Source.ofFile layeredDisk layeredFile).field? .basePath := by
  have hload : load layeredDisk layeredEnvironment layeredDirectory .none =
      .ok { unset with basePathField := some "variable" } := by
    decide +kernel
  refine ⟨_, hload, show 10 < 20 by omega, rfl, field?_layeredFile, rfl, rfl, ?_⟩
  rw [field?_layeredFile]
  exact fun h => absurd (Option.some.inj h) (show ¬ "variable" = "file" by decide)

end ComponentRegistry.Config
