import ComponentRegistry.Proofs.Config.Precedence
import ComponentRegistry.Proofs.Json.TypedReading
import ComponentRegistry.Proofs.Path.Joining

/-!
# Settings as text

Settings that are written to a file are read from it again as they were (`pretty_parsed`).  An open
setting is left out of the text, and a setting that the text does not have stays open, so an empty map
of registries is told from none.  The settings are read one after the other in the order in which they
are written (`Sets`), each into the settings that are read before it.
-/

namespace ComponentRegistry.Config

open Json Json.Reader

variable {c next last : Config} {key : String} {settings rest : List (String × Option Json)}

/-! ## Maps of texts -/

/-- An entry of a map of texts, its colon next. -/
def addText (acc : KeyMap String) (key : String) : Json.Reader (KeyMap String) := do
  colon
  return acc.insert key (← stringValue "a string")

theorem collects_texts (acc : KeyMap String) (entries : List (String × String)) :
    Collects addText acc (entries.map fun (k, url) => (k, .string url))
      (entries.foldl (fun m e => m.insert e.1 e.2) acc) := by
  induction entries generalizing acc with
  | nil => exact .nil
  | cons e entries ih =>
    obtain ⟨k, url⟩ := e
    refine .cons (fun level => ?_) (ih (acc.insert k url))
    exact takes_colon (takes_stringValue blanks_space "a string" url).return

/-- A map of texts, as a value. -/
def textsJson (deps : KeyMap String) : Json := .object (deps.entries.map fun (k, url) => (k, .string url))

theorem takes_readTexts (deps : KeyMap String) (level : Nat) :
    Takes readTexts (print level (textsJson deps)) deps never := by
  have hcollects := collects_texts .empty deps.entries
  have hall : deps.entries.foldl (fun m e => m.insert e.1 e.2) .empty = deps :=
    KeyMap.empty_overlay deps
  rw [hall] at hcollects
  unfold readTexts
  exact takes_peekObject (g := []) blanks_nil (takes_object hcollects level)

/-! ## Settings -/

/-- Behind their colons the values of the settings are read into `c`, which becomes `last`; open settings
are passed over. -/
inductive Sets : Config → List (String × Option Json) → Config → Prop where
  | nil {c : Config} : Sets c [] c
  | pass {c last : Config} {key : String} {rest : List (String × Option Json)} :
    Sets c rest last → Sets c ((key, none) :: rest) last
  | set {c next last : Config} {key : String} {v : Json} {rest : List (String × Option Json)} :
    (∀ level, Takes (readField c key) (' ' :: print level v) next never) →
    Sets next rest last → Sets c ((key, some v) :: rest) last

theorem Sets.optional {α : Type} {write : α → Json} {value? : Option α} {u : Option α → Config}
    (hopen : u none = c) (hread : ∀ a, value? = some a → ∀ level,
      Takes (readField c key) (' ' :: print level (write a)) (u (some a)) never)
    (h : Sets (u value?) rest last) : Sets c ((key, value?.map write) :: rest) last := by
  cases value? with
  | none =>
    rw [hopen] at h
    exact .pass h
  | some a => exact .set (hread a rfl) h

/-- A member of an object of settings, its colon next; the first component has the keys so far. -/
def addSetting (acc : List String × Config) (key : String) : Json.Reader (List String × Config) := do
  if acc.1.contains key then failTwice key
  colon
  let c ← readField acc.2 key
  return (if fieldNames.contains key then key :: acc.1 else acc.1, c)

theorem takes_addSetting {seen : List String} {s : List Char} (hnew : key ∉ seen)
    (hknown : key ∈ fieldNames) (h : Takes (readField c key) s next never) :
    Takes (addSetting (seen, c) key) (':' :: s) (key :: seen, next) never := by
  have hadd : addSetting (seen, c) key = (do
      colon
      let c ← readField c key
      return (key :: seen, c)) := by
    simp [addSetting, hnew, hknown]
  rw [hadd]
  exact takes_colon h.return

/-- Settings with different keys are collected. -/
theorem Sets.collects (h : Sets c settings last) : ∀ seen, (settings.map Prod.fst).Nodup →
    (∀ key ∈ settings.map Prod.fst, key ∈ fieldNames ∧ key ∉ seen) →
    ∃ seen', Collects addSetting (seen, c)
      (settings.filterMap fun (key, v) => v.map (Prod.mk key)) (seen', last) := by
  induction h with
  | nil => exact fun seen _ _ => ⟨seen, .nil⟩
  | pass _ ih =>
    intro seen hnodup hkeys
    obtain ⟨-, hnodup⟩ := List.nodup_cons.mp hnodup
    obtain ⟨-, hkeys⟩ := List.forall_mem_cons.mp hkeys
    exact ih seen hnodup hkeys
  | @set c next last key v rest hread _ ih =>
    intro seen hnodup hkeys
    obtain ⟨hnotin, hnodup⟩ := List.nodup_cons.mp hnodup
    obtain ⟨⟨hknown, hnew⟩, hkeys⟩ := List.forall_mem_cons.mp hkeys
    have hrest : ∀ k ∈ rest.map Prod.fst, k ∈ fieldNames ∧ k ∉ key :: seen := by
      intro k hk
      obtain ⟨hk', hkseen⟩ := hkeys k hk
      have hne : k ≠ key := by
        rintro rfl
        exact hnotin hk
      exact ⟨hk', by simp [hne, hkseen]⟩
    obtain ⟨seen', hcollects⟩ := ih (key :: seen) hnodup hrest
    exact ⟨seen', .cons (fun level => takes_addSetting hnew hknown (hread level)) hcollects⟩

/-- The settings with their values, in the order in which they are written. -/
def settingsOf (c : Config) : List (String × Option Json) := [
  ("name", c.name.map .string),
  ("version", c.version.map .string),
  ("registryDependencies", c.registryDependencies.map textsJson),
  ("outputDir", c.outputDir.map fun dir => .string dir.shown),
  ("basePath", c.basePathField.map .string)]

theorem takes_optionalText (expected str : String) (level : Nat) :
    Takes (orNull (stringValue expected)) (' ' :: print level (.string str)) (some str) never :=
  takes_orNull (g := [' ']) blanks_space (by decide) (by decide)
    (takes_stringValue blanks_nil expected str)

theorem takes_optionalTexts (deps : KeyMap String) (level : Nat) :
    Takes (orNull readTexts) (' ' :: print level (textsJson deps)) (some deps) never := by
  have hread := takes_readTexts deps level
  obtain ⟨l, hl⟩ : ∃ l, print level (textsJson deps) = '\x7b' :: l := print_object level _
  rw [hl] at hread ⊢
  exact takes_orNull (g := [' ']) blanks_space (by decide) (by decide) hread

theorem ofString_shown {dir : Path} (h : dir.text?.isSome = true) : Path.ofString dir.shown = dir := by
  obtain ⟨glyphs⟩ := dir
  exact congrArg Path.mk (Text.ofChars_shown h)

/-- **The settings are read one after the other**, and all of them are read. -/
theorem sets_settingsOf (c : Config)
    (htext : ∀ dir, c.outputDir = some dir → dir.text?.isSome = true) :
    Sets unset c.settingsOf c := by
  have hdir : ∀ (c : Config) (dir : Path), dir.text?.isSome = true → ∀ level,
      Takes (readField c "outputDir") (' ' :: print level (.string dir.shown))
        { c with outputDir := some dir } never := by
    intro c dir hdir level
    have hread := takes_optionalText "path string" dir.shown level
    have hset := Takes.return (g := fun dir => { c with outputDir := dir.map Path.ofString }) hread
    rwa [Option.map_some, ofString_shown hdir] at hset
  refine .optional (u := fun a => { unset with name := a }) rfl
    (fun a _ level => (takes_optionalText "a string" a level).return) ?_
  refine .optional (u := fun a => { unset with name := c.name, version := a }) rfl
    (fun a _ level => (takes_optionalText "a string" a level).return) ?_
  refine .optional (u := fun a => { unset with
      name := c.name, version := c.version, registryDependencies := a }) rfl
    (fun a _ level => (takes_optionalTexts a level).return) ?_
  refine .optional (u := fun a => { c with outputDir := a, basePathField := none }) rfl
    (fun a ha level => hdir _ a (htext a ha) level) ?_
  exact .optional (u := fun a => { c with basePathField := a }) rfl
    (fun a _ level => (takes_optionalText "a string" a level).return) .nil

/-! ## Files of settings -/

theorem readAll_pretty (c : Config)
    (htext : ∀ dir, c.outputDir = some dir → dir.text?.isSome = true) :
    readAll read c.pretty = .ok c := by
  have hnodup : (c.settingsOf.map Prod.fst).Nodup := by
    show fieldNames.Nodup
    decide
  have hkeys : ∀ key ∈ c.settingsOf.map Prod.fst, key ∈ fieldNames ∧ key ∉ ([] : List String) :=
    fun key hkey => ⟨hkey, List.not_mem_nil⟩
  obtain ⟨seen, hcollects⟩ := (sets_settingsOf c htext).collects [] hnodup hkeys
  have hobject := (takes_object hcollects 0).return (g := Prod.snd)
  have hread : Takes read (print 0 c.toJson) c never := by
    unfold read
    exact takes_peekObject (g := []) blanks_nil hobject
  refine readAll_of_takes (p := never) ?_
  rwa [pretty, Json.pretty, String.toList_ofList]

/-- **Settings are read back from the file that they are written to**: settings that are sound, and
whose directory is text, are what is parsed of their text. -/
theorem pretty_parsed (c : Config) (path : Path) (hsound : c.validate = .ok c)
    (htext : ∀ dir, c.outputDir = some dir → dir.text?.isSome = true) :
    parse path c.pretty = .ok c :=
  parse_eq_ok_iff.mpr ⟨readAll_pretty c htext, (validate_eq_ok_iff.mp hsound).2⟩

/-- Settings with quotes, line ends and control characters, and with a map that has no entries. -/
def quotedSettings : Config := { unset with
  name := some "the \"kit\"\n\t\x01\\é"
  registryDependencies := some .empty
  outputDir := some (.ofString "./out \"é\"") }

theorem quotedSettings_parsed :
    quotedSettings.validate = .ok quotedSettings ∧
      (∀ dir, quotedSettings.outputDir = some dir → dir.text?.isSome = true) ∧
      parse (.ofString "regify.json") quotedSettings.pretty = .ok quotedSettings := by
  have hsound : quotedSettings.validate = .ok quotedSettings := by decide +kernel
  have htext : ∀ dir, quotedSettings.outputDir = some dir → dir.text?.isSome = true := by
    rintro dir ⟨⟩
    decide +kernel
  exact ⟨hsound, htext, pretty_parsed quotedSettings (.ofString "regify.json") hsound htext⟩

end ComponentRegistry.Config
