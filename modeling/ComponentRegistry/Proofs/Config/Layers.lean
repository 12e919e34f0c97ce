import ComponentRegistry.Config.Basic
import ComponentRegistry.Proofs.KeyMap
import Mathlib.Data.List.Induction

/-!
# Layers of settings

Settings laid over each other are a monoid, with the settings that leave everything open as its unit
(`overlay_assoc`, `unset_overlay`, `overlay_unset`).  In a pile of layers the last one that sets a field
decides it (`setting_ofLayers`), and so it is with the remote registry of a base name.  As nothing is
set that no layer sets, a pile of sound layers is sound (`fault?_ofLayers`).
-/

namespace ComponentRegistry.Config

variable {a b c : Config} {layers : List Config}

/-! ## Two layers -/

theorem unset_overlay (c : Config) : unset.overlay c = c := by
  obtain ⟨name, version, deps, outputDir, basePath⟩ := c
  cases deps <;> simp [overlay, unset, KeyMap.empty_overlay]

theorem overlay_unset (c : Config) : c.overlay unset = c := by
  simp [overlay, unset]

theorem overlay_assoc (a b c : Config) : (a.overlay b).overlay c = a.overlay (b.overlay c) := by
  obtain ⟨-, -, bDeps, -, -⟩ := b
  obtain ⟨-, -, cDeps, -, -⟩ := c
  cases bDeps <;> cases cDeps <;>
    simp [overlay, Option.or_assoc, KeyMap.overlay_assoc, KeyMap.empty_overlay]

/-- A base name that the upper layer maps is found there. -/
theorem registryUrl?_overlay (a b : Config) (baseName : String) :
    (a.overlay b).registryUrl? baseName =
      (b.registryUrl? baseName).or (a.registryUrl? baseName) := by
  obtain ⟨-, -, aDeps, -, -⟩ := a
  obtain ⟨-, -, bDeps, -, -⟩ := b
  have hempty : (KeyMap.empty : KeyMap String).find? baseName = none := rfl
  cases aDeps <;> cases bDeps <;> simp [overlay, registryUrl?, KeyMap.find?_overlay, hempty]

theorem isSome_deps_overlay (a b : Config) :
    (a.overlay b).registryDependencies.isSome =
      (a.registryDependencies.isSome || b.registryDependencies.isSome) := by
  obtain ⟨-, -, bDeps, -, -⟩ := b
  cases bDeps <;> simp [overlay]

/-! ## Sound settings -/

theorem validate_eq_ok_iff {c checked : Config} :
    c.validate = .ok checked ↔ checked = c ∧ c.fault? = none := by
  cases h : c.fault? <;> simp [validate, h, eq_comm]

theorem validate_eq_error_iff {c : Config} {f : Failure} :
    c.validate = .error f ↔ ∃ reason, c.fault? = some reason ∧ f = .config reason := by
  cases h : c.fault? <;> simp [validate, h, eq_comm]

theorem entryFault?_eq_none_iff {name url : String} : entryFault? name url = none ↔
    Text.isBlankText name = false ∧ Text.isBlankText url = false := by
  unfold entryFault?
  cases Text.isBlankText name <;> cases Text.isBlankText url <;> simp

/-- The settings are sound field by field and binding by binding. -/
theorem fault?_eq_none_iff : c.fault? = none ↔
    (∀ dir, c.outputDir = some dir → dir.isEmpty = false) ∧
    (∀ base, c.basePathField = some base → Text.isBlankText base = false) ∧
    ∀ name url, c.registryUrl? name = some url →
      Text.isBlankText name = false ∧ Text.isBlankText url = false := by
  have hentries : (c.registryDependencies.elim [] KeyMap.entries).findSome?
      (fun e => entryFault? e.1 e.2) = none ↔
        ∀ name url, c.registryUrl? name = some url →
          Text.isBlankText name = false ∧ Text.isBlankText url = false := by
    rw [List.findSome?_eq_none_iff]
    cases hdeps : c.registryDependencies with
    | none => simp [registryUrl?, hdeps]
    | some deps =>
      simp only [registryUrl?, hdeps, Option.elim_some, Option.bind_some, ← KeyMap.mem_entries_iff,
        ← entryFault?_eq_none_iff]
      exact ⟨fun h name url hmem => h (name, url) hmem, fun h e hmem => h e.1 e.2 hmem⟩
  have hdir : (∀ dir, c.outputDir = some dir → dir.isEmpty = false) ↔
      c.outputDir.any Path.isEmpty = false := by
    cases c.outputDir <;> simp
  have hbase : (∀ base, c.basePathField = some base → Text.isBlankText base = false) ↔
      c.basePathField.any Text.isBlankText = false := by
    cases c.basePathField <;> simp
  rw [hdir, hbase, ← hentries]
  unfold fault?
  cases c.outputDir.any Path.isEmpty with
  | true => simp
  | false => cases c.basePathField.any Text.isBlankText <;> simp

theorem fault?_overlay (ha : a.fault? = none) (hb : b.fault? = none) : (a.overlay b).fault? = none := by
  obtain ⟨haDir, haBase, haUrl⟩ := fault?_eq_none_iff.mp ha
  obtain ⟨hbDir, hbBase, hbUrl⟩ := fault?_eq_none_iff.mp hb
  refine fault?_eq_none_iff.mpr ⟨fun dir h => ?_, fun base h => ?_, fun name url h => ?_⟩
  · obtain hdir | ⟨-, hdir⟩ := Option.or_eq_some_iff.mp h
    · exact hbDir dir hdir
    · exact haDir dir hdir
  · obtain hbase | ⟨-, hbase⟩ := Option.or_eq_some_iff.mp h
    · exact hbBase base hbase
    · exact haBase base hbase
  · rw [registryUrl?_overlay] at h
    obtain hurl | ⟨-, hurl⟩ := Option.or_eq_some_iff.mp h
    · exact hbUrl name url hurl
    · exact haUrl name url hurl

/-! ## Any number of layers -/

theorem ofLayers_concat (layers : List Config) (top : Config) :
    ofLayers (layers ++ [top]) = (ofLayers layers).overlay top := by
  simp [ofLayers, List.foldl_append]

/-- What is taken from the upper layer where it is set there is taken from the last layer that sets
it. -/
theorem setting_ofLayers {β : Type} (setting : Config → Option β) (hunset : setting unset = none)
    (hoverlay : ∀ a b, setting (a.overlay b) = (setting b).or (setting a)) (layers : List Config) :
    setting (ofLayers layers) = (layers.filterMap setting).getLast? := by
  induction layers using List.reverseRecOn with
  | nil => exact hunset
  | append_singleton layers top ih =>
    rw [ofLayers_concat, hoverlay, ih, List.filterMap_append, List.getLast?_append]
    cases htop : setting top <;> simp [htop]

theorem registryUrl?_ofLayers (layers : List Config) (baseName : String) :
    (ofLayers layers).registryUrl? baseName =
      (layers.filterMap fun layer => layer.registryUrl? baseName).getLast? :=
  setting_ofLayers (fun layer => layer.registryUrl? baseName) rfl
    (fun a b => registryUrl?_overlay a b baseName) layers

theorem isSome_deps_ofLayers (layers : List Config) :
    (ofLayers layers).registryDependencies.isSome = true ↔
      ∃ layer ∈ layers, layer.registryDependencies.isSome = true := by
  induction layers using List.reverseRecOn with
  | nil => simp [ofLayers, unset]
  | append_singleton layers top ih =>
    rw [ofLayers_concat, isSome_deps_overlay, Bool.or_eq_true, ih]
    simp [or_and_right, exists_or]

theorem fault?_ofLayers (h : ∀ layer ∈ layers, layer.fault? = none) :
    (ofLayers layers).fault? = none := by
  induction layers using List.reverseRecOn with
  | nil => rfl
  | append_singleton layers top ih =>
    rw [ofLayers_concat]
    exact fault?_overlay (ih fun layer hlayer => h layer (List.mem_append_left _ hlayer))
      (h top (by simp))

/-- **Layers of settings are a monoid, and sound layers are sound together.**  Laying over is
associative and open settings are its unit.  Of a pile of layers each field, and the remote registry of
each base name, is that of the last layer that has one; there is a map of registries if some layer has
one; and if every layer passes the check, so does the pile. -/
theorem layers_monoid :
    (∀ a b c : Config, (a.overlay b).overlay c = a.overlay (b.overlay c)) ∧
    (∀ c : Config, unset.overlay c = c ∧ c.overlay unset = c) ∧
    ∀ layers : List Config,
      (ofLayers layers).name = (layers.filterMap Config.name).getLast? ∧
      (ofLayers layers).version = (layers.filterMap Config.version).getLast? ∧
      (ofLayers layers).outputDir = (layers.filterMap Config.outputDir).getLast? ∧
      (ofLayers layers).basePathField = (layers.filterMap Config.basePathField).getLast? ∧
      (∀ baseName, (ofLayers layers).registryUrl? baseName =
        (layers.filterMap fun layer => layer.registryUrl? baseName).getLast?) ∧
      ((ofLayers layers).registryDependencies.isSome = true ↔
        ∃ layer ∈ layers, layer.registryDependencies.isSome = true) ∧
      ((∀ layer ∈ layers, layer.validate = .ok layer) → build layers = .ok (ofLayers layers)) := by
  refine ⟨overlay_assoc, fun c => ⟨unset_overlay c, overlay_unset c⟩, fun layers => ?_⟩
  refine ⟨setting_ofLayers name rfl (fun _ _ => rfl) layers,
    setting_ofLayers version rfl (fun _ _ => rfl) layers,
    setting_ofLayers outputDir rfl (fun _ _ => rfl) layers,
    setting_ofLayers basePathField rfl (fun _ _ => rfl) layers,
    registryUrl?_ofLayers layers, isSome_deps_ofLayers layers, fun hvalid => ?_⟩
  have hsound : (ofLayers layers).fault? = none :=
    fault?_ofLayers fun layer hlayer => (validate_eq_ok_iff.mp (hvalid layer hlayer)).2
  exact validate_eq_ok_iff.mpr ⟨rfl, hsound⟩

/-- The settings of a site, and over them those of a project. -/
def siteLayers : List Config :=
  [{ unset with
      outputDir := some (Path.ofString "public/r")
      registryDependencies :=
        some (.ofList [("icon", "https://a.dev/icon"), ("card", "https://a.dev/card")]) },
    { unset with
      basePathField := some "src"
      registryDependencies := some (.ofList [("card", "https://b.dev/card")]) }]

theorem siteLayers_build :
    (∀ layer ∈ siteLayers, layer.validate = .ok layer) ∧
    build siteLayers = .ok (ofLayers siteLayers) ∧
    (ofLayers siteLayers).outputDir = some (Path.ofString "public/r") ∧
    (ofLayers siteLayers).registryUrl? "card" = some "https://b.dev/card" ∧
    (ofLayers siteLayers).registryUrl? "icon" = some "https://a.dev/icon" := by
  have hvalid : ∀ layer ∈ siteLayers, layer.validate = .ok layer := by
    decide +kernel
  obtain ⟨-, -, hlayers⟩ := layers_monoid
  obtain ⟨-, -, hdir, -, hurl, -, hbuild⟩ := hlayers siteLayers
  refine ⟨hvalid, hbuild hvalid, hdir.trans ?_, (hurl "card").trans ?_, (hurl "icon").trans ?_⟩
  · decide +kernel
  · decide +kernel
  · decide +kernel

end ComponentRegistry.Config
