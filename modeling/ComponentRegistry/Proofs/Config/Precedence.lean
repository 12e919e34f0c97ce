import ComponentRegistry.Config.Source
import ComponentRegistry.Proofs.Config.Layers
import ComponentRegistry.Proofs.Disk.Places

/-!
# Which settings win

The settings of a command come from one file at most, chosen by place and never by content.  The
environment is laid over that file and the command line over both.  What is chosen has to be sound
on its own, even where everything it says is overridden, and so has the whole.
-/

namespace ComponentRegistry.Config

variable {d : Disk} {env : Environment} {dir : Path} {flags : Flags}

/-- The file whose settings count, for the path that is named on the command line, if one is. -/
inductive Selected (d : Disk) (env : Environment) (dir : Path) :
    Option Path → Option Path → Prop
  | named {path : Path} (hfile : d.isFile (dir.join path) = true) :
      Selected d env dir (some path) (some (dir.join path))
  | near (hfile : d.isFile (dir / fileName) = true) :
      Selected d env dir none (some (dir / fileName))
  | user {home : Path} (hnear : d.isFile (dir / fileName) = false)
      (hhome : env.configHome? = some home)
      (hfile : d.isFile (home / "regify" / fileName) = true) :
      Selected d env dir none (some (home / "regify" / fileName))
  | nothing (hnear : d.isFile (dir / fileName) = false)
      (huser : ∀ home, env.configHome? = some home →
        d.isFile (home / "regify" / fileName) = false) :
      Selected d env dir none none

/-- The settings of the selected file; without a file all of them are open. -/
def selectedSettings (d : Disk) : Option Path → Except Failure Config
  | none => .ok unset
  | some path => loadFile d path

/-- The settings of a file under the variables that are set to some text and under the flags. -/
def under (file : Config) (env : Environment) (flags : Flags) : Config :=
  let given? (name : String) : Option String := (entryValue? name env).filter fun v => v ≠ ""
  { file with
    outputDir :=
      flags.output.or (((given? "REGIFY_OUTPUT_DIR").map Path.ofString).or file.outputDir)
    basePathField := flags.basePath.or ((given? "REGIFY_BASE_PATH").or file.basePathField) }

theorem fileLayer_of_selected {named? file? : Option Path} (h : Selected d env dir named? file?) :
    fileLayer d env dir named? = selectedSettings d file? := by
  cases h with
  | named hfile =>
    simp [fileLayer, Source.ofFile, Source.ofFileNamed, hfile, selectedSettings]
  | near hfile =>
    simp only [fileLayer, findFirst, locations, hfile, List.find?_cons_of_pos, selectedSettings]
    cases loadFile d (dir / fileName) <;> rfl
  | @user home hnear hhome hfile =>
    simp only [fileLayer, findFirst, locations, hnear, hhome, hfile, List.find?_cons_of_neg,
      Option.map_some, Option.toList_some, List.find?_cons_of_pos, selectedSettings,
      not_false_eq_true, Bool.false_eq_true]
    cases loadFile d (home / "regify" / fileName) <;> rfl
  | nothing hnear huser =>
    cases hhome : env.configHome? with
    | none => simp [fileLayer, findFirst, locations, hnear, hhome, selectedSettings, Except.map]
    | some home =>
      simp [fileLayer, findFirst, locations, hnear, hhome, huser home hhome, selectedSettings,
        Except.map]

/-- Something is selected unless a path is named that is no file. -/
theorem selected_or (d : Disk) (env : Environment) (dir : Path) (named? : Option Path) :
    (∃ file?, Selected d env dir named? file?) ∨
      ∃ path, named? = some path ∧ d.isFile (dir.join path) = false := by
  cases named? with
  | some path =>
    cases hfile : d.isFile (dir.join path) with
    | true => exact .inl ⟨_, .named hfile⟩
    | false => exact .inr ⟨path, rfl, hfile⟩
  | none =>
    left
    cases hnear : d.isFile (dir / fileName) with
    | true => exact ⟨_, .near hnear⟩
    | false =>
      cases hhome : env.configHome? with
      | none => exact ⟨_, .nothing hnear fun home h => by simp [hhome] at h⟩
      | some home =>
        cases hfile : d.isFile (home / "regify" / fileName) with
        | true => exact ⟨_, .user hnear hhome hfile⟩
        | false =>
          refine ⟨_, .nothing hnear fun home' h => ?_⟩
          obtain rfl : home = home' := by simpa [hhome] using h
          exact hfile

theorem fileLayer_of_not_isFile {path : Path} (h : d.isFile (dir.join path) = false) :
    fileLayer d env dir (some path) = .error (.configNotFound (dir.join path)) := by
  simp [fileLayer, Source.ofFile, Source.ofFileNamed, h]

/-- The environment settles the two directories, where it says something about them. -/
theorem overlay_ofEnvironment (c : Config) (env : Environment) :
    Source.overlay c (.ofEnvironment environmentStart env) = .ok (c.under env .none) := by
  have hout : env.setting? environmentStart "OUTPUT_DIR" =
      (entryValue? "REGIFY_OUTPUT_DIR" env).filter fun v => v ≠ "" := rfl
  have hbase : env.setting? environmentStart "BASE_PATH" =
      (entryValue? "REGIFY_BASE_PATH" env).filter fun v => v ≠ "" := rfl
  simp only [Source.overlay, Source.ofEnvironment, hout, hbase, under]
  cases (entryValue? "REGIFY_OUTPUT_DIR" env).filter fun v => v ≠ "" <;>
    cases (entryValue? "REGIFY_BASE_PATH" env).filter fun v => v ≠ "" <;>
    simp [overlay, unset, Flags.none, Except.map]

/-- The environment and the flags are laid over the file layer, and the whole is checked. -/
theorem load_eq (d : Disk) (env : Environment) (dir : Path) (flags : Flags) :
    load d env dir flags =
      (fileLayer d env dir flags.config).bind fun file => (file.under env flags).validate := by
  have hflags (c : Config) : Source.overlay (c.under env .none) (.ofFlags flags) =
      .ok (c.under env flags) := by
    simp [Source.overlay, Source.ofFlags, overlay, unset, under, Flags.none, Except.map]
  simp only [load, unset_overlay, overlay_ofEnvironment]
  cases fileLayer d env dir flags.config with
  | error f => rfl
  | ok file => simp [bind, Except.bind, hflags]

theorem parse_eq_ok_iff {path : Path} {text : String} {c : Config} :
    parse path text = .ok c ↔ Json.Reader.readAll read text = .ok c ∧ c.fault? = none := by
  cases hread : Json.Reader.readAll read text with
  | error fault => simp [parse, hread]
  | ok found =>
    cases hfault : found.fault? with
    | none =>
      have hsound : found = c → c.fault? = none := fun h => h ▸ hfault
      simpa [parse, hread, validate, hfault] using hsound
    | some reason =>
      have hfaulty : found = c → ¬c.fault? = none := fun h => by simp [← h, hfault]
      simpa [parse, hread, validate, hfault] using hfaulty

/-- A file has settings if its text describes some that are sound on their own. -/
theorem loadFile_eq_ok_iff {path : Path} {c : Config} :
    loadFile d path = .ok c ↔ d.has path = true ∧ ∃ text, d.readText path = .ok text ∧
      Json.Reader.readAll read text = .ok c ∧ c.fault? = none := by
  cases hhas : d.has path with
  | false => simp [loadFile, hhas]
  | true => cases htext : d.readText path <;> simp [loadFile, hhas, htext, parse_eq_ok_iff]

theorem severity_of_parse {path : Path} {text : String} {f : Failure}
    (h : parse path text = .error f) : f.severity = .critical := by
  unfold parse at h
  split at h
  · cases h
    rfl
  · split at h <;> cases h
    rfl

theorem severity_of_loadFile {path : Path} {f : Failure} (h : loadFile d path = .error f) :
    f.severity = .critical := by
  unfold loadFile at h
  split at h
  · cases h
    rfl
  · split at h
    · cases h
      rfl
    · exact severity_of_parse h

theorem load_of_selected {file? : Option Path} (h : Selected d env dir flags.config file?) :
    load d env dir flags =
      (selectedSettings d file?).bind fun file => (file.under env flags).validate := by
  rw [load_eq, fileLayer_of_selected h]

theorem load_of_not_isFile {path : Path} (hnamed : flags.config = some path)
    (h : d.isFile (dir.join path) = false) :
    load d env dir flags = .error (.configNotFound (dir.join path)) := by
  rw [load_eq, hnamed, fileLayer_of_not_isFile h]
  rfl

theorem load_eq_ok_iff {c : Config} : load d env dir flags = .ok c ↔
    ∃ file? file, Selected d env dir flags.config file? ∧ selectedSettings d file? = .ok file ∧
      c = file.under env flags ∧ c.fault? = none := by
  constructor
  · intro h
    obtain ⟨file?, hsel⟩ | ⟨path, hnamed, hfile⟩ := selected_or d env dir flags.config
    · cases hload : selectedSettings d file? with
      | error f => simp [load_of_selected hsel, hload, Except.bind] at h
      | ok file =>
        rw [load_of_selected hsel, hload] at h
        obtain ⟨rfl, hsound⟩ := validate_eq_ok_iff.1 h
        exact ⟨file?, file, hsel, hload, rfl, hsound⟩
    · simp [load_of_not_isFile hnamed hfile] at h
  · rintro ⟨file?, file, hsel, hload, rfl, hsound⟩
    rw [load_of_selected hsel, hload]
    exact validate_eq_ok_iff.2 ⟨rfl, hsound⟩

theorem load_eq_error_iff {f : Failure} : load d env dir flags = .error f ↔
    (∃ path, flags.config = some path ∧ d.isFile (dir.join path) = false ∧
      f = .configNotFound (dir.join path)) ∨
    (∃ path, Selected d env dir flags.config (some path) ∧ loadFile d path = .error f) ∨
    ∃ file? file reason, Selected d env dir flags.config file? ∧
      selectedSettings d file? = .ok file ∧ (file.under env flags).fault? = some reason ∧
      f = .config reason := by
  constructor
  · intro h
    obtain ⟨file?, hsel⟩ | ⟨path, hnamed, hfile⟩ := selected_or d env dir flags.config
    · cases hload : selectedSettings d file? with
      | error f' =>
        cases file? with
        | none => cases hload
        | some path =>
          obtain rfl : f' = f := by simpa [load_of_selected hsel, hload, Except.bind] using h
          exact .inr (.inl ⟨path, hsel, hload⟩)
      | ok file =>
        rw [load_of_selected hsel, hload] at h
        obtain ⟨reason, hfault, rfl⟩ := validate_eq_error_iff.1 h
        exact .inr (.inr ⟨file?, file, reason, hsel, hload, hfault, rfl⟩)
    · rw [load_of_not_isFile hnamed hfile] at h
      cases h
      exact .inl ⟨path, hnamed, hfile, rfl⟩
  · rintro (⟨path, hnamed, hfile, rfl⟩ | ⟨path, hsel, hload⟩ |
      ⟨file?, file, reason, hsel, hload, hfault, rfl⟩)
    · exact load_of_not_isFile hnamed hfile
    · rw [load_of_selected hsel, selectedSettings, hload]
      rfl
    · rw [load_of_selected hsel, hload]
      exact validate_eq_error_iff.2 ⟨reason, hfault, rfl⟩

theorem severity_of_load {f : Failure} (h : load d env dir flags = .error f) :
    f.severity = .critical := by
  obtain ⟨path, -, -, rfl⟩ | ⟨path, -, hload⟩ | ⟨-, -, reason, -, -, -, rfl⟩ :=
    load_eq_error_iff.1 h
  · rfl
  · exact severity_of_loadFile hload
  · rfl

/-- A broken file counts although a flag overrides what is wrong with it and a farther file is
sound. -/
example :
    let d := Disk.ofTexts
      [("/p/regify.json", "\x7b\"basePath\": \" \"\x7d"), ("/home/regify/regify.json", "\x7b\x7d")]
    let env := [("XDG_CONFIG_HOME", "/home")]
    load d env (Path.ofString "/p") ⟨none, some "src", none⟩ =
      .error (.config "Configuration error: basePath must not be empty (in /p/regify.json)") := by
  decide +kernel

end ComponentRegistry.Config
