import ComponentRegistry.Generate
import ComponentRegistry.Proofs.Disk.Saving

/-!
# Keeping manifests

What becomes of the disk when the manifest of a component is kept.  It is handed back and the disk
stays as it is; or it is saved, and one place has another content; or it is refused, and at most
directories are new (`keeps`).  What is new is the output or a directory above it
(`brought_of_keep`).  Keeping the same manifest again changes nothing (`keep_again`).
-/

namespace ComponentRegistry.Generate

variable {d d' : Disk} {s : Setting} {t : Task} {m : Manifest} {file dir : Path} {text name : String}

/-! ## Writing outputs -/

/-- Write a text to a file whose directories are there. -/
def writeText (d : Disk) (file : Path) (text : String) : Except Failure Unit × Disk :=
  match d.writeFile file (.text text) with
  | .error cause => (.error (.outputWrite file cause), d)
  | .ok written => (.ok (), written)

theorem writeText_again (h : writeText d file text = (.ok (), d')) :
    d.Grows d' ∧ writeText d' file text = (.ok (), d') := by
  unfold writeText at h ⊢
  cases hwrite : d.writeFile file (.text text) with
  | error e => rw [hwrite] at h; cases h
  | ok written =>
    rw [hwrite] at h
    cases h
    obtain ⟨hgrows, hagain⟩ := Disk.writeFile_again hwrite
    exact ⟨hgrows, by rw [hagain]⟩

/-- An output is written when the directories above it are made. -/
theorem writeOutput_eq (d : Disk) (file : Path) (text : String) :
    writeOutput d file text = match file.parent? with
      | none => writeText d file text
      | some above =>
        if above.isEmpty then writeText d file text
        else match d.makeTree above with
          | (.error cause, after) => (.error (.outputWrite file cause), after)
          | (.ok (), ready) => writeText ready file text := by
  unfold writeOutput
  cases file.parent? with
  | none => rfl
  | some above =>
    by_cases hempty : above.isEmpty = true
    · simp only [hempty, if_true]; rfl
    · simp only [if_neg hempty]
      cases d.makeTree above with
      | mk made after => cases made <;> rfl

/-- The directories above a file that may have to be made for it. -/
def aboveOutput (file : Path) : List Path := (file.parent?.map Path.ancestors).getD []

/-- To write an output directories above it are made, and if that succeeds the text is written. -/
theorem writeOutput_steps (d : Disk) (file : Path) (text : String) :
    ∃ ready, d.Makes (aboveOutput file) ready ∧
      ((∃ f, writeOutput d file text = (.error f, ready)) ∨
        writeOutput d file text = writeText ready file text) := by
  rw [writeOutput_eq]
  cases hparent : file.parent? with
  | none => exact ⟨d, .nothing, Or.inr rfl⟩
  | some above =>
    by_cases hempty : above.isEmpty = true
    · simp only [hempty, if_true]
      exact ⟨d, .nothing, Or.inr rfl⟩
    · simp only [if_neg hempty]
      have habove : aboveOutput file = above.ancestors := by rw [aboveOutput, hparent]; rfl
      cases hmake : d.makeTree above with
      | mk made ready =>
        refine ⟨ready, habove ▸ (Disk.of_makeAllFrom hmake).1, ?_⟩
        cases made with
        | error e => exact Or.inl ⟨_, rfl⟩
        | ok u => exact Or.inr rfl

/-- Make the directories above a file where they are missing. -/
def makeAbove (d : Disk) (file : Path) : Except IoFault Unit × Disk :=
  match file.parent? with
  | none => (.ok (), d)
  | some above => if above.isEmpty then (.ok (), d) else d.makeTree above

theorem writeOutput_of_makeAbove {ready : Disk} (h : makeAbove d file = (.ok (), ready)) :
    writeOutput d file text = writeText ready file text := by
  rw [writeOutput_eq]
  unfold makeAbove at h
  cases hparent : file.parent? with
  | none => rw [hparent] at h; cases h; rfl
  | some above =>
    simp only [hparent] at h ⊢
    by_cases hempty : above.isEmpty = true
    · rw [if_pos hempty] at h ⊢
      cases h
      rfl
    · rw [if_neg hempty] at h ⊢
      simp only [h]

/-- Directories that were made are there on every disk that has grown since. -/
theorem makeAbove_again {ready : Disk} (h : makeAbove d file = (.ok (), ready)) (hg : ready.Grows d') :
    makeAbove d' file = (.ok (), d') := by
  unfold makeAbove at h ⊢
  cases hparent : file.parent? with
  | none => rfl
  | some above =>
    simp only [hparent] at h ⊢
    by_cases hempty : above.isEmpty = true
    · rw [if_pos hempty]
    · rw [if_neg hempty] at h ⊢
      obtain ⟨-, hmade⟩ := Disk.of_makeAllFrom h
      exact Disk.makeTree_again (hg.isDirectory (hmade rfl above rfl (by simpa using hempty)))

theorem writeOutput_again (h : writeOutput d file text = (.ok (), d')) :
    d.Grows d' ∧ writeOutput d' file text = (.ok (), d') := by
  rw [writeOutput_eq] at h ⊢
  cases hparent : file.parent? with
  | none => rw [hparent] at h; exact writeText_again h
  | some above =>
    simp only [hparent] at h ⊢
    by_cases hempty : above.isEmpty = true
    · rw [if_pos hempty] at h ⊢
      exact writeText_again h
    · rw [if_neg hempty] at h ⊢
      cases hmake : d.makeTree above with
      | mk made ready =>
        obtain ⟨hmakes, hmade⟩ := Disk.of_makeAllFrom hmake
        cases made with
        | error e => rw [hmake] at h; cases h
        | ok u =>
          simp only [hmake] at h
          obtain ⟨hgrows, hagain⟩ := writeText_again h
          -- the directories are there now, and so is the file
          have hthere := hgrows.isDirectory (hmade rfl above rfl (by simpa using hempty))
          rw [Disk.makeTree_again hthere]
          exact ⟨hmakes.extends.grows.trans hgrows, hagain⟩

/-- What writing an output does: directories are made, and then the file is written. -/
inductive Output (d : Disk) (file : Path) (text : String) : Except Failure Unit → Disk → Prop where
  | written {ready d' : Disk} {place : Location} : d.Extends ready →
    ready.Written d' file (.text text) place → Output d file text (.ok ()) d'
  | refused {f : Failure} {d' : Disk} : d.Extends d' → Output d file text (.error f) d'

theorem writeText_output (h : d.Extends d') :
    Output d file text (writeText d' file text).1 (writeText d' file text).2 := by
  unfold writeText
  cases hwrite : d'.writeFile file (.text text) with
  | error e => exact .refused h
  | ok written =>
    obtain ⟨place, hwritten⟩ := Disk.of_writeFile hwrite
    exact .written h hwritten

theorem writeOutput_output (d : Disk) (file : Path) (text : String) :
    Output d file text (writeOutput d file text).1 (writeOutput d file text).2 := by
  obtain ⟨ready, hmakes, ⟨f, hwrite⟩ | hwrite⟩ := writeOutput_steps d file text
  · rw [hwrite]
    exact .refused hmakes.extends
  · rw [hwrite]
    exact writeText_output hmakes.extends

/-- A node at a place that an output can bring: the file itself, or a directory above it. -/
inductive Brought (after : Disk) (file : Path) (text : String) (l : Location) : Node → Prop where
  | output : after.locate file = .ok l → Brought after file text l (.file (.text text))
  | directory {p : Path} : p ∈ aboveOutput file → after.locate p = .ok l →
    Brought after file text l .directory

theorem Brought.grows {l : Location} {n : Node} (h : Brought d file text l n) (hg : d.Grows d') :
    Brought d' file text l n := by
  cases h with
  | output hl => exact .output (hg.locate hl)
  | directory hp hl => exact .directory hp (hg.locate hl)

theorem brought_of_writeText {l : Location} {n : Node} (hfree : d.node? l = none)
    (hn : (writeText d file text).2.node? l = some n) :
    Brought (writeText d file text).2 file text l n := by
  unfold writeText at hn ⊢
  cases hwrite : d.writeFile file (.text text) with
  | error e => rw [hwrite] at hn; rw [hfree] at hn; cases hn
  | ok written =>
    obtain ⟨place, hwritten⟩ := Disk.of_writeFile hwrite
    rw [hwrite] at hn
    simp only [hwritten.node?] at hn
    by_cases hl : l = place
    · rw [if_pos hl] at hn
      cases hn
      exact .output (hl ▸ hwritten.leads)
    · rw [if_neg hl, hfree] at hn
      cases hn

theorem grows_writeText (d : Disk) (file : Path) (text : String) :
    d.Grows (writeText d file text).2 := by
  unfold writeText
  cases hwrite : d.writeFile file (.text text) with
  | error e => exact .refl d
  | ok written => exact (Disk.writeFile_again hwrite).1

/-- **What is new after an output was written** is the file, or a directory above it. -/
theorem brought_of_writeOutput {l : Location} {n : Node} (hfree : d.node? l = none)
    (hn : (writeOutput d file text).2.node? l = some n) :
    Brought (writeOutput d file text).2 file text l n := by
  obtain ⟨ready, hmakes, ⟨f, hwrite⟩ | hwrite⟩ := writeOutput_steps d file text
  · rw [hwrite] at hn ⊢
    obtain ⟨rfl, p, hp, hleads⟩ := hmakes.fresh hfree hn
    exact .directory hp hleads
  · rw [hwrite] at hn ⊢
    cases hready : ready.node? l with
    | none => exact brought_of_writeText hready hn
    | some m =>
      -- it was a directory before the file was written
      obtain ⟨rfl, p, hp, hleads⟩ := hmakes.fresh hfree hready
      have hgrows := grows_writeText ready file text
      cases (hgrows.directory hready).symm.trans hn
      exact .directory hp (hgrows.locate hleads)

/-! ## Keeping -/

theorem saveManifest_again {path : Path} (h : saveManifest d m dir name = (.ok path, d')) :
    d.Grows d' ∧ saveManifest d' m dir name = (.ok path, d') := by
  simp only [saveManifest] at h ⊢
  cases hw : writeOutput d (dir / name) m.pretty with
  | mk done after =>
    rw [hw] at h
    cases done with
    | error f => cases h
    | ok u =>
      cases h
      obtain ⟨hgrows, hagain⟩ := writeOutput_again hw
      exact ⟨hgrows, by rw [hagain]; rfl⟩

/-- Keeping a manifest that was kept changes nothing. -/
theorem keep_again {g : Generated} (h : keep s t m d = (.ok g, d')) :
    d.Grows d' ∧ g.manifest = m ∧ keep s t m d' = (.ok g, d') := by
  unfold keep at h ⊢
  by_cases hraw : s.rawJson = true
  · rw [if_pos hraw] at h ⊢
    cases h
    exact ⟨.refl d, rfl, rfl⟩
  · rw [if_neg hraw] at h ⊢
    cases hs : saveManifest d m s.outputDir t.outputName with
    | mk saved after =>
      rw [hs] at h
      cases saved with
      | error f => cases h
      | ok path =>
        cases h
        obtain ⟨hgrows, hagain⟩ := saveManifest_again hs
        exact ⟨hgrows, rfl, by rw [hagain]; rfl⟩

/-- The file that the manifest of a component is saved to. -/
def Setting.output (s : Setting) (t : Task) : Path := s.outputDir / t.outputName

/-- What keeping the manifest of a component comes to. -/
inductive Keeps (s : Setting) (t : Task) (m : Manifest) (d : Disk) :
    Except Failure Generated → Disk → Prop where
  | handedBack : s.rawJson = true → Keeps s t m d (.ok ⟨t.file, m, none⟩) d
  | saved {ready d' : Disk} {place : Location} : s.rawJson = false → d.Extends ready →
    ready.Written d' (s.output t) (.text m.pretty) place →
    Keeps s t m d (.ok ⟨t.file, m, some ((s.output t).relative s.dir)⟩) d'
  | refused {f : Failure} {d' : Disk} : s.rawJson = false → d.Extends d' →
    Keeps s t m d (.error f) d'

theorem keeps (s : Setting) (t : Task) (m : Manifest) (d : Disk) :
    Keeps s t m d (keep s t m d).1 (keep s t m d).2 := by
  unfold keep
  by_cases hraw : s.rawJson = true
  · rw [if_pos hraw]
    exact .handedBack hraw
  · rw [if_neg hraw]
    have hout := writeOutput_output d (s.outputDir / t.outputName) m.pretty
    simp only [saveManifest]
    cases hw : writeOutput d (s.outputDir / t.outputName) m.pretty with
    | mk done after =>
      rw [hw] at hout
      cases hout with
      | written hextends hwritten => exact .saved (by simpa using hraw) hextends hwritten
      | refused hextends => exact .refused (by simpa using hraw) hextends

/-- To keep a manifest that is not handed back changes the disk as its output does. -/
theorem disk_keep (hraw : s.rawJson = false) :
    (keep s t m d).2 = (writeOutput d (s.output t) m.pretty).2 := by
  unfold keep Setting.output
  rw [if_neg (by simp [hraw])]
  simp only [saveManifest]

/-- What is new after a manifest was kept is its output, or a directory above that. -/
theorem brought_of_keep {l : Location} {n : Node} (hfree : d.node? l = none)
    (hn : (keep s t m d).2.node? l = some n) :
    s.rawJson = false ∧ Brought (keep s t m d).2 (s.output t) m.pretty l n := by
  cases hraw : s.rawJson with
  | true =>
    rw [keep, if_pos hraw] at hn
    rw [hfree] at hn
    cases hn
  | false =>
    rw [disk_keep hraw] at hn ⊢
    exact ⟨rfl, brought_of_writeOutput hfree hn⟩

/-- What is told of a manifest that was kept. -/
def told (s : Setting) (t : Task) (m : Manifest) : Generated :=
  ⟨t.file, m, if s.rawJson then none else some ((s.output t).relative s.dir)⟩

theorem keep_of_rawJson (h : s.rawJson = true) : keep s t m d = (.ok (told s t m), d) := by
  unfold keep told
  rw [if_pos h, if_pos h]

/-- Where the file of an output can be written the manifest is saved. -/
theorem keep_of_writable {ready : Disk} {place : Location} (hraw : s.rawJson = false)
    (hmade : makeAbove d (s.output t) = (.ok (), ready)) (hw : ready.Writable (s.output t) place) :
    keep s t m d = (.ok (told s t m), ready.put place (.file (.text m.pretty))) := by
  have hwrite : writeOutput d (s.output t) m.pretty =
      (.ok (), ready.put place (.file (.text m.pretty))) := by
    rw [writeOutput_of_makeAbove hmade, writeText, hw.writeFile]
  have hsave : saveManifest d m s.outputDir t.outputName =
      (.ok (s.output t), ready.put place (.file (.text m.pretty))) := by
    unfold Setting.output at hwrite ⊢
    simp only [saveManifest, hwrite]
    rfl
  unfold keep told
  rw [if_neg (by simp [hraw]), hsave, hraw]
  rfl

end ComponentRegistry.Generate
