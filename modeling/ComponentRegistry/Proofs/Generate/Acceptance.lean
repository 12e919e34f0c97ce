import ComponentRegistry.Proofs.Generate.Components

/-!
# Components and inputs

A file is a component of a directory, or the input of a run, by its extension.  A directory goes by
what stands under a name, though, and a run by where the name leads.  So the components of a
directory are the files in it that a run takes as its input, less those that are links
(`mem_components_iff_accepted`).
-/

namespace ComponentRegistry

namespace Disk

variable {d : Disk} {dir : Path} {place : Location} {name : Name}

theorem mem_entries_of_node? {n : Node} (h : d.node? (place ++ [name]) = some n) :
    (name, n) ∈ d.entries place := by
  rw [node?_of_ne_nil d (by simp)] at h
  obtain ⟨⟨l, n'⟩, hfind, rfl⟩ := Option.map_eq_some_iff.mp h
  have hl : l = place ++ [name] := by simpa using List.find?_some hfind
  refine List.mem_filterMap.mpr ⟨_, List.mem_of_find?_eq_some hfind, ?_⟩
  simp [hl]

/-- What a name in a directory leads to, unless a link stands there. -/
theorem stat_child (hl : d.locate dir = .ok place) (hd : d.node? place = some .directory)
    (hname : Proper name) (hr : refusal? (dir.child name) = none)
    (hlink : ∀ target, d.node? (place ++ [name]) ≠ some (.link target)) :
    d.stat (dir.child name) = (d.node? (place ++ [name])).elim (.error .notFound) .ok := by
  cases hn : d.node? (place ++ [name]) with
  | some n =>
    have hleads : d.locate (dir.child name) = .ok (place ++ [name]) :=
      locate_in_directory (q := Path.ofName name) hl hd hname hr hn fun target hlinked =>
        hlink target (hlinked ▸ hn)
    simp [stat, hleads, hn]
  | none =>
    obtain ⟨way, hsteps, hway⟩ := exists_way (q := Path.ofName name) hl hd hname
    obtain ⟨left, hleft⟩ := (leads_of_follow hway).append
    have hdown : d.takeStep place (.down name) = .error .notFound := by
      rw [takeStep, if_neg (by simp [hd]), if_neg hname.short, hn]
    have hmissing : d.locate (dir.child name) = .error .notFound := by
      unfold locate
      rw [hr]
      show d.follow linkLimit [] (stepsOf (d.absolute (dir.join (Path.ofName name)))) = _
      rw [hsteps, hleft]
      show d.follow left place [.down name] = _
      rw [follow_cons, hdown]
    simp [stat, hmissing]

/-- What a path leads to is no link. -/
theorem not_link_of_stat {p : Path} {n : Node} (h : d.stat p = .ok n) (target : Path) :
    n ≠ .link target := by
  unfold stat at h
  cases hl : d.locate p with
  | error e => rw [hl] at h; cases h
  | ok l =>
    obtain ⟨n', hn', hlink⟩ := (standing_of_locate hl).here
    simp only [hl, hn', Option.elim_some] at h
    cases h
    exact hlink target

end Disk

namespace Generate

variable {d : Disk} {dir cwd : Path} {place : Location} {name : Name} {o : Options} {f : Path}

/-- Options without a name take what is no directory exactly if it is a file with the extension of
components. -/
theorem validate_eq_ok_iff (hnone : o.name = none) (hinput : cwd.join o.input = f)
    (hdirectory : d.isDirectory f = false) :
    o.validate d cwd = .ok () ↔ d.isFile f = true ∧ isComponent f = true := by
  unfold Options.validate
  rw [hnone, hinput]
  unfold Disk.has Disk.isFile
  unfold Disk.isDirectory at hdirectory
  cases hstat : d.stat f with
  | error e => simp [hstat, Except.isOk, Except.toBool]
  | ok n =>
    cases n with
    | directory => rw [hstat] at hdirectory; cases hdirectory
    | link target => exact absurd rfl (Disk.not_link_of_stat hstat target)
    | file content => cases hc : isComponent f <;> simp [hstat, hc, Except.isOk, Except.toBool]

/-- A name in a directory, with nothing under it that is a directory or leads to one. -/
structure HasName (d : Disk) (dir : Path) (place : Location) (name : Name) : Prop where
  located : d.locate dir = .ok place
  directory : d.node? place = some .directory
  proper : Disk.Proper name
  other : d.isDirectory (dir.child name) = false

/-- What has a name in a directory is one of its components exactly if it is a file with the extension
of components. -/
theorem HasName.mem_iff {files : List Path} (hd : d.Listed) (h : HasName d dir place name)
    (hfiles : listComponents d dir = .ok files) :
    dir.child name ∈ files ↔
      (∃ content, d.node? (place ++ [name]) = some (.file content)) ∧
        isComponent (dir.child name) = true := by
  rw [mem_listComponents_iff h.located hfiles]
  constructor
  · rintro ⟨name', content, hmem, hchild, hcomponent⟩
    obtain rfl := child_inj h.proper (hd.proper hmem) hchild
    exact ⟨⟨content, hd.node?_of_mem_entries hmem⟩, hcomponent⟩
  · rintro ⟨⟨content, hn⟩, hcomponent⟩
    exact ⟨name, content, Disk.mem_entries_of_node? hn, rfl, hcomponent⟩

/-- **The components of a directory are the inputs in it that are no links.**  Of what has a name in
a directory and is no directory itself, also not over links, a run takes as its input, without a
name for the manifest, what is a file with the extension of components.  The directory has the same
among its components, as long as it can be asked for by its path, except for links. -/
theorem mem_components_iff_accepted (hd : d.Listed) (h : HasName d dir place name)
    (hinput : cwd.join o.input = dir.child name) (hnone : o.name = none) :
    ∃ files, listComponents d dir = .ok files ∧
      (dir.child name ∈ files ∧ Disk.refusal? (dir.child name) = none ↔
        o.validate d cwd = .ok () ∧ ∀ target, d.node? (place ++ [name]) ≠ some (.link target)) ∧
      (o.validate d cwd = .ok () ↔
        d.isFile (dir.child name) = true ∧ isComponent (dir.child name) = true) := by
  have hdir : d.isDirectory dir = true := by simp [Disk.isDirectory, Disk.stat, h.located, h.directory]
  obtain ⟨files, hfiles⟩ := listComponents_of_isDirectory hdir
  have haccepted := validate_eq_ok_iff hnone hinput h.other
  refine ⟨files, hfiles, ?_, haccepted⟩
  rw [h.mem_iff hd hfiles, haccepted]
  constructor
  · rintro ⟨⟨⟨content, hn⟩, hcomponent⟩, hr⟩
    have hlink : ∀ target, d.node? (place ++ [name]) ≠ some (.link target) := by simp [hn]
    have hstat := Disk.stat_child h.located h.directory h.proper hr hlink
    exact ⟨⟨by simp [Disk.isFile, hstat, hn], hcomponent⟩, hlink⟩
  · rintro ⟨⟨hfile, hcomponent⟩, hlink⟩
    have hr := (Disk.spelling_of_isFile hfile).2
    have hstat := Disk.stat_child h.located h.directory h.proper hr hlink
    unfold Disk.isFile at hfile
    cases hn : d.node? (place ++ [name]) with
    | none => simp [hstat, hn] at hfile
    | some n =>
      cases n with
      | directory => simp [hstat, hn] at hfile
      | link target => exact absurd hn (hlink target)
      | file content => exact ⟨⟨⟨content, rfl⟩, hcomponent⟩, hr⟩

/-- A directory with a component, and with a link to one that stands elsewhere. -/
def shared : Disk where
  nodes := (Disk.ofTexts [
      ("p/package.json", "\x7b\x7d"),
      ("p/ui/button.tsx", "export const Button = 1;"),
      ("p/kit/card.tsx", "export const Card = 1;")]).nodes ++
    [(Disk.locationOf "p/ui/card.tsx", .link (Path.ofString "../kit/card.tsx"))]
  workingDirectory := Path.ofString "/"

/-- A run over something in the directory, which is named as seen from the project. -/
def inUi (name : String) : Options where
  name := none
  input := Path.ofString ("ui/" ++ name)
  rawJson := false
  jobs := none

/-- The component that stands in the directory is listed, and taken as an input. -/
theorem button_accepted :
    shared.Listed ∧
      HasName shared (Path.ofString "/p/ui") (Disk.locationOf "p/ui") (Path.ofString "button.tsx").glyphs ∧
      (Path.ofString "/p").join (inUi "button.tsx").input =
        (Path.ofString "/p/ui").child (Path.ofString "button.tsx").glyphs ∧
      ∃ files, listComponents shared (Path.ofString "/p/ui") = .ok files ∧
        (Path.ofString "/p/ui").child (Path.ofString "button.tsx").glyphs ∈ files ∧
        (inUi "button.tsx").validate shared (Path.ofString "/p") = .ok () := by
  have hlisted : shared.Listed := by decide +kernel
  have hname : HasName shared (Path.ofString "/p/ui") (Disk.locationOf "p/ui")
      (Path.ofString "button.tsx").glyphs :=
    ⟨by decide +kernel, by decide +kernel, by decide +kernel, by decide +kernel⟩
  have hinput : (Path.ofString "/p").join (inUi "button.tsx").input =
      (Path.ofString "/p/ui").child (Path.ofString "button.tsx").glyphs := by
    decide +kernel
  have hvalid : (inUi "button.tsx").validate shared (Path.ofString "/p") = .ok () := by
    decide +kernel
  have hnode : shared.node? (Disk.locationOf "p/ui" ++ [(Path.ofString "button.tsx").glyphs]) =
      some (.file (.text "export const Button = 1;")) := by
    decide +kernel
  obtain ⟨files, hfiles, hiff, -⟩ := mem_components_iff_accepted hlisted hname hinput rfl
  exact ⟨hlisted, hname, hinput, files, hfiles, (hiff.mpr ⟨hvalid, by simp [hnode]⟩).1, hvalid⟩

/-- The one that is linked is taken as an input and not listed. -/
theorem card_left_out :
    shared.Listed ∧
      HasName shared (Path.ofString "/p/ui") (Disk.locationOf "p/ui") (Path.ofString "card.tsx").glyphs ∧
      (Path.ofString "/p").join (inUi "card.tsx").input =
        (Path.ofString "/p/ui").child (Path.ofString "card.tsx").glyphs ∧
      (inUi "card.tsx").validate shared (Path.ofString "/p") = .ok () ∧
      ∃ files, listComponents shared (Path.ofString "/p/ui") = .ok files ∧
        (Path.ofString "/p/ui").child (Path.ofString "card.tsx").glyphs ∉ files := by
  have hlisted : shared.Listed := by decide +kernel
  have hname : HasName shared (Path.ofString "/p/ui") (Disk.locationOf "p/ui")
      (Path.ofString "card.tsx").glyphs :=
    ⟨by decide +kernel, by decide +kernel, by decide +kernel, by decide +kernel⟩
  have hnode : shared.node? (Disk.locationOf "p/ui" ++ [(Path.ofString "card.tsx").glyphs]) =
      some (.link (Path.ofString "../kit/card.tsx")) := by
    decide +kernel
  have hdir : shared.isDirectory (Path.ofString "/p/ui") = true := by decide +kernel
  obtain ⟨files, hfiles⟩ := listComponents_of_isDirectory hdir
  refine ⟨hlisted, hname, by decide +kernel, by decide +kernel, files, hfiles, fun hmem => ?_⟩
  obtain ⟨⟨content, hfile⟩, -⟩ := (hname.mem_iff hlisted hfiles).mp hmem
  rw [hnode] at hfile
  cases hfile

end Generate

end ComponentRegistry
