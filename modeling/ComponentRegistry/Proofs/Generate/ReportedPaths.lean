import ComponentRegistry.Proofs.Generate.OutputDirectory
import ComponentRegistry.Proofs.Path.Lexical

/-!
# Where reports lead

A report says where a manifest was saved as seen from the working directory.  Joined to the working
directory, what it says reads as the path of the output file, whether that is below the working
directory or not (`reported_leads_back`).
-/

namespace ComponentRegistry.Generate

section Reported

variable {schedule : Nat → List Nat} {d : Disk} {config : Config} {dir : Path} {o : Options}
  {r : Report} {g : Generated}

/-- A report tells of a manifest that was saved to the output of its component: there it stood on a
disk that the run went through. -/
theorem saved_of_mem_generated (hfair : ∀ count, Fair count (schedule count))
    (hok : (runScheduled schedule d config dir o).result = .ok r) (hraw : o.rawJson = false)
    (hg : g ∈ r.generated) :
    g.savedTo = some ((outputOf d config dir o g.source).relative dir) ∧
      ∃ after ∈ runDisks schedule d config dir o,
        after.readText (outputOf d config dir o g.source) = .ok g.manifest.pretty := by
  have hended := ended hfair hok
  have hsaving : (runSetting d config dir o).rawJson = false := (runSetting_rawJson ..).trans hraw
  obtain ⟨x, hx, hresult⟩ := (hended.generated g).mp hg
  obtain ⟨hsource, hmanifest, hsavedTo⟩ := Save.of_result hresult
  have houtput : (runSetting d config dir o).output x.task = outputOf d config dir o g.source := by
    rw [output_of_mem_runSaves hx, hsource]
  have htext := Save.readText_output hsaving hresult
  have hdisk : x.after (runSetting d config dir o) ∈ runDisks schedule d config dir o :=
    List.mem_cons_of_mem _ (List.mem_map_of_mem hx)
  refine ⟨?_, _, hdisk, ?_⟩
  · rw [hsavedTo hsaving, houtput, runSetting_dir]
  · rw [← houtput, htext, hmanifest]

/-- **A path that is expressed from a base leads back to where it leads itself**, and so does what a
report says of a manifest: joined to the working directory, it reads as the path of the file that the
manifest was saved to. -/
theorem reported_leads_back :
    (∀ p base : Path, p.isAbsolute = true → base.isAbsolute = true →
      Path.Component.parent ∉ base.components →
        (base.join (p.relative base)).normalized = p.normalized) ∧
    ∀ (schedule : Nat → List Nat) (d : Disk) (config : Config) (dir : Path) (o : Options) (r : Report),
      (∀ count, Fair count (schedule count)) →
      (runScheduled schedule d config dir o).result = .ok r → o.rawJson = false →
      dir.isAbsolute = true → Path.Component.parent ∉ dir.components →
        ∀ g ∈ r.generated, ∃ saved, g.savedTo = some saved ∧
          (dir.join saved).normalized = (outputOf d config dir o g.source).normalized ∧
          ∃ after ∈ runDisks schedule d config dir o,
            after.readText (outputOf d config dir o g.source) = .ok g.manifest.pretty := by
  refine ⟨fun p base hp hbase hup => Path.normalized_join_relative hp hbase hup, ?_⟩
  intro schedule d config dir o r hfair hok hraw hdir hup g hg
  obtain ⟨hsaved, hdisk⟩ := saved_of_mem_generated hfair hok hraw hg
  have houtput : (outputOf d config dir o g.source).isAbsolute = true :=
    isAbsolute_outputOf g.source hdir
  exact ⟨_, hsaved, Path.normalized_join_relative houtput hdir hup, hdisk⟩

/-- Outputs go to a directory beside the project, which is named over a detour. -/
def besideConfig : Config := { Config.unset with outputDir := some (Path.ofString "/out/x/..") }

def besideOptions : Options := ⟨none, Path.ofString "src/button.ts", false, none⟩

theorem beside_leads_back :
    (run lone besideConfig (Path.ofString "/p") besideOptions).result =
        .ok (loneReport "../out/x/../button.json") ∧
      ∀ g ∈ (loneReport "../out/x/../button.json").generated, ∃ saved, g.savedTo = some saved ∧
        ((Path.ofString "/p").join saved).normalized = Path.ofString "/out/button.json" := by
  have hok : (run lone besideConfig (Path.ofString "/p") besideOptions).result =
      .ok (loneReport "../out/x/../button.json") := by
    decide +kernel
  have hdir : (Path.ofString "/p").isAbsolute = true := by decide
  have hup : Path.Component.parent ∉ (Path.ofString "/p").components := by decide +kernel
  have houtput : (outputOf lone besideConfig (Path.ofString "/p") besideOptions
      (Path.ofString "/p/src/button.ts")).normalized = Path.ofString "/out/button.json" := by
    decide +kernel
  refine ⟨hok, fun g hg => ?_⟩
  obtain ⟨saved, hsaved, hback, -⟩ :=
    reported_leads_back.2 inOrder lone besideConfig _ besideOptions _ fair_inOrder hok rfl hdir hup g hg
  rw [List.mem_singleton.mp hg] at hsaved hback
  exact ⟨saved, List.mem_singleton.mp hg ▸ hsaved, hback.trans houtput⟩

end Reported

end ComponentRegistry.Generate
