import RenderVerdict.Proofs.Command.Agreement
import RenderVerdict.Proofs.Command.Delivery
import RenderVerdict.Proofs.Image.Comparison
import RenderVerdict.Proofs.Report.Data

/-! The exit code is the verdict: zero if every case passed, one if some case exceeds the tolerance
and none is fatal, and two whenever there is no verdict. Only a run on more frames than there is memory for
ends otherwise. -/
namespace RenderVerdict

namespace Settings

variable {settings : Settings} {files : FileTree} {options : Options} {report : Report}
  {command : String} {pairs : List FramePair} {mode : Mode} {frame : Nat} {kind : CaseKind}
  {channel : Channel} {candidate reference : String} {c : Case}

end Settings

inductive Compares (files : FileTree) (options : Options) :
    String → CaseKind → Channel → String → String → Prop where
  | images {candidate reference : String} {frame : Nat} {channel : Channel}
      (operands : options.positional = [candidate, reference])
      (inside : frame < options.frames.getD 2) :
      Compares files options "images" .image channel ((framePaths candidate frame).get channel)
        ((framePaths reference frame).get channel)
  | directories {candidate reference : String} {channel : Channel}
      (operands : options.positional = [candidate, reference])
      (both : files.isDirectory candidate ∧ files.isDirectory reference) :
      Compares files options "gltf" .document channel ((exportPaths candidate).get channel)
        ((truthPaths reference).get channel)
  | documents {candidate reference : String}
      (operands : options.positional = [candidate, reference])
      (single : ¬ (files.isDirectory candidate ∧ files.isDirectory reference)) :
      Compares files options "gltf" .document (options.channel.getD .color) candidate reference

/-- The files that a command compares have a case in its report. -/
theorem Compares.exists_caseOf {settings : Settings} {files : FileTree} {options : Options}
    {command : String} {kind : CaseKind} {channel : Channel} {candidate reference : String}
    {report : Report} (h : Compares files options command kind channel candidate reference)
    (hreport : settings.runCommand files command options = .ok report) :
    ∃ frame, ∃ c ∈ report.cases,
      settings.caseOf files frame kind channel candidate reference = some c := by
  obtain ⟨first, second, hoperands, hreport⟩ := Settings.runCommand_eq_ok_iff.mp hreport
  cases h with
  | @images candidate reference frame channel operands inside =>
    obtain ⟨rfl, rfl⟩ : first = candidate ∧ second = reference := by
      simpa using hoperands.symm.trans operands
    rcases hreport with ⟨-, -, hrun⟩ | ⟨hcommand, -⟩
    · have hpair : framePair first second frame ∈
          (List.range (options.frames.getD 2)).map (framePair first second) :=
        List.mem_map_of_mem (List.mem_range.mpr inside)
      have hkind : CaseKind.image ∈ Mode.images.kinds := List.mem_singleton_self _
      exact ⟨frame, Settings.exists_mem_run hpair hkind rfl hrun⟩
    · exact absurd hcommand (by decide)
  | @directories candidate reference channel operands both =>
    obtain ⟨rfl, rfl⟩ : first = candidate ∧ second = reference := by
      simpa using hoperands.symm.trans operands
    rcases hreport with ⟨hcommand, -⟩ | ⟨-, hrun⟩
    · exact absurd hcommand (by decide)
    · unfold Settings.compareOperands at hrun
      rw [if_pos (by rwa [Bool.and_eq_true])] at hrun
      have hkind : CaseKind.document ∈ Mode.documents.kinds := List.mem_singleton_self _
      exact ⟨0, Settings.exists_mem_run (List.mem_singleton_self _) hkind rfl hrun⟩
  | documents operands single =>
    obtain ⟨rfl, rfl⟩ : first = candidate ∧ second = reference := by
      simpa using hoperands.symm.trans operands
    rcases hreport with ⟨hcommand, -⟩ | ⟨-, hrun⟩
    · exact absurd hcommand (by decide)
    · rw [Settings.compareOperands_eq single] at hrun
      obtain ⟨c, hc, rfl⟩ := Option.map_eq_some_iff.mp hrun
      exact ⟨0, c, List.mem_singleton_self _, hc⟩

section Running

variable {files : FileTree} {arguments : List String} {command : String} {options : Options}
  {settings : Settings} {report : Report}

end Running

end RenderVerdict
