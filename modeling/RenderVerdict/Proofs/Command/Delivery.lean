import RenderVerdict.Command.Run
import RenderVerdict.Proofs.Files.Writing
import RenderVerdict.Proofs.Report.Cases

/-! Delivering a report: the exit code that it stands for, what is printed and what is written. -/
namespace RenderVerdict

namespace Report

variable {report : Report} {files : FileTree} {path? : Option String}

theorem passed_iff : report.passed ↔ ∀ c ∈ report.cases, c.outcome = .passed := by
  simp only [passed, List.all_eq_true, Case.passed_iff]

end Report

end RenderVerdict
