import RenderVerdict.Proofs.Lists
import RenderVerdict.Report.Text

/-! Cases: their place in a report, and what their outcome says about what they found. -/
namespace RenderVerdict

theorem CaseKind.rank_inj {a b : CaseKind} : a.rank = b.rank ↔ a = b := by
  cases a <;> cases b <;> decide

theorem Channel.rank_inj {a b : Channel} : a.rank = b.rank ↔ a = b := by
  cases a <;> cases b <;> decide

theorem Channel.mem_all (channel : Channel) : channel ∈ all := by
  cases channel <;> decide

namespace Case

variable {a b c : Case} {frame : Nat} {kind : CaseKind} {channel : Channel}

theorem precedes_iff : a.precedes b ↔ a.frame < b.frame ∨ a.frame = b.frame ∧
    (a.kind.rank < b.kind.rank ∨ a.kind.rank = b.kind.rank ∧
      a.channel.rank ≤ b.channel.rank) := by
  unfold precedes
  rw [CaseKind.rank_inj]
  by_cases hf : a.frame = b.frame
  · by_cases hk : a.kind = b.kind
    · simp [hf, hk]
    · simp [hf, hk]
  · simp [hf]

theorem key_ofPixels (result : Except Fault PixelReport) :
    (ofPixels frame channel result).key = (frame, .image, channel) := by
  cases result <;> rfl

theorem key_ofStructure (result : Except Fault StructureReport) :
    (ofStructure frame channel result).key = (frame, .document, channel) := by
  cases result <;> rfl

theorem passed_iff : c.passed ↔ c.outcome = .passed := by
  simp [passed]

/-- The outcome of a case says what the case found: it is fatal when there is nothing to tell, and
else it is the verdict. -/
structure Sound (c : Case) : Prop where
  fatal_iff : (∃ kind message, c.outcome = .fatal kind message) ↔ c.detail = none
  passed_iff : c.outcome = .passed ↔
    (∃ report, c.detail = some (.pixels report) ∧ report.passed) ∨
      ∃ report, c.detail = some (.scene report) ∧ report.isMatch

end Case

end RenderVerdict
