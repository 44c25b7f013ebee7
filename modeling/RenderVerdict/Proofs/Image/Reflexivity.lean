import RenderVerdict.Proofs.Image.Monotonicity

/-! Rasters compared with themselves. Colors and depths never differ from themselves, whatever their
samples are. Labels do where the remapping, which only the reference goes through, leads too far away
from the label that it starts from. -/
namespace RenderVerdict

/-- The samples of a pixel do not differ from themselves. -/
theorem ColorDifference.eq_zero {n : Nat} {a : Fin n → UInt8} {r : ℚ} (h : ColorDifference a a r) :
    r = 0 := by
  obtain ⟨k, rfl⟩ := h.1
  exact sampleDifference_self (a k)

/-- Nor does a depth, also one that is not finite. -/
theorem DepthDifference.eq_zero {a : Single} {r : ℚ} (h : DepthDifference a a r) : r = 0 := by
  obtain ⟨x, hx, rfl⟩ := h
  rw [sub_self, abs_zero] at hx
  exact hx.eq_zero

namespace Tolerances

variable {tolerances : Tolerances}

end Tolerances

end RenderVerdict
