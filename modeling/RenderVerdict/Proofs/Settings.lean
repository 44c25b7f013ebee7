import RenderVerdict.Proofs.Number.Whole
import RenderVerdict.Proofs.Number.Order
import RenderVerdict.Proofs.Outcome
import RenderVerdict.Settings

/-! What validation asks of settings. Those that are read from a text, and those that hold without one,
are valid. -/
namespace RenderVerdict

theorem Schema.places_le_of_validate {schema : Schema} (h : schema.validate = .ok ()) :
    schema.places ≤ Schema.maxPlaces := by
  unfold validate at h
  split at h
  · cases h
  · exact Nat.le_of_not_lt ‹_›

theorem requireNonNegative_eq_ok_iff {name : String} {value : Double} :
    requireNonNegative name value = .ok () ↔ value.NonNegative := by
  unfold requireNonNegative Binary.NonNegative
  cases value.isNaN <;> cases value.lt .zero <;> simp

def IsFraction (value : Double) : Prop :=
  value.isFinite ∧ 0 < value.toRat ∧ value.toRat ≤ 1

theorem requireFraction_eq_ok_iff {value : Double} :
    requireFraction value = .ok () ↔ IsFraction value := by
  have hone : (Binary.nearest 1 : Double).isFinite ∧ (Binary.nearest 1 : Double).toRat = 1 := by
    simpa using Binary.nearest_intCast (n := 1) (by decide)
  have hzero : (Binary.zero : Double).isFinite := rfl
  unfold requireFraction IsFraction
  rw [ite_eq_left_iff, Bool.and_eq_true, Bool.not_eq_true', ← Bool.not_eq_true]
  cases value with
  | finite a m q hc =>
    rw [Binary.lt_finite_iff hzero rfl, Binary.lt_finite_iff hone.1 rfl, hone.2,
      Binary.toRat_zero, not_lt]
    simp [Binary.isFinite]
  | nan => simp [Binary.isFinite, Binary.not_lt_nan]
  | infinite negative =>
    simp [Binary.isFinite, Binary.lt_infinite_iff hzero, Binary.lt_infinite_iff hone.1]

theorem Tolerances.validate_eq_ok_iff {tolerances : Tolerances} :
    tolerances.validate = .ok () ↔ tolerances.color.NonNegative ∧ tolerances.depth.NonNegative ∧
      tolerances.label.NonNegative ∧ IsFraction tolerances.invalidFraction := by
  unfold validate
  simp only [bind_eq_ok_iff, Unique.exists_iff, requireFraction_eq_ok_iff]
  simp only [requireNonNegative_eq_ok_iff, PUnit.default_eq_unit]

theorem Tolerances.validate_standard : standard.validate = .ok () := by
  refine validate_eq_ok_iff.mpr ⟨?_, ?_, ?_, requireFraction_eq_ok_iff.mp ?_⟩
  · decide +kernel
  · decide +kernel
  · decide +kernel
  · unfold requireFraction
    rw [if_pos (by decide +kernel)]

namespace Settings

variable {settings : Settings}

theorem validate_of_read {text : String} (h : read text = .ok settings) :
    settings.validate = .ok () := by
  unfold read at h
  split at h
  · cases h
  · split at h
    · rename_i hvalid
      cases h
      exact hvalid
    · cases h

theorem validate_standard : standard.validate = .ok () := by
  have hschema : standard.schema.validate = .ok () := by rfl
  have htolerances : standard.tolerances.validate = .ok () := Tolerances.validate_standard
  unfold validate
  rw [hschema, htolerances]
  rfl

end Settings

end RenderVerdict
