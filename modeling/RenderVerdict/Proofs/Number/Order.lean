import Mathlib.Algebra.Order.Field.Power
import RenderVerdict.Number.Binary
import RenderVerdict.Proofs.Number.Quotient

/-! Finite values are equal and in order as their numbers are. -/
namespace RenderVerdict.Binary

variable {f : Format} {x y z : Binary f}

@[simp] theorem toRat_zero : (zero : Binary f).toRat = 0 := by
  simp [zero, toRat]

/-- Finite values are equal when their numbers are. -/
theorem eq_finite_iff (hx : x.isFinite) (hy : y.isFinite) : x.eq y ↔ x.toRat = y.toRat := by
  cases x <;> cases y <;> simp_all [isFinite, eq]

theorem not_isNaN_of_isFinite (hx : x.isFinite) : ¬ x.isNaN := by
  cases x <;> simp_all [isFinite, isNaN]

/-- Only not-a-number differs from itself. -/
theorem eq_self (hx : ¬ x.isNaN) : x.eq x := by
  cases x <;> simp_all [isNaN, eq]

theorem eq_symm (h : x.eq y) : y.eq x := by
  cases x <;> cases y <;> simp_all [eq]

theorem eq_trans (h : x.eq y) (k : y.eq z) : x.eq z := by
  cases x <;> cases y <;> cases z <;> simp_all [eq]

/-- Two multiples of powers of two, brought to the lesser exponent, are in the order of their
numbers. -/
theorem scaled_lt_scaled_iff (m n q r : Int) :
    m * power 2 (q - r) < n * power 2 (r - q) ↔ (m * 2 ^ q : ℚ) < n * 2 ^ r := by
  have hr : (0 : ℚ) < 2 ^ r := by positivity
  have hp : (0 : ℚ) < power 2 (r - q) := by exact_mod_cast power_pos (by decide : 0 < 2) _
  have hpower : (power 2 (q - r) : ℚ) / power 2 (r - q) = 2 ^ q / 2 ^ r := by
    rw [← zpow_sub₀ (by norm_num : (2 : ℚ) ≠ 0), ← neg_sub q r]
    exact power_div_power (by decide) (q - r)
  calc m * power 2 (q - r) < n * power 2 (r - q)
      ↔ (m * power 2 (q - r) : ℚ) < n * power 2 (r - q) := by norm_cast
    _ ↔ (m * (power 2 (q - r) / power 2 (r - q)) : ℚ) < n := by
      rw [← mul_div_assoc, div_lt_iff₀ hp]
    _ ↔ (m * 2 ^ q : ℚ) < n * 2 ^ r := by
      rw [hpower, ← mul_div_assoc, div_lt_iff₀ hr]

/-- Finite values are in order when their numbers are. -/
theorem lt_finite_iff (hx : x.isFinite) (hy : y.isFinite) : x.lt y ↔ x.toRat < y.toRat := by
  cases x with
  | finite a m q _ => cases y with
    | finite b n r _ =>
      simp only [lt, toRat, decide_eq_true_eq]
      exact scaled_lt_scaled_iff _ _ q r
    | _ => cases hy
  | _ => cases hx

theorem not_lt_nan (x : Binary f) : ¬ x.lt nan := by
  cases x <;> simp [lt]

theorem not_lt_self (x : Binary f) : ¬ x.lt x := by
  cases x <;> simp [lt]

/-- Infinity is past every finite value. -/
theorem lt_infinite_iff (hx : x.isFinite) {negative : Bool} : x.lt (infinite negative) ↔ !negative := by
  cases x <;> simp_all [isFinite, lt]

/-- The larger of two finite values is finite and has the larger number. -/
theorem max_finite (hx : x.isFinite) (hy : y.isFinite) :
    (max x y).isFinite ∧ (max x y).toRat = x.toRat ⊔ y.toRat := by
  unfold max
  rw [if_neg (not_isNaN_of_isFinite hx)]
  split
  · next h => exact ⟨hy, (max_eq_right ((lt_finite_iff hx hy).mp h).le).symm⟩
  · next h =>
    rw [lt_finite_iff hx hy, not_lt] at h
    exact ⟨hx, (max_eq_left h).symm⟩

def NonNegative (x : Binary f) : Prop := ¬ x.isNaN ∧ ¬ x.lt zero

instance (x : Binary f) : Decidable x.NonNegative := inferInstanceAs (Decidable (_ ∧ _))

theorem NonNegative.toRat_nonneg (h : x.NonNegative) : 0 ≤ x.toRat := by
  cases x with
  | finite a m q hc =>
    have hlt := h.2
    rwa [lt_finite_iff rfl rfl, not_lt, toRat_zero] at hlt
  | _ => exact le_rfl

def ExceededBy (tolerance : Binary f) (r : ℚ) : Prop := tolerance.isFinite ∧ tolerance.toRat < r

instance (tolerance : Binary f) (r : ℚ) : Decidable (tolerance.ExceededBy r) :=
  inferInstanceAs (Decidable (_ ∧ _))

theorem lt_iff_exceededBy (hx : x.NonNegative) (hy : y.isFinite) :
    x.lt y ↔ x.ExceededBy y.toRat := by
  cases x with
  | nan => exact absurd rfl hx.1
  | infinite negative => cases negative with
    | false => cases y <;> simp_all [lt, ExceededBy, isFinite]
    | true => exact absurd rfl hx.2
  | finite a m q hc =>
    rw [lt_finite_iff rfl hy]
    exact ⟨fun h => ⟨rfl, h⟩, And.right⟩

end RenderVerdict.Binary
