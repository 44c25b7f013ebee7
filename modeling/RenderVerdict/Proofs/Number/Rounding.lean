import Mathlib.Algebra.Order.Field.Power
import RenderVerdict.Number.Binary
import RenderVerdict.Proofs.Number.Quotient

/-! Rounding to a binary format: the exponent puts the quotient into the range of a significand, a
quotient within the format's range rounds to a finite value, and one that the format holds is
kept. -/
namespace RenderVerdict

variable {f : Format} {num den : Nat}

/-- The significand of a quotient at an exponent. -/
private theorem scaled_lt_iff (hd : 0 < den) (bits : Nat) (q : Int) :
    num * power 2 (-q) < 2 ^ bits * (den * power 2 q) ↔
      (num / den : ℚ) < 2 ^ (bits + q) := by
  have hp : 0 < den * power 2 q := Nat.mul_pos hd (power_pos (by decide) q)
  have hq : (0 : ℚ) < 2 ^ q := by positivity
  rw [← Nat.cast_lt (α := ℚ), Nat.cast_mul (2 ^ bits), ← div_lt_iff₀ (by exact_mod_cast hp),
    scaled_quotient, div_lt_iff₀ hq, zpow_add₀ (by norm_num), zpow_natCast]
  norm_cast

private theorem log2_bounds {n : Nat} (h : 0 < n) :
    (2 : ℚ) ^ (n.log2 : ℤ) ≤ n ∧ (n : ℚ) < 2 ^ (n.log2 + 1 : ℤ) := by
  constructor
  · exact_mod_cast Nat.log2_self_le h.ne'
  · exact_mod_cast Nat.lt_log2_self

/-- A quotient lies between the powers of two that the lengths of its parts name. -/
private theorem quotient_bounds (hn : 0 < num) (hd : 0 < den) :
    (2 : ℚ) ^ (num.log2 - den.log2 - 1 : ℤ) ≤ num / den ∧
      (num / den : ℚ) < 2 ^ (num.log2 - den.log2 + 1 : ℤ) := by
  obtain ⟨hn1, hn2⟩ := log2_bounds hn
  obtain ⟨hd1, hd2⟩ := log2_bounds hd
  have hd0 : (0 : ℚ) < den := by exact_mod_cast hd
  constructor
  · rw [le_div_iff₀ hd0]
    calc (2 : ℚ) ^ (num.log2 - den.log2 - 1 : ℤ) * den
        ≤ 2 ^ (num.log2 - den.log2 - 1 : ℤ) * 2 ^ (den.log2 + 1 : ℤ) := by gcongr
      _ = 2 ^ (num.log2 : ℤ) := by rw [← zpow_add₀ (by norm_num)]; congr 1; ring
      _ ≤ num := hn1
  · rw [div_lt_iff₀ hd0]
    calc (num : ℚ) < 2 ^ (num.log2 + 1 : ℤ) := hn2
      _ = 2 ^ (num.log2 - den.log2 + 1 : ℤ) * 2 ^ (den.log2 : ℤ) := by
        rw [← zpow_add₀ (by norm_num)]; congr 1; ring
      _ ≤ 2 ^ (num.log2 - den.log2 + 1 : ℤ) * den := by gcongr

theorem Format.minExponent_le_exponentOf (f : Format) (num den : Nat) :
    f.minExponent ≤ f.exponentOf num den := by
  unfold exponentOf
  split
  · exact Int.le_refl _
  · exact Int.le_max_left _ _

/-- At its exponent a quotient has a significand that fits, and one that is full unless the
exponent is the least one. -/
theorem Format.exponentOf_spec (f : Format) (num : Nat) (hd : 0 < den) :
    (num / den : ℚ) < 2 ^ (f.bits + f.exponentOf num den) ∧
      (f.exponentOf num den = f.minExponent ∨
        (2 : ℚ) ^ (f.bits - 1 + f.exponentOf num den) ≤ num / den) := by
  rcases Nat.eq_zero_or_pos num with rfl | hn
  · refine ⟨?_, .inl rfl⟩
    rw [Nat.cast_zero, zero_div]
    positivity
  obtain ⟨hlow, hhigh⟩ := quotient_bounds hn hd
  unfold exponentOf
  simp only [hn.ne', ↓reduceIte, Nat.pow_eq, scaled_lt_iff hd]
  generalize (num.log2 : ℤ) - den.log2 = d at *
  -- The exponent that the lengths alone suggest, before it is held up to the least one.
  generalize hr : (if (num / den : ℚ) < 2 ^ (f.bits + (d - f.bits)) then d - f.bits
    else d - f.bits + 1) = r
  have hfull : (2 : ℚ) ^ (f.bits - 1 + r) ≤ num / den ∧ (num / den : ℚ) < 2 ^ (f.bits + r) := by
    split at hr
    · next hfits =>
      subst hr
      rw [show (f.bits - 1 + (d - f.bits) : ℤ) = d - 1 by ring]
      exact ⟨hlow, hfits⟩
    · next hfits =>
      subst hr
      rw [show (f.bits - 1 + (d - f.bits + 1) : ℤ) = f.bits + (d - f.bits) by ring,
        show (f.bits + (d - f.bits + 1) : ℤ) = d + 1 by ring]
      exact ⟨not_lt.mp hfits, hhigh⟩
  constructor
  · exact hfull.2.trans_le (zpow_le_zpow_right₀ (by norm_num) (by omega))
  · rcases Int.le_total r f.minExponent with h | h
    · exact .inl (Int.max_eq_left h)
    · right
      rw [Int.max_eq_right h]
      exact hfull.1

/-- A quotient whose significand fits at an exponent of the format has an exponent no greater. -/
theorem Format.exponentOf_le_of_lt (hd : 0 < den) {q : ℤ} (hmin : f.minExponent ≤ q)
    (h : (num / den : ℚ) < 2 ^ (f.bits + q)) : f.exponentOf num den ≤ q := by
  obtain ⟨-, hq | hq⟩ := f.exponentOf_spec num hd
  · exact hq.trans_le hmin
  · have := (zpow_lt_zpow_iff_right₀ (by norm_num : (1 : ℚ) < 2)).mp (hq.trans_lt h)
    omega

/-- Only one exponent gives a quotient a significand that fits and is full or least. -/
theorem Format.exponentOf_eq (hd : 0 < den) {q : ℤ} (hmin : f.minExponent ≤ q)
    (hlt : (num / den : ℚ) < 2 ^ (f.bits + q))
    (hfull : q = f.minExponent ∨ (2 : ℚ) ^ (f.bits - 1 + q) ≤ num / den) :
    f.exponentOf num den = q := by
  refine le_antisymm (exponentOf_le_of_lt hd hmin hlt) ?_
  rcases hfull with h | h
  · exact h.trans_le (f.minExponent_le_exponentOf num den)
  · have hlt' := h.trans_lt (f.exponentOf_spec num hd).1
    have := (zpow_lt_zpow_iff_right₀ (by norm_num : (1 : ℚ) < 2)).mp hlt'
    omega

def Format.largest (f : Format) : ℚ := (2 ^ f.bits - 1) * 2 ^ f.maxExponent

theorem Format.largest_lt (f : Format) : f.largest < 2 ^ (f.bits + f.maxExponent) := by
  have h : (0 : ℚ) < 2 ^ f.maxExponent := by positivity
  rw [largest, zpow_add₀ (by norm_num), zpow_natCast]
  exact mul_lt_mul_of_pos_right (by linarith) h

/-- A value of a format is at most the largest in magnitude. -/
theorem Binary.magnitude_le_largest {m : Nat} {q : Int} (h : f.Canonical m q) :
    (m * 2 ^ q : ℚ) ≤ f.largest := by
  have hm : m + 1 ≤ 2 ^ f.bits := h.1
  have hm' : (m : ℚ) + 1 ≤ 2 ^ f.bits := by exact_mod_cast hm
  have hq : (2 : ℚ) ^ q ≤ 2 ^ f.maxExponent := zpow_le_zpow_right₀ (by norm_num) h.2.2.1
  have h0 : (0 : ℚ) ≤ m := Nat.cast_nonneg m
  exact mul_le_mul (by linarith) hq (by positivity) (by linarith)

/-- A quotient within the range of a format has an exponent of the format. -/
theorem Format.exponentOf_le (hd : 0 < den) (h : (num / den : ℚ) ≤ f.largest) :
    f.exponentOf num den ≤ f.maxExponent :=
  exponentOf_le_of_lt hd f.ordered (h.trans_lt f.largest_lt)

def Format.significandOf (f : Format) (num den : Nat) : Nat :=
  roundQuotient .even (num * power 2 (-f.exponentOf num den)) (den * power 2 (f.exponentOf num den))

private theorem scale_pos (hd : 0 < den) (q : Int) : 0 < den * power 2 q :=
  Nat.mul_pos hd (power_pos (by decide) q)

/-- A quotient is off its significand by half of the last place at most. -/
theorem Format.abs_sub_significandOf_le (f : Format) (num : Nat) (hd : 0 < den) :
    |(num / den : ℚ) - f.significandOf num den * 2 ^ f.exponentOf num den| ≤
      2 ^ f.exponentOf num den / 2 := by
  have hq : (0 : ℚ) < 2 ^ f.exponentOf num den := by positivity
  have h := abs_sub_roundQuotient_le .even (num * power 2 (-f.exponentOf num den))
    (scale_pos hd (f.exponentOf num den))
  rw [scaled_quotient, abs_div_sub _ _ hq, div_le_iff₀ hq, one_div_mul_eq_div] at h
  exact h

/-- Halfway between two multiples of the last place the significand is even. -/
theorem Format.even_significandOf (f : Format) (hd : 0 < den)
    (h : |(num / den : ℚ) - f.significandOf num den * 2 ^ f.exponentOf num den| =
      2 ^ f.exponentOf num den / 2) : Even (f.significandOf num den) := by
  have hq : (0 : ℚ) < 2 ^ f.exponentOf num den := by positivity
  refine even_roundQuotient _ (scale_pos hd _) ?_
  rw [scaled_quotient, abs_div_sub _ _ hq, div_eq_iff hq.ne', one_div_mul_eq_div]
  exact h

theorem Format.significandOf_le (f : Format) (num : Nat) (hd : 0 < den) :
    f.significandOf num den ≤ 2 ^ f.bits := by
  have hlt := (scaled_lt_iff hd f.bits _).mpr (f.exponentOf_spec num hd).1
  exact roundQuotient_le (scale_pos hd _) hlt.le

theorem Format.le_significandOf (f : Format) (num : Nat) (hd : 0 < den) :
    2 ^ (f.bits - 1) ≤ f.significandOf num den ∨ f.exponentOf num den = f.minExponent := by
  obtain ⟨-, hq | hq⟩ := f.exponentOf_spec num hd
  · exact .inr hq
  · left
    refine le_roundQuotient (scale_pos hd _) (not_lt.mp fun hlt => ?_)
    have hlt' := (scaled_lt_iff hd _ _).mp hlt
    rw [Nat.cast_sub f.bits_pos, Nat.cast_one] at hlt'
    exact absurd hq (not_le.mpr hlt')

/-- A quotient within the range of a format has a significand below the carry, or an exponent
below the largest. -/
private theorem carry_below_largest (hd : 0 < den) (h : (num / den : ℚ) ≤ f.largest)
    (hm : f.significandOf num den = 2 ^ f.bits) : f.exponentOf num den < f.maxExponent := by
  refine (f.exponentOf_le hd h).lt_of_ne fun hq => ?_
  have hle : num * power 2 (-f.exponentOf num den) ≤
      (2 ^ f.bits - 1) * (den * power 2 (f.exponentOf num den)) := by
    have hp : (0 : ℚ) < (den * power 2 (f.exponentOf num den) : Nat) := by
      exact_mod_cast scale_pos hd _
    have hone : 1 ≤ 2 ^ f.bits := Nat.one_le_two_pow
    rw [← Nat.cast_le (α := ℚ), Nat.cast_mul (2 ^ f.bits - 1), ← div_le_iff₀ hp, scaled_quotient,
      div_le_iff₀ (by positivity), hq]
    push_cast [hone]
    exact h
  have hm' : f.significandOf num den ≤ 2 ^ f.bits - 1 := roundQuotient_le (scale_pos hd _) hle
  have := Nat.two_pow_pos f.bits
  omega

namespace Binary

/-- A quotient within the range of a format is rounded to a significand at its exponent, or to the
power of two that a carry leads to. -/
theorem round_eq_finite (negative : Bool) (hd : 0 < den) (h : (num / den : ℚ) ≤ f.largest) :
    ∃ m q, ∃ hc : f.Canonical m q, round negative num den = finite negative m q hc ∧
      f.exponentOf num den ≤ q ∧
      (m * 2 ^ q : ℚ) = f.significandOf num den * 2 ^ f.exponentOf num den := by
  have hle := f.exponentOf_le hd h
  rcases (f.significandOf_le num hd).lt_or_eq with hlt | hcarry
  · have hc : f.Canonical (f.significandOf num den) (f.exponentOf num den) :=
      ⟨hlt, f.minExponent_le_exponentOf num den, hle, f.le_significandOf num hd⟩
    exact ⟨_, _, hc, dif_pos hc, Int.le_refl _, rfl⟩
  · have hq := carry_below_largest hd h hcarry
    have hn : ¬ f.Canonical (f.significandOf num den) (f.exponentOf num den) :=
      fun hc => absurd hc.1 (by rw [hcarry]; exact Nat.lt_irrefl _)
    have hc : f.Canonical (Nat.pow 2 (f.bits - 1)) (f.exponentOf num den + 1) :=
      ⟨Nat.pow_lt_pow_right (by decide) (Nat.sub_lt f.bits_pos (by decide)),
        (f.minExponent_le_exponentOf num den).trans (by omega), by omega, .inl (Nat.le_refl _)⟩
    refine ⟨_, _, hc, (dif_neg hn).trans (dif_pos hc), Int.le_add_one (Int.le_refl _), ?_⟩
    rw [hcarry, zpow_add_one₀ (by norm_num), Nat.pow_eq]
    obtain ⟨b, hb⟩ : ∃ b, f.bits = b + 1 := ⟨f.bits - 1, by have := f.bits_pos; omega⟩
    rw [hb, Nat.add_sub_cancel]
    push_cast
    ring

/-- A quotient within the range of a format rounds to a finite value. -/
theorem isFinite_round (negative : Bool) (hd : 0 < den) (h : (num / den : ℚ) ≤ f.largest) :
    (round negative num den : Binary f).isFinite := by
  obtain ⟨m, q, hc, hr, -, -⟩ := round_eq_finite negative hd h
  rw [hr]
  rfl

/-- A quotient that is nearest to a value of a format, and no smaller than the format's values with
the same exponent, rounds to the value. -/
theorem round_eq_of_near (negative : Bool) (hd : 0 < den) {m : Nat} {q : Int}
    (hc : f.Canonical m q) (hnear : |(num / den : ℚ) - m * 2 ^ q| < 2 ^ q / 2)
    (hfull : q = f.minExponent ∨ (2 : ℚ) ^ (f.bits - 1 + q) ≤ num / den) :
    round negative num den = finite negative m q hc := by
  have hq : (0 : ℚ) < 2 ^ q := by positivity
  have hexponent : f.exponentOf num den = q := by
    refine Format.exponentOf_eq hd hc.2.1 ?_ hfull
    have hm : (m : ℚ) + 1 ≤ 2 ^ f.bits := by exact_mod_cast hc.1
    rw [zpow_add₀ (by norm_num), zpow_natCast]
    nlinarith [(abs_lt.mp hnear).2]
  have hsignificand :
      roundQuotient .even (num * power 2 (-q)) (den * power 2 q) = m := by
    refine roundQuotient_eq_of_near .even (scale_pos hd q) ?_
    rw [scaled_quotient, abs_div_sub _ _ hq, div_lt_iff₀ hq, one_div_mul_eq_div]
    exact hnear
  unfold round
  simp only [hexponent, hsignificand]
  exact dif_pos hc

/-- A quotient that is a multiple of the last place at its exponent is kept. -/
theorem toRat_round (negative : Bool) (hd : 0 < den) (h : (num / den : ℚ) ≤ f.largest) {k : Nat}
    (hk : (num / den : ℚ) = k * 2 ^ f.exponentOf num den) :
    (round negative num den : Binary f).toRat = (if negative then -1 else 1) * (num / den) := by
  have hs : f.significandOf num den = k := by
    have hp : (den * power 2 (f.exponentOf num den) : ℚ) ≠ 0 := by
      exact_mod_cast (scale_pos hd _).ne'
    have he : num * power 2 (-f.exponentOf num den) =
        k * (den * power 2 (f.exponentOf num den)) := by
      have hq := scaled_quotient num den (f.exponentOf num den)
      rw [hk, mul_div_cancel_right₀ _ (by positivity)] at hq
      push_cast at hq
      rw [div_eq_iff hp] at hq
      exact_mod_cast hq
    unfold Format.significandOf
    rw [he]
    exact roundQuotient_mul _ _ (scale_pos hd _)
  obtain ⟨m, q, hc, hr, -, hv⟩ := round_eq_finite negative hd h
  rw [hr, hk, ← hs, ← hv]
  cases negative <;> simp [toRat]

end Binary

end RenderVerdict
