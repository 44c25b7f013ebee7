import RenderVerdict.Number.Decimal
import RenderVerdict.Proofs.Number.Whole

/-! Rounding to decimal places: it keeps values finite, and with no more than 15 places it is done
once and for all. -/
namespace RenderVerdict.Binary

variable {f : Format}

def grid (places : Nat) : Nat := power 10 (min places Format.double.minExponent.natAbs : Nat)

theorem grid_pos (places : Nat) : 0 < grid places := power_pos (by decide) _

def stepsOf (places m : Nat) (q : Int) : Nat :=
  roundQuotient .even (m * power 2 q * grid places) (power 2 (-q))

theorem toPlaces_finite (places : Nat) (negative : Bool) {m : Nat} {q : Int}
    (hc : Format.double.Canonical m q) :
    toPlaces places (.finite negative m q hc : Double) =
      if stepsOf places m q = 0 then zero else round negative (stepsOf places m q) (grid places) :=
  rfl

/-- A magnitude with a fraction has no more steps than `2 ^ 52` has. -/
private theorem stepsOf_of_fraction (places : Nat) {m : Nat} {q : Int} (hm : m < 2 ^ 53)
    (hq : q < 0) : stepsOf places m q ≤ 2 ^ 52 * grid places := by
  apply roundQuotient_le (power_pos (by decide) _)
  have htwo : 2 ≤ power 2 (-q) := by
    have h := Nat.pow_le_pow_right (by decide : 0 < 2) (show 1 ≤ (-q).toNat by omega)
    exact h
  rw [power_of_nonpos 2 hq.le, Nat.mul_one]
  calc m * grid places ≤ 2 ^ 53 * grid places := by gcongr
    _ = 2 ^ 52 * grid places * 2 := by ring
    _ ≤ 2 ^ 52 * grid places * power 2 (-q) := by gcongr

/-- The decimal of a value stays within the range of values: one with a fraction is far from the
largest, and a whole one is its own decimal. -/
theorem stepsOf_le_largest (places : Nat) {m : Nat} {q : Int}
    (hc : Format.double.Canonical m q) :
    (stepsOf places m q / grid places : ℚ) ≤ Format.double.largest := by
  have hg : (0 : ℚ) < grid places := by exact_mod_cast grid_pos places
  rw [div_le_iff₀ hg]
  rcases lt_or_ge q 0 with hq | hq
  · have hs : (stepsOf places m q : ℚ) ≤ 2 ^ 52 * grid places := by
      exact_mod_cast stepsOf_of_fraction places hc.1 hq
    have := largest_double_ge
    nlinarith
  · rw [stepsOf, power_of_nonpos 2 (by omega : -q ≤ 0), ← Nat.mul_one (m * power 2 q * _),
      roundQuotient_mul .even _ Nat.one_pos]
    push_cast
    rw [power_of_nonneg 2 hq]
    exact mul_le_mul_of_nonneg_right (magnitude_le_largest hc) hg.le

/-- A value that is rounded without too many places is rounded to decimal places. -/
theorem eq_toPlaces_of_toPlaces? {places : Nat} {x y : Binary f}
    (h : toPlaces? places x = some y) : y = x.toPlaces places := by
  unfold toPlaces? at h
  split at h
  · cases h
  · exact (Option.some.inj h).symm

theorem toPlaces?_of_le {places : Nat} (h : places ≤ maxPlaces) (x : Binary f) :
    toPlaces? places x = some (x.toPlaces places) := by
  unfold toPlaces?
  rw [if_neg]
  simp [Nat.not_lt.mpr h]

/-- Rounding to decimal places keeps a value finite. -/
theorem isFinite_toPlaces (places : Nat) {x : Double} (hx : x.isFinite) :
    (x.toPlaces places).isFinite := by
  cases x with
  | nan => cases hx
  | infinite negative => cases hx
  | finite negative m q hc =>
    rw [toPlaces_finite]
    split
    · rfl
    · exact isFinite_round _ (grid_pos places) (stepsOf_le_largest places hc)

theorem steps_quotient (places m : Nat) (q : Int) :
    ((m * power 2 q * grid places : Nat) / (power 2 (-q) : Nat) : ℚ) = m * 2 ^ q * grid places := by
  have hpower := power_div_power (by decide : 0 < 2) q
  push_cast at hpower ⊢
  rw [mul_right_comm, mul_div_assoc, hpower, mul_right_comm]

/-- The steps of a magnitude are off its multiple of the grid by one half at most. -/
theorem abs_sub_stepsOf_le (places m : Nat) (q : Int) :
    |(m * 2 ^ q * grid places : ℚ) - stepsOf places m q| ≤ 1 / 2 := by
  rw [← steps_quotient]
  exact abs_sub_roundQuotient_le .even _ (power_pos (by decide) _)

theorem stepsOf_eq_of_near {places m k : Nat} {q : Int}
    (h : |(m * 2 ^ q * grid places : ℚ) - k| < 1 / 2) : stepsOf places m q = k := by
  rw [← steps_quotient] at h
  exact roundQuotient_eq_of_near .even (power_pos (by decide) _) h

section Idempotence

variable {places : Nat} (h : places ≤ 15)
include h

private theorem grid_le : (grid places : ℚ) ≤ 10 ^ 15 := by
  have hle : grid places ≤ 10 ^ 15 :=
    Nat.pow_le_pow_right (by decide) (by rw [Int.toNat_natCast]; omega)
  exact_mod_cast hle

section Coarse

variable {m : Nat} {q : Int} (hc : Format.double.Canonical m q)
  (hcoarse : (1 : ℚ) ≤ 2 ^ q * grid places)
include hcoarse

private theorem exponent_of_coarse : -52 ≤ q := by
  by_contra hlow
  have hsmall : (2 : ℚ) ^ q ≤ 2 ^ (-53 : ℤ) := zpow_le_zpow_right₀ (by norm_num) (by omega)
  have hproduct : (2 : ℚ) ^ q * grid places ≤ 2 ^ (-53 : ℤ) * 10 ^ 15 :=
    mul_le_mul hsmall (grid_le h) (Nat.cast_nonneg _) (by positivity)
  norm_num at hproduct
  linarith

/-- A power of two with so coarse a last place is whole. -/
private theorem whole_of_coarse :
    ∃ n : ℕ, (((2 ^ 52 : ℕ) : ℚ) * 2 ^ q * grid places) = n := by
  have hq := exponent_of_coarse h hcoarse
  refine ⟨2 ^ (52 + q).toNat * grid places, ?_⟩
  have hpower : ((2 ^ (52 + q).toNat : ℕ) : ℚ) = (2 ^ 52 : ℕ) * 2 ^ q := by
    rw [Nat.cast_pow, Nat.cast_ofNat, ← zpow_natCast, Int.toNat_of_nonneg (by omega),
      zpow_add₀ (by norm_num)]
    norm_num
  rw [Nat.cast_mul, hpower]

include hc

private theorem full_of_coarse : 2 ^ 52 ≤ m := by
  refine hc.2.2.2.resolve_right fun he => ?_
  have hq := exponent_of_coarse h hcoarse
  rw [he] at hq
  exact absurd hq (by decide)

private theorem stepsOf_pos_of_coarse : 0 < stepsOf places m q := by
  have hm : (2 : ℚ) ^ 52 ≤ m := by exact_mod_cast full_of_coarse h hc hcoarse
  have hmany : (2 : ℚ) ^ 52 * 1 ≤ m * (2 ^ q * grid places) :=
    mul_le_mul hm hcoarse (by norm_num) (Nat.cast_nonneg m)
  have hpos : (0 : ℚ) < stepsOf places m q := by
    linarith [(abs_le.mp (abs_sub_stepsOf_le places m q)).2]
  exact_mod_cast hpos

/-- A value whose last place is no finer than the grid is the nearest to its decimal. -/
private theorem round_stepsOf (negative : Bool) :
    round negative (stepsOf places m q) (grid places) = finite negative m q hc := by
  have hg : (0 : ℚ) < grid places := by exact_mod_cast grid_pos places
  have hm := full_of_coarse h hc hcoarse
  have hpower : (2 : ℚ) ^ (Format.double.bits - 1 + q : ℤ) = (2 ^ 52 : ℕ) * 2 ^ q := by
    rw [show (Format.double.bits - 1 + q : ℤ) = (52 : ℕ) + q from rfl, zpow_add₀ (by norm_num),
      zpow_natCast, Nat.cast_pow, Nat.cast_ofNat]
  by_cases hwhole : ∃ n : ℕ, (m * 2 ^ q * grid places : ℚ) = n
  · -- The value is a decimal itself.
    obtain ⟨n, hn⟩ := hwhole
    have hsteps : stepsOf places m q = n := stepsOf_eq_of_near (by rw [hn]; norm_num)
    have hvalue : (stepsOf places m q / grid places : ℚ) = m * 2 ^ q := by
      rw [hsteps, ← hn, mul_div_cancel_right₀ _ hg.ne']
    refine round_eq_of_near negative (grid_pos places) hc ?_ (.inr ?_)
    · rw [hvalue, sub_self, abs_zero]
      positivity
    · rw [hvalue, hpower]
      gcongr
  · -- The value is no power of two, so its neighbours are both a last place away.
    have hstrict : (1 : ℚ) < 2 ^ q * grid places :=
      hcoarse.lt_of_ne fun he => hwhole ⟨m, by rw [mul_assoc, ← he, mul_one]⟩
    have hinside : 2 ^ 52 < m := hm.lt_of_ne fun he => hwhole (he ▸ whole_of_coarse h hcoarse)
    have hinside' : ((2 ^ 52 : ℕ) : ℚ) + 1 ≤ m := by exact_mod_cast hinside
    have hnear : |(stepsOf places m q / grid places - m * 2 ^ q : ℚ)| < 2 ^ q / 2 := by
      rw [abs_div_sub _ _ hg, abs_sub_comm, div_lt_iff₀ hg]
      linarith [abs_sub_stepsOf_le places m q]
    refine round_eq_of_near negative (grid_pos places) hc hnear (.inr ?_)
    have hu : (0 : ℚ) < 2 ^ q := by positivity
    calc (2 : ℚ) ^ (Format.double.bits - 1 + q : ℤ) = (2 ^ 52 : ℕ) * 2 ^ q := hpower
      _ ≤ (m - 1) * 2 ^ q := mul_le_mul_of_nonneg_right (by linarith) hu.le
      _ ≤ stepsOf places m q / grid places := by linarith [(abs_lt.mp hnear).1]

end Coarse

/-- The decimals with at most 15 places that values are rounded to are kept. -/
theorem toPlaces_round (negative : Bool) {k : Nat} (hk : 0 < k)
    (hle : (k / grid places : ℚ) ≤ Format.double.largest) :
    toPlaces places (round negative k (grid places) : Double) =
      round negative k (grid places) := by
  have hg : (0 : ℚ) < grid places := by exact_mod_cast grid_pos places
  obtain ⟨m, q, hc, hr, hq, hv⟩ := round_eq_finite negative (grid_pos places) hle
  rw [hr, toPlaces_finite]
  rcases lt_or_ge ((2 : ℚ) ^ q * grid places) 1 with hfine | hcoarse
  · -- The value is nearer to its decimal than to any other.
    have hoff := Format.double.abs_sub_significandOf_le k (grid_pos places)
    rw [← hv, abs_div_sub _ _ hg, div_le_iff₀ hg, abs_sub_comm] at hoff
    have hpower : (2 : ℚ) ^ Format.double.exponentOf k (grid places) ≤ 2 ^ q :=
      zpow_le_zpow_right₀ (by norm_num) hq
    have hsteps : stepsOf places m q = k := stepsOf_eq_of_near (by nlinarith)
    rw [hsteps, if_neg hk.ne', hr]
  · rw [if_neg (stepsOf_pos_of_coarse h hc hcoarse).ne', round_stepsOf h hc hcoarse]

/-- Rounding to at most 15 places again changes nothing. -/
theorem toPlaces_toPlaces (x : Double) :
    (x.toPlaces places).toPlaces places = x.toPlaces places := by
  cases x with
  | nan => rfl
  | infinite negative => rfl
  | finite negative m q hc =>
    rw [toPlaces_finite]
    split
    · have hsteps : stepsOf places 0 Format.double.minExponent = 0 :=
        stepsOf_eq_of_near (by norm_num)
      rw [zero, toPlaces_finite, if_pos hsteps]
      rfl
    · next hk =>
      exact toPlaces_round h negative (Nat.pos_of_ne_zero hk) (stepsOf_le_largest places hc)

end Idempotence

end RenderVerdict.Binary
