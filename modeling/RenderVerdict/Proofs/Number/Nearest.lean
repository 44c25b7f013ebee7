import RenderVerdict.Proofs.Number.Order
import RenderVerdict.Proofs.Number.Rounding

/-! Which value of a format is nearest to a rational: no other one is nearer, and where another is as
near, the significand is even. Rounding finds that value, and there is no second one. -/
namespace RenderVerdict

variable {f : Format} {num den : Nat}

/-- A value has one canonical form only. -/
theorem Format.Canonical.unique {m n : Nat} {q t : Int} (hm : f.Canonical m q)
    (hn : f.Canonical n t) (h : (m * 2 ^ q : ℚ) = n * 2 ^ t) : m = n ∧ q = t := by
  -- Both exponents are the one that the quotient of the first form has.
  have hexponent : ∀ {k : Nat} {e : Int}, f.Canonical k e → (m * 2 ^ q : ℚ) = k * 2 ^ e →
      f.exponentOf (m * power 2 q) (power 2 (-q)) = e := by
    intro k e hk he
    have hvalue : ((m * power 2 q : Nat) / (power 2 (-q) : Nat) : ℚ) = k * 2 ^ e := by
      rw [Nat.cast_mul, mul_div_assoc, power_div_power (by decide)]
      exact_mod_cast he
    have hk1 : (k : ℚ) < 2 ^ f.bits := by exact_mod_cast hk.1
    refine Format.exponentOf_eq (power_pos (by decide) _) hk.2.1 ?_ ?_
    · rw [hvalue, zpow_add₀ (by norm_num), zpow_natCast]
      gcongr
    · refine hk.2.2.2.symm.imp_right fun hfull => ?_
      have hfull' : ((2 : ℚ) ^ (f.bits - 1)) ≤ k := by exact_mod_cast hfull
      rw [hvalue, zpow_add₀ (by norm_num), ← Nat.cast_one, ← Nat.cast_sub f.bits_pos, zpow_natCast]
      gcongr
  obtain rfl : q = t := (hexponent hm rfl).symm.trans (hexponent hn h)
  have hq : (2 : ℚ) ^ q ≠ 0 := by positivity
  exact ⟨by exact_mod_cast mul_right_cancel₀ hq h, rfl⟩

theorem Format.full_mul (f : Format) (e : Int) :
    ((2 ^ (f.bits - 1) : Nat) * 2 ^ e : ℚ) = 2 ^ (f.bits - 1 + e : ℤ) := by
  have hone : ((f.bits - 1 : Nat) : ℤ) = f.bits - 1 := Nat.cast_pred f.bits_pos
  rw [zpow_add₀ (by norm_num), ← hone, zpow_natCast]
  norm_cast

theorem Format.pow_bits (f : Format) : 2 ^ f.bits = 2 * 2 ^ (f.bits - 1) := by
  rw [← pow_succ', Nat.sub_add_cancel f.bits_pos]

theorem exists_zpow_eq_mul {e q : Int} (h : e ≤ q) :
    ∃ n : Nat, q = e + n ∧ (2 : ℚ) ^ q = 2 ^ n * 2 ^ e := by
  obtain ⟨n, hn⟩ := Int.eq_ofNat_of_zero_le (Int.sub_nonneg.mpr h)
  refine ⟨n, by omega, ?_⟩
  rw [← zpow_natCast, ← zpow_add₀ (by norm_num), ← hn, Int.sub_add_cancel]

namespace Binary

variable {x y : Binary f} {r s : ℚ}

def neg : Binary f → Binary f
  | .nan => .nan
  | .infinite negative => .infinite !negative
  | .finite negative m q canonical => .finite (!negative) m q canonical

@[simp] theorem isFinite_neg (x : Binary f) : x.neg.isFinite = x.isFinite := by
  cases x <;> rfl

@[simp] theorem toRat_neg (x : Binary f) : x.neg.toRat = -x.toRat := by
  cases x with
  | finite negative m q _ => cases negative <;> simp [neg, toRat]
  | _ => simp [neg, toRat]

theorem round_not (negative : Bool) (num den : Nat) :
    (round (!negative) num den : Binary f) = (round negative num den).neg := by
  unfold round
  dsimp only
  split_ifs <;> rfl

def HasEvenSignificand : Binary f → Prop
  | .finite _ m _ _ => Even m
  | _ => False

theorem hasEvenSignificand_neg (x : Binary f) :
    x.neg.HasEvenSignificand ↔ x.HasEvenSignificand := by
  cases x <;> rfl

/-- A finite value is nearest to a rational: no other is nearer, and if another is as near, this one
has an even significand. -/
structure IsNearest (x : Binary f) (r : ℚ) : Prop where
  isFinite : x.isFinite
  le : ∀ y : Binary f, y.isFinite → |x.toRat - r| ≤ |y.toRat - r|
  tie : ∀ y : Binary f, y.isFinite → |y.toRat - r| = |x.toRat - r| →
    y.toRat = x.toRat ∨ x.HasEvenSignificand

/-- A value is the nearest to its own number. -/
theorem isNearest_toRat (hx : x.isFinite) : x.IsNearest x.toRat where
  isFinite := hx
  le y _ := by simp
  tie y _ h := by
    rw [sub_self, abs_zero, abs_eq_zero, sub_eq_zero] at h
    exact .inl h

theorem IsNearest.neg (h : x.IsNearest r) : x.neg.IsNearest (-r) := by
  have hdist : ∀ y : Binary f, |y.neg.toRat - -r| = |y.toRat - r| := by
    intro y
    rw [toRat_neg, neg_sub_neg, abs_sub_comm]
  have hback : ∀ y : Binary f, |y.toRat - -r| = |y.neg.toRat - r| := by
    intro y
    rw [toRat_neg, sub_neg_eq_add, ← abs_neg, neg_add']
  refine ⟨x.isFinite_neg.trans h.isFinite, fun y hy => ?_, fun y hy ht => ?_⟩
  · rw [hdist, hback]
    exact h.le y.neg (y.isFinite_neg.trans hy)
  · rw [hdist, hback] at ht
    refine (h.tie y.neg (y.isFinite_neg.trans hy) ht).imp (fun he => ?_)
      x.hasEvenSignificand_neg.mpr
    rw [toRat_neg, ← he, toRat_neg, neg_neg]

theorem abs_toRat_finite (negative : Bool) {m : Nat} {q : Int} (hc : f.Canonical m q) :
    |(finite negative m q hc).toRat| = m * 2 ^ q := by
  have hq : (0 : ℚ) < 2 ^ q := by positivity
  cases negative <;> simp [toRat, abs_mul, abs_of_pos hq]

theorem abs_toRat_le_largest (x : Binary f) : |x.toRat| ≤ f.largest := by
  cases x with
  | finite negative m q hc => exact (abs_toRat_finite negative hc).trans_le (magnitude_le_largest hc)
  | _ =>
    have hzero := magnitude_le_largest f.canonical_zero
    simpa [toRat] using hzero

theorem eq_zero_of_toRat (hx : x.isFinite) (h : x.toRat = 0) : x = zero ∨ x = zero.neg := by
  cases x with
  | finite negative m q hc =>
    have hm : (m * 2 ^ q : ℚ) = (0 : Nat) * 2 ^ f.minExponent := by
      rw [← abs_toRat_finite negative hc, h]
      simp
    obtain ⟨rfl, rfl⟩ := hc.unique f.canonical_zero hm
    cases negative with
    | false => exact .inl rfl
    | true => exact .inr rfl
  | _ => cases hx

/-- But for the sign of zero a value is settled by its number. -/
theorem eq_of_toRat_eq (hx : x.isFinite) (hy : y.isFinite) (hx0 : x ≠ zero.neg)
    (hy0 : y ≠ zero.neg) (h : x.toRat = y.toRat) : x = y := by
  by_cases hzero : x.toRat = 0
  · have hxz := (eq_zero_of_toRat hx hzero).resolve_right hx0
    have hyz := (eq_zero_of_toRat hy (h ▸ hzero)).resolve_right hy0
    rw [hxz, hyz]
  · cases x with
    | finite a m q hm => cases y with
      | finite b n t hn =>
        have hsame : (m * 2 ^ q : ℚ) = n * 2 ^ t := by
          rw [← abs_toRat_finite a hm, ← abs_toRat_finite b hn, h]
        obtain ⟨rfl, rfl⟩ := hm.unique hn hsame
        by_cases hab : a = b
        · rw [hab]
        · -- With different signs the number would be its own opposite.
          obtain rfl := Bool.eq_not.mpr hab
          have hself : (finite b m q hm).toRat = -(finite b m q hm).toRat :=
            h.symm.trans (toRat_neg (finite b m q hm))
          exact absurd (h.trans (self_eq_neg.mp hself)) hzero
      | _ => cases hy
    | _ => cases hx

/-- A value is a multiple of a power of two, unless its magnitude is below the full significands
there. -/
theorem multiple_or_lt (hx : x.isFinite) (e : Int) :
    (∃ j : ℤ, x.toRat = j * 2 ^ e) ∨
      (f.minExponent < e ∧ |x.toRat| < (2 ^ (f.bits - 1) : Nat) * 2 ^ e) := by
  cases x with
  | finite negative m q hc =>
    rcases le_or_gt e q with hle | hlt
    · left
      obtain ⟨n, -, hpower⟩ := exists_zpow_eq_mul hle
      refine ⟨(if negative then -(m : ℤ) else m) * 2 ^ n, ?_⟩
      rw [toRat, hpower]
      push_cast
      ring
    · refine .inr ⟨hc.2.1.trans_lt hlt, ?_⟩
      have hm : (m : ℚ) < 2 ^ f.bits := by exact_mod_cast hc.1
      calc |(finite negative m q hc).toRat| = m * 2 ^ q := abs_toRat_finite negative hc
        _ < 2 ^ f.bits * 2 ^ q := by gcongr
        _ = 2 ^ (f.bits + q : ℤ) := by rw [zpow_add₀ (by norm_num), zpow_natCast]
        _ ≤ 2 ^ (f.bits - 1 + e : ℤ) := zpow_le_zpow_right₀ (by norm_num) (by omega)
        _ = (2 ^ (f.bits - 1) : Nat) * 2 ^ e := (f.full_mul e).symm
  | _ => cases hx

/-- Above a value that is not negative and has an even significand the next value has an odd one. -/
private theorem exists_next (hx : x.isFinite) (hy : y.isFinite) (hex : x.HasEvenSignificand)
    (hey : y.HasEvenSignificand) (h0 : 0 ≤ x.toRat) (hlt : x.toRat < y.toRat) :
    ∃ w : Binary f, w.isFinite ∧ x.toRat < w.toRat ∧ w.toRat < y.toRat := by
  cases x with
  | finite negative m q hc =>
    have hq : (0 : ℚ) < 2 ^ q := by positivity
    have hvalue : (finite negative m q hc).toRat = m * 2 ^ q := by
      rw [← abs_of_nonneg h0, abs_toRat_finite]
    have hm : Even m := hex
    have hfits : m + 1 < 2 ^ f.bits := by
      have hbits : Even (2 ^ f.bits) := Nat.even_pow.mpr ⟨even_two, f.bits_pos.ne'⟩
      have hle : m + 1 ≤ 2 ^ f.bits := hc.1
      refine hle.lt_of_ne fun he => ?_
      rw [← he] at hbits
      exact Nat.not_even_iff_odd.mpr hm.add_one hbits
    have hnext : f.Canonical (m + 1) q :=
      ⟨hfits, hc.2.1, hc.2.2.1, hc.2.2.2.imp_left fun h => h.trans (Nat.le_succ m)⟩
    have hbelow : (m * 2 ^ q : ℚ) < (m + 1 : Nat) * 2 ^ q := by
      gcongr
      exact m.lt_succ_self
    have hw : (finite false (m + 1) q hnext).toRat = (m + 1 : Nat) * 2 ^ q := rfl
    refine ⟨finite false (m + 1) q hnext, rfl, by rwa [hvalue, hw], ?_⟩
    rw [hvalue] at hlt
    rw [hw]
    -- The greater value is a multiple of the same power, and not the next one.
    rcases multiple_or_lt hy q with ⟨j, hj⟩ | ⟨hmin, hsmall⟩
    · rw [hj] at hlt ⊢
      have hmj : (m : ℤ) < j := by exact_mod_cast lt_of_mul_lt_mul_right hlt hq.le
      have hne : j ≠ (m + 1 : Nat) := by
        rintro rfl
        cases y with
        | finite other n t hn =>
          have hn' : (n * 2 ^ t : ℚ) = (m + 1 : Nat) * 2 ^ q := by
            rw [← abs_toRat_finite other hn, hj, abs_of_nonneg (by positivity)]
            norm_cast
          obtain ⟨rfl, -⟩ := hn.unique hnext hn'
          exact Nat.not_even_iff_odd.mpr hm.add_one hey
        | _ => cases hy
      have hlarge : ((m + 1 : Nat) : ℤ) < j := by omega
      gcongr
      exact_mod_cast hlarge
    · have hfull : 2 ^ (f.bits - 1) ≤ m := hc.2.2.2.resolve_right hmin.ne'
      have hle : ((2 ^ (f.bits - 1) : Nat) * 2 ^ q : ℚ) ≤ m * 2 ^ q := by gcongr
      exact absurd (hlt.trans_le (le_abs_self _)) (not_lt.mpr (hsmall.le.trans hle))
  | _ => cases hx

/-- Between two values with even significands there is another. -/
theorem exists_between_of_even (hx : x.isFinite) (hy : y.isFinite) (hex : x.HasEvenSignificand)
    (hey : y.HasEvenSignificand) (hlt : x.toRat < y.toRat) :
    ∃ w : Binary f, w.isFinite ∧ x.toRat < w.toRat ∧ w.toRat < y.toRat := by
  rcases le_or_gt 0 x.toRat with h0 | h0
  · exact exists_next hx hy hex hey h0 hlt
  · rcases le_or_gt y.toRat 0 with h1 | h1
    · obtain ⟨w, hw, hyw, hwx⟩ := exists_next (y.isFinite_neg.trans hy) (x.isFinite_neg.trans hx)
        (y.hasEvenSignificand_neg.mpr hey) (x.hasEvenSignificand_neg.mpr hex)
        (by rw [toRat_neg]; linarith) (by rw [toRat_neg, toRat_neg]; linarith)
      rw [toRat_neg] at hyw hwx
      exact ⟨w.neg, w.isFinite_neg.trans hw, by rw [toRat_neg]; linarith,
        by rw [toRat_neg]; linarith⟩
    · exact ⟨zero, rfl, by rwa [toRat_zero], by rwa [toRat_zero]⟩

private theorem IsNearest.not_below (hx : x.IsNearest r) (hy : y.IsNearest r) :
    ¬ x.toRat < y.toRat := by
  intro hlt
  have hdist : |x.toRat - r| = |y.toRat - r| :=
    le_antisymm (hx.le y hy.isFinite) (hy.le x hx.isFinite)
  have hex := (hx.tie y hy.isFinite hdist.symm).resolve_left hlt.ne'
  have hey := (hy.tie x hx.isFinite hdist).resolve_left hlt.ne
  obtain ⟨w, hw, hxw, hwy⟩ := exists_between_of_even hx.isFinite hy.isFinite hex hey hlt
  -- The rational is halfway between the two, so what is between them is nearer.
  have hmiddle : x.toRat - r = -(y.toRat - r) :=
    (abs_eq_abs.mp hdist).resolve_left fun h => hlt.ne (sub_left_injective h)
  have hxr : |x.toRat - r| = r - x.toRat := by
    rw [abs_of_nonpos (by linarith)]
    ring
  have hnearer : |w.toRat - r| < r - x.toRat := abs_lt.mpr ⟨by linarith, by linarith⟩
  exact absurd (hx.le w hw) (not_le.mpr (hxr ▸ hnearer))

/-- Only one number is nearest. -/
theorem IsNearest.unique (hx : x.IsNearest r) (hy : y.IsNearest r) : x.toRat = y.toRat :=
  le_antisymm (not_lt.mp (hy.not_below hx)) (not_lt.mp (hx.not_below hy))

/-- Nearest values are in the order of what they are nearest to. -/
theorem IsNearest.mono (hx : x.IsNearest r) (hy : y.IsNearest s) (h : r ≤ s) :
    x.toRat ≤ y.toRat := by
  rcases h.eq_or_lt with rfl | hlt
  · exact (hx.unique hy).le
  · by_contra hyx
    rw [not_le] at hyx
    have h1 := hx.le y hy.isFinite
    have h2 := hy.le x hx.isFinite
    rw [← sq_le_sq] at h1 h2
    nlinarith

/-- The largest value is nearest to all that is beyond it. -/
private theorem IsNearest.eq_largest (hx : x.IsNearest r) (h : f.largest < r) :
    x.toRat = f.largest := by
  have hpos : 1 ≤ 2 ^ (f.bits - 1) := Nat.one_le_two_pow
  have hdouble := f.pow_bits
  have hc : f.Canonical (2 ^ f.bits - 1) f.maxExponent :=
    ⟨Nat.sub_lt (Nat.two_pow_pos _) Nat.one_pos, f.ordered, le_rfl, .inl (by
      change 2 ^ (f.bits - 1) ≤ _
      omega)⟩
  have hw : (finite false _ _ hc).toRat = f.largest := by
    have hone : 1 ≤ 2 ^ f.bits := Nat.one_le_two_pow
    change (((2 ^ f.bits - 1 : Nat) : ℤ) : ℚ) * 2 ^ f.maxExponent = _
    push_cast [hone]
    rfl
  have hle : x.toRat ≤ f.largest := (le_abs_self _).trans (abs_toRat_le_largest x)
  have hnear := hx.le (finite false _ _ hc) rfl
  rw [hw, abs_of_nonpos (by linarith), abs_of_nonpos (by linarith)] at hnear
  linarith

theorem IsNearest.abs_eq_largest (hx : x.IsNearest r) (h : f.largest < |r|) :
    |x.toRat| = f.largest := by
  have hnonneg : 0 ≤ f.largest := (abs_nonneg _).trans (abs_toRat_le_largest x)
  rcases lt_abs.mp h with h | h
  · rw [hx.eq_largest h, abs_of_nonneg hnonneg]
  · have hneg := hx.neg.eq_largest h
    rw [toRat_neg] at hneg
    rw [← abs_neg, hneg, abs_of_nonneg hnonneg]

/-- A number that is off a multiple by half a step at most is nearer to it than to other multiples,
or it is halfway between two. -/
private theorem dist_multiple {u : ℚ} (hu : 0 < u) {k j : ℤ} (hk : |r - k * u| ≤ u / 2)
    (hne : j ≠ k) : |k * u - r| ≤ |j * u - r| ∧
      (|j * u - r| = |k * u - r| → |r - k * u| = u / 2) := by
  have hstep : u ≤ |j * u - k * u| := by
    have hone : (1 : ℚ) ≤ |(j : ℚ) - k| := by exact_mod_cast Int.one_le_abs (sub_ne_zero.mpr hne)
    rw [← sub_mul, abs_mul, abs_of_pos hu]
    exact le_mul_of_one_le_left hu.le hone
  have htriangle : |j * u - k * u| ≤ |j * u - r| + |r - k * u| := abs_sub_le _ _ _
  rw [abs_sub_comm (k * u) r]
  exact ⟨by linarith, fun h => by linarith⟩

/-- What a quotient is rounded to has an even significand if the quotient is halfway between two
multiples of the last place. -/
private theorem hasEvenSignificand_round (hbits : 1 < f.bits) (hd : 0 < den)
    (h : (num / den : ℚ) ≤ f.largest)
    (hhalf : |(num / den : ℚ) - f.significandOf num den * 2 ^ f.exponentOf num den| =
      2 ^ f.exponentOf num den / 2) :
    (round false num den : Binary f).HasEvenSignificand := by
  obtain ⟨m, q, hc, hr, hle, hv⟩ := round_eq_finite false hd h
  have heven := f.even_significandOf hd hhalf
  rw [hr]
  change Even m
  obtain ⟨n, hn, hpower⟩ := exists_zpow_eq_mul hle
  have hs : m * 2 ^ n = f.significandOf num den := by
    have he : (2 : ℚ) ^ f.exponentOf num den ≠ 0 := by positivity
    rw [hpower, ← mul_assoc] at hv
    exact_mod_cast mul_right_cancel₀ he hv
  rcases Nat.eq_zero_or_pos n with rfl | hpos
  · rwa [← hs, pow_zero, Nat.mul_one] at heven
  · -- A carry leads to the least full significand.
    have hfull : 2 ^ (f.bits - 1) ≤ m := hc.2.2.2.resolve_right (by
      have := f.minExponent_le_exponentOf num den
      omega)
    have htwo : 2 * m ≤ 2 ^ f.bits := by
      calc 2 * m ≤ 2 ^ n * m := Nat.mul_le_mul_right m (Nat.le_self_pow hpos.ne' 2)
        _ = f.significandOf num den := by rw [Nat.mul_comm, hs]
        _ ≤ 2 ^ f.bits := f.significandOf_le num hd
    have hm : m = 2 ^ (f.bits - 1) := by
      have := f.pow_bits
      omega
    rw [hm]
    exact Nat.even_pow.mpr ⟨even_two, by omega⟩

private theorem isNearest_round_false (hbits : 1 < f.bits) (hd : 0 < den)
    (h : (num / den : ℚ) ≤ f.largest) :
    (round false num den : Binary f).IsNearest (num / den) := by
  obtain ⟨m, q, hc, hr, -, hv⟩ := round_eq_finite false hd h
  have hu : (0 : ℚ) < 2 ^ f.exponentOf num den := by positivity
  have hnear := f.abs_sub_significandOf_le num hd
  have hvalue : (round false num den : Binary f).toRat =
      (f.significandOf num den : ℤ) * 2 ^ f.exponentOf num den := by
    rw [hr, Int.cast_natCast, ← hv]
    rfl
  have heven := hasEvenSignificand_round hbits hd h
  rw [← Int.cast_natCast (f.significandOf num den)] at hnear heven
  have hmultiple : ∀ {z : ℚ} {j : ℤ}, z = j * 2 ^ f.exponentOf num den →
      |(round false num den : Binary f).toRat - num / den| ≤ |z - num / den| ∧
      (|z - num / den| = |(round false num den : Binary f).toRat - num / den| →
        z = (round false num den : Binary f).toRat ∨
          (round false num den : Binary f).HasEvenSignificand) := by
    rintro z j rfl
    rw [hvalue]
    by_cases hj : j = f.significandOf num den
    · subst hj
      exact ⟨le_rfl, fun _ => .inl rfl⟩
    · obtain ⟨hle, htie⟩ := dist_multiple hu hnear hj
      exact ⟨hle, fun ht => .inr (heven (htie ht))⟩
  have hall : ∀ y : Binary f, y.isFinite →
      |(round false num den : Binary f).toRat - num / den| ≤ |y.toRat - num / den| ∧
      (|y.toRat - num / den| = |(round false num den : Binary f).toRat - num / den| →
        y.toRat = (round false num den : Binary f).toRat ∨
          (round false num den : Binary f).HasEvenSignificand) := by
    intro y hy
    rcases multiple_or_lt hy (f.exponentOf num den) with ⟨j, hj⟩ | ⟨hmin, hsmall⟩
    · exact hmultiple hj
    · -- A value below the full significands is farther than the least of them.
      obtain ⟨hleast, -⟩ := hmultiple (j := (2 ^ (f.bits - 1) : Nat)) rfl
      have hfull := (f.exponentOf_spec num hd).2.resolve_left hmin.ne'
      rw [← f.full_mul] at hfull
      have hy := (abs_lt.mp hsmall).2
      have hfarther : |(((2 ^ (f.bits - 1) : Nat) : ℤ) * 2 ^ f.exponentOf num den : ℚ) - num / den| <
          |y.toRat - num / den| := by
        rw [Int.cast_natCast, abs_of_nonpos (by linarith), abs_of_neg (by linarith)]
        linarith
      exact ⟨(hleast.trans_lt hfarther).le, fun ht => absurd ht (hleast.trans_lt hfarther).ne'⟩
  exact ⟨isFinite_round false hd h, fun y hy => (hall y hy).1, fun y hy => (hall y hy).2⟩

/-- A quotient within the range of a format is rounded to the nearest value. -/
theorem isNearest_round (hbits : 1 < f.bits) (negative : Bool) (hd : 0 < den)
    (h : (num / den : ℚ) ≤ f.largest) : (round negative num den : Binary f).IsNearest
      ((if negative then -1 else 1) * (num / den)) := by
  have hfalse := isNearest_round_false hbits hd h
  cases negative with
  | false => simpa using hfalse
  | true =>
    have hneg := hfalse.neg
    rw [← round_not] at hneg
    simpa using hneg

theorem nearest_eq_round (r : ℚ) : (nearest r : Binary f) = round (r < 0) r.num.natAbs r.den := rfl

theorem abs_eq_quotient (r : ℚ) : |r| = (r.num.natAbs / r.den : ℚ) :=
  calc |r| = |(r.num / r.den : ℚ)| := by rw [Rat.num_div_den]
    _ = r.num.natAbs / r.den := by rw [abs_div, Nat.abs_cast, Nat.cast_natAbs, Int.cast_abs]

/-- A rational within the range of a format is rounded to the nearest value. -/
theorem isNearest_nearest (hbits : 1 < f.bits) (h : |r| ≤ f.largest) :
    (nearest r : Binary f).IsNearest r := by
  rw [abs_eq_quotient] at h
  have hround := isNearest_round hbits (r < 0) r.den_pos h
  rw [← abs_eq_quotient, ← nearest_eq_round] at hround
  rcases lt_or_ge r 0 with hneg | hpos
  · simpa [hneg, abs_of_neg hneg] using hround
  · simpa [not_lt.mpr hpos, abs_of_nonneg hpos] using hround

end Binary

end RenderVerdict
