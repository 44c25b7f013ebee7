import RenderVerdict.Proofs.Number.Nearest
import RenderVerdict.Proofs.Number.Whole

/-! How far the nearest value is from a rational, and which rationals up to one stay apart when both
are rounded: fractions with small denominators do. -/
namespace RenderVerdict.Binary

variable {f : Format} {r s : ℚ}

/-- A nearest value is off by half of the last place at most. -/
theorem IsNearest.abs_sub_le {x : Binary f} (hx : x.IsNearest r) (h0 : 0 ≤ r)
    (hle : r ≤ f.largest) {q : ℤ} (hmin : f.minExponent ≤ q) (hlt : r < 2 ^ (f.bits + q)) :
    |x.toRat - r| ≤ 2 ^ q / 2 := by
  obtain ⟨num, den, hd, rfl⟩ : ∃ num den : Nat, 0 < den ∧ r = num / den :=
    ⟨r.num.natAbs, r.den, r.den_pos, (abs_of_nonneg h0).symm.trans (abs_eq_quotient r)⟩
  obtain ⟨m, e, hc, hround, -, hvalue⟩ := round_eq_finite (f := f) false hd hle
  have htoRat : (round false num den : Binary f).toRat = m * 2 ^ e := by
    rw [hround]
    rfl
  calc |x.toRat - num / den| ≤ |(round false num den : Binary f).toRat - num / den| :=
        hx.le _ (isFinite_round false hd hle)
    _ = |(num / den : ℚ) - f.significandOf num den * 2 ^ f.exponentOf num den| := by
      rw [htoRat, hvalue, abs_sub_comm]
    _ ≤ 2 ^ f.exponentOf num den / 2 := f.abs_sub_significandOf_le num hd
    _ ≤ 2 ^ q / 2 := by
      gcongr
      · norm_num
      · exact Format.exponentOf_le_of_lt hd hmin hlt

variable {x y : Double}

theorem IsNearest.eq_zero (hx : x.IsNearest 0) : x.toRat = 0 := by
  have h := isNearest_toRat (x := (zero : Double)) rfl
  rw [toRat_zero] at h
  exact (hx.unique h).trans toRat_zero

theorem IsNearest.eq_one (hx : x.IsNearest 1) : x.toRat = 1 := by
  have hone := nearest_intCast (n := 1) (by decide)
  rw [Int.cast_one] at hone
  have h := isNearest_toRat hone.1
  rw [hone.2] at h
  exact (hx.unique h).trans hone.2

/-- Up to one a nearest 64-bit value is off by a quarter of `2 ^ -52` at most. -/
theorem IsNearest.abs_sub_le_of_le_one (hx : x.IsNearest r) (h0 : 0 ≤ r) (h1 : r ≤ 1) :
    |x.toRat - r| ≤ 2 ^ (-54 : ℤ) := by
  rcases h1.eq_or_lt with rfl | hlt
  · rw [hx.eq_one]
    norm_num
  · have h := hx.abs_sub_le h0 (h1.trans one_le_largest_double) (q := -53) (by decide) (by
      change r < 2 ^ (((53 : Nat) : ℤ) + -53)
      norm_num
      exact hlt)
    norm_num at h ⊢
    exact h

/-- Rationals up to one that are `2 ^ -52` apart have different nearest 64-bit values. -/
theorem IsNearest.lt_of_apart (hx : x.IsNearest r) (hy : y.IsNearest s) (h0 : 0 ≤ r) (h1 : s ≤ 1)
    (hapart : 2 ^ (-52 : ℤ) ≤ s - r) : x.toRat < y.toRat := by
  have hpos : (0 : ℚ) < 2 ^ (-52 : ℤ) := by positivity
  have hxr := (abs_le.mp (hx.abs_sub_le_of_le_one h0 (by linarith))).2
  have hys := (abs_le.mp (hy.abs_sub_le_of_le_one (by linarith) h1)).1
  have hquarter : (2 : ℚ) ^ (-54 : ℤ) = 2 ^ (-52 : ℤ) / 4 := by norm_num
  rw [hquarter] at hxr hys
  generalize (2 : ℚ) ^ (-52 : ℤ) = step at *
  linarith

/-- Fractions with small denominators are apart. -/
theorem apart_of_lt {a b k n : Nat} (hb : 0 < b) (hn : 0 < n) (hsmall : n * b ≤ 2 ^ 52)
    (hlt : (k / n : ℚ) < a / b) : 2 ^ (-52 : ℤ) ≤ (a / b - k / n : ℚ) := by
  have hb' : (0 : ℚ) < b := by exact_mod_cast hb
  have hn' : (0 : ℚ) < n := by exact_mod_cast hn
  have hcross : k * b + 1 ≤ a * n := by
    rw [div_lt_div_iff₀ hn' hb'] at hlt
    exact_mod_cast hlt
  have hcross' : (1 : ℚ) ≤ a * n - k * b := by
    have : ((k * b + 1 : Nat) : ℚ) ≤ (a * n : Nat) := by exact_mod_cast hcross
    push_cast at this
    linarith
  have hsmall' : (n * b : ℚ) ≤ 2 ^ 52 := by exact_mod_cast hsmall
  have hdiff : (a / b - k / n : ℚ) = (a * n - k * b) / (n * b) := by
    field_simp
  calc (2 : ℚ) ^ (-52 : ℤ) = 1 / 2 ^ 52 := by norm_num
    _ ≤ (a * n - k * b) / (n * b) := by gcongr
    _ = a / b - k / n := hdiff.symm

/-- The nearest 64-bit values of fractions up to one with small denominators are in the order of the
fractions. -/
theorem IsNearest.lt_iff_of_fractions {a b k n : Nat} (hx : x.IsNearest (k / n))
    (hy : y.IsNearest (a / b)) (hb : 0 < b) (hab : a ≤ b) (hn : 0 < n) (hsmall : n * b ≤ 2 ^ 52) :
    x.toRat < y.toRat ↔ k * b < a * n := by
  have hb' : (0 : ℚ) < b := by exact_mod_cast hb
  have hn' : (0 : ℚ) < n := by exact_mod_cast hn
  have horder : (k / n : ℚ) < a / b ↔ k * b < a * n := by
    rw [div_lt_div_iff₀ hn' hb']
    norm_cast
  rw [← horder]
  constructor
  · intro h
    by_contra hle
    exact absurd (hy.mono hx (not_lt.mp hle)) (not_le.mpr h)
  · intro h
    have hone : (a / b : ℚ) ≤ 1 := (div_le_one hb').mpr (by exact_mod_cast hab)
    exact hx.lt_of_apart hy (by positivity) hone (apart_of_lt hb hn hsmall h)

end RenderVerdict.Binary
