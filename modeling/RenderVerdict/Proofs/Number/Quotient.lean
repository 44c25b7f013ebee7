import Mathlib.Algebra.Order.Field.Basic
import Mathlib.Data.Rat.Cast.Order
import Mathlib.Tactic.FieldSimp
import Mathlib.Tactic.Linarith
import Mathlib.Tactic.Positivity
import Mathlib.Tactic.Ring
import RenderVerdict.Number.Quotient

/-! A rounded quotient lies between the natural numbers that the quotient lies between and is off by
one half at most. The pair of a scaled numerator and denominator is the quotient divided by a
power. -/
namespace RenderVerdict

variable {tie : Tie} {num den k : Nat}

theorem div_le_roundQuotient (tie : Tie) (num den : Nat) :
    num / den ≤ roundQuotient tie num den := by
  unfold roundQuotient
  cases tie <;> simp only <;> split_ifs <;> omega

theorem roundQuotient_le_succ (tie : Tie) (num den : Nat) :
    roundQuotient tie num den ≤ num / den + 1 := by
  unfold roundQuotient
  cases tie <;> simp only <;> split_ifs <;> omega

theorem roundQuotient_of_dvd (hden : 0 < den) (h : num % den = 0) :
    roundQuotient tie num den = num / den := by
  simp [roundQuotient, h, hden]

theorem roundQuotient_mul (tie : Tie) (k : Nat) (hden : 0 < den) :
    roundQuotient tie (k * den) den = k := by
  rw [roundQuotient_of_dvd hden (Nat.mul_mod_left k den), Nat.mul_div_cancel k hden]

theorem le_roundQuotient (hden : 0 < den) (h : k * den ≤ num) : k ≤ roundQuotient tie num den :=
  ((Nat.le_div_iff_mul_le hden).mpr h).trans (div_le_roundQuotient tie num den)

theorem roundQuotient_le (hden : 0 < den) (h : num ≤ k * den) : roundQuotient tie num den ≤ k := by
  have hk : num / den ≤ k := Nat.div_le_of_le_mul (by rwa [Nat.mul_comm])
  rcases hk.eq_or_lt with he | hl
  · -- The quotient is `k` itself, so nothing is left over to round.
    have hr : num % den = 0 := by
      have := Nat.div_add_mod num den
      rw [he, Nat.mul_comm] at this
      omega
    rw [roundQuotient_of_dvd hden hr, he]
  · exact (roundQuotient_le_succ tie num den).trans hl

theorem abs_div_sub (x y : ℚ) {unit : ℚ} (hu : 0 < unit) :
    |x / unit - y| = |x - y * unit| / unit := by
  rw [div_sub' hu.ne', abs_div, abs_of_pos hu, mul_comm unit y]

/-- A quotient is rounded down by half of one at most, or up by as much. -/
theorem roundQuotient_cases (tie : Tie) (num den : Nat) :
    (roundQuotient tie num den = num / den ∧ 2 * (num % den) ≤ den) ∨
      (roundQuotient tie num den = num / den + 1 ∧ den ≤ 2 * (num % den)) := by
  unfold roundQuotient
  cases tie <;> simp only <;> split_ifs <;> omega

theorem abs_sub_roundQuotient_le (tie : Tie) (num : Nat) (hden : 0 < den) :
    |(num / den : ℚ) - roundQuotient tie num den| ≤ 1 / 2 := by
  have hd : (0 : ℚ) < den := by exact_mod_cast hden
  have hnum : (num : ℚ) = den * (num / den : Nat) + (num % den : Nat) := by
    exact_mod_cast (Nat.div_add_mod num den).symm
  have hrest : (num % den : Nat) < (den : ℚ) := by exact_mod_cast Nat.mod_lt num hden
  rw [hnum, add_div, mul_div_cancel_left₀ _ hd.ne']
  rcases roundQuotient_cases tie num den with ⟨hr, hhalf⟩ | ⟨hr, hhalf⟩
  · have hhalf' : 2 * ((num % den : Nat) : ℚ) ≤ den := by exact_mod_cast hhalf
    rw [hr, add_sub_cancel_left, abs_of_nonneg (by positivity), div_le_iff₀ hd]
    linarith
  · have hhalf' : (den : ℚ) ≤ 2 * (num % den : Nat) := by exact_mod_cast hhalf
    have hlow : (1 : ℚ) / 2 ≤ (num % den : Nat) / den := by
      rw [le_div_iff₀ hd]
      linarith
    have hhigh : ((num % den : Nat) : ℚ) / den < 1 := (div_lt_one hd).mpr hrest
    rw [hr, Nat.cast_add, Nat.cast_one, abs_le]
    constructor <;> linarith

/-- A half goes to the even natural number. -/
theorem even_roundQuotient (num : Nat) (hden : 0 < den)
    (h : |(num / den : ℚ) - roundQuotient .even num den| = 1 / 2) :
    Even (roundQuotient .even num den) := by
  have hd : (0 : ℚ) < den := by exact_mod_cast hden
  have hnum : (num : ℚ) = den * (num / den : Nat) + (num % den : Nat) := by
    exact_mod_cast (Nat.div_add_mod num den).symm
  have hhalf : 2 * (num % den) = den := by
    rw [abs_div_sub _ _ hd, div_eq_iff hd.ne', hnum] at h
    rcases roundQuotient_cases .even num den with ⟨hr, hle⟩ | ⟨hr, hle⟩
    · rw [hr, mul_comm, add_sub_cancel_left, abs_of_nonneg (by positivity)] at h
      have htwice : (2 * (num % den : Nat) : ℚ) = den := by linarith
      exact_mod_cast htwice
    · have hle' : (den : ℚ) ≤ 2 * (num % den : Nat) := by exact_mod_cast hle
      have hlt : ((num % den : Nat) : ℚ) < den := by exact_mod_cast Nat.mod_lt num hden
      rw [hr, Nat.cast_add, Nat.cast_one, abs_of_nonpos (by linarith)] at h
      have htwice : (2 * (num % den : Nat) : ℚ) = den := by linarith
      exact_mod_cast htwice
  have hr : roundQuotient .even num den = num / den + num / den % 2 := by
    simp [roundQuotient, hhalf]
  rw [hr, Nat.even_iff]
  omega

/-- A quotient that is less than half of one away from a natural number is rounded to it. -/
theorem roundQuotient_eq_of_near (tie : Tie) (hden : 0 < den)
    (h : |(num / den : ℚ) - k| < 1 / 2) : roundQuotient tie num den = k := by
  have hr := abs_sub_roundQuotient_le tie num hden
  have hdist : |((roundQuotient tie num den : ℤ) - k : ℚ)| < 1 := by
    rw [abs_lt] at h ⊢
    rw [abs_le] at hr
    push_cast
    constructor <;> linarith
  have hzero : (roundQuotient tie num den : ℤ) - k = 0 :=
    Int.abs_lt_one_iff.mp (by exact_mod_cast hdist)
  omega

theorem power_pos {base : Nat} (hb : 0 < base) (e : Int) : 0 < power base e := Nat.pow_pos hb

theorem power_of_nonpos (base : Nat) {e : Int} (he : e ≤ 0) : power base e = 1 := by
  unfold power
  rw [Int.toNat_of_nonpos he]
  rfl

theorem power_of_nonneg (base : Nat) {e : Int} (he : 0 ≤ e) :
    (power base e : ℚ) = (base : ℚ) ^ e := by
  obtain ⟨n, rfl⟩ := Int.eq_ofNat_of_zero_le he
  simp [power]

/-- The two halves of a power, over each other, are the power. -/
theorem power_div_power {base : Nat} (hb : 0 < base) (e : Int) :
    (power base e : ℚ) / power base (-e) = (base : ℚ) ^ e := by
  have hb' : (base : ℚ) ≠ 0 := by exact_mod_cast hb.ne'
  obtain ⟨n, rfl | rfl⟩ := e.eq_nat_or_neg
  · simp [power]
  · simp [power]

/-- A quotient whose numerator and denominator are scaled to the place of an exponent. -/
theorem scaled_quotient (num den : Nat) (q : Int) :
    ((num * power 2 (-q) : Nat) : ℚ) / ((den * power 2 q : Nat) : ℚ) = num / den / 2 ^ q := by
  have h := power_div_power (by decide : 0 < 2) q
  push_cast at h ⊢
  rw [← h, mul_div_mul_comm, div_div_eq_mul_div, mul_div_assoc]

end RenderVerdict
