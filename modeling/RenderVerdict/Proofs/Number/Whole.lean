import RenderVerdict.Proofs.Number.Rounding

/-! Whole numbers among the values of a format: those below `2 ^ 53` in magnitude are 64-bit
values. -/
namespace RenderVerdict.Binary

variable {f : Format}

theorem toInt?_eq_some_iff {x : Binary f} {n : Int} :
    x.toInt? = some n ↔ x.isFinite ∧ x.toRat = n := by
  unfold toInt?
  rw [ite_eq_iff]
  simp only [Bool.and_eq_true, beq_iff_eq, Option.some.injEq, reduceCtorEq, and_false, or_false]
  constructor
  · rintro ⟨⟨hx, hd⟩, hn⟩
    exact ⟨hx, by rw [← hn, Rat.coe_int_num_of_den_eq_one hd]⟩
  · rintro ⟨hx, hn⟩
    rw [hn]
    exact ⟨⟨hx, Rat.den_intCast n⟩, Rat.num_intCast n⟩

theorem largest_double_ge : (2 : ℚ) ^ 53 ≤ Format.double.largest := by
  unfold Format.largest
  change (2 : ℚ) ^ 53 ≤ (2 ^ 53 - 1) * 2 ^ (971 : ℤ)
  calc (2 : ℚ) ^ 53 ≤ (2 ^ 53 - 1) * 2 ^ (1 : ℤ) := by norm_num
    _ ≤ (2 ^ 53 - 1) * 2 ^ (971 : ℤ) := by
      gcongr <;> norm_num

theorem one_le_largest_double : (1 : ℚ) ≤ Format.double.largest :=
  (by norm_num : (1 : ℚ) ≤ 2 ^ 53).trans largest_double_ge

theorem largest_double_whole : ∃ n : Nat, Format.double.largest = n := by
  refine ⟨(2 ^ 53 - 1) * 2 ^ 971, ?_⟩
  change ((2 : ℚ) ^ 53 - 1) * 2 ^ ((971 : Nat) : ℤ) = _
  rw [zpow_natCast, Nat.cast_mul, Nat.cast_sub Nat.one_le_two_pow, Nat.cast_pow, Nat.cast_pow,
    Nat.cast_ofNat, Nat.cast_one]

/-- The last place of a natural number below `2 ^ 53` is a fraction of one. -/
theorem exponentOf_natCast {n : Nat} (h : n < 2 ^ 53) : Format.double.exponentOf n 1 ≤ 0 := by
  refine Format.exponentOf_le_of_lt Nat.one_pos (by decide) ?_
  rw [Nat.cast_one, div_one]
  exact_mod_cast h

/-- A whole number below `2 ^ 53` in magnitude is a 64-bit value. -/
theorem nearest_intCast {n : Int} (h : n.natAbs < 2 ^ 53) :
    (nearest n : Double).isFinite ∧ (nearest n : Double).toRat = n := by
  have hr : (nearest n : Double) = round (n < 0) n.natAbs 1 := by
    simp [nearest]
  have hle : ((n.natAbs : ℚ) / (1 : Nat)) ≤ Format.double.largest := by
    rw [Nat.cast_one, div_one]
    exact le_trans (by exact_mod_cast h.le) largest_double_ge
  rw [hr]
  refine ⟨isFinite_round _ Nat.one_pos hle, ?_⟩
  have hk : ((n.natAbs : ℚ) / (1 : Nat)) =
      (n.natAbs * 2 ^ (-Format.double.exponentOf n.natAbs 1).toNat : Nat) *
        2 ^ Format.double.exponentOf n.natAbs 1 := by
    obtain ⟨k, hk⟩ := Int.eq_ofNat_of_zero_le (Int.neg_nonneg.mpr (exponentOf_natCast h))
    have he : Format.double.exponentOf n.natAbs 1 = -(k : ℤ) := by omega
    rw [he]
    simp
  rw [toRat_round _ Nat.one_pos hle hk, Nat.cast_one, div_one]
  by_cases hn : n < 0
  · simp [hn, abs_of_neg]
  · simp [hn, abs_of_nonneg (not_lt.mp hn)]

theorem nearest_natCast {n : Nat} (h : n < 2 ^ 53) :
    (nearest n : Double).isFinite ∧ (nearest n : Double).toRat = n := by
  rw [← Int.cast_natCast]
  exact nearest_intCast (by rwa [Int.natAbs_natCast])

end RenderVerdict.Binary
