import RenderVerdict.Proofs.Number.Nearest
import RenderVerdict.Proofs.Number.Order
import RenderVerdict.Proofs.Number.Places

/-! Rounding to decimal places as two roundings of exact numbers: to the nearest decimal, and from
there to the nearest value. Decimals with at most 15 places come through, the order of values is
kept, and values that are more than one last place apart stay apart. -/
namespace RenderVerdict

/-- An integer is nearest to a rational; of two that are equally near it is the even one. -/
structure NearestInt (r : ℚ) (k : ℤ) : Prop where
  near : |r - k| ≤ 1 / 2
  tie : |r - k| = 1 / 2 → Even k

namespace NearestInt

variable {r s : ℚ} {k l : ℤ}

theorem neg (h : NearestInt r k) : NearestInt (-r) (-k) := by
  have hdist : |-r - (-k : ℤ)| = |r - k| := by
    rw [Int.cast_neg, neg_sub_neg, abs_sub_comm]
  exact ⟨hdist ▸ h.near, fun ht => (h.tie (hdist ▸ ht)).neg⟩

/-- Two neighbours cannot both be an even half away from where they meet. -/
theorem mono (hr : NearestInt r k) (hs : NearestInt s l) (hle : r ≤ s) : k ≤ l := by
  by_contra hlt
  have hkl : (l : ℚ) + 1 ≤ k := by exact_mod_cast (not_le.mp hlt)
  have h1 := abs_le.mp hr.near
  have h2 := abs_le.mp hs.near
  have hk : Even k := hr.tie (by rw [abs_of_nonpos] <;> linarith)
  have hl : Even l := hs.tie (by rw [abs_of_nonneg] <;> linarith)
  have hnext : k = l + 1 := by exact_mod_cast (by linarith : (k : ℚ) = l + 1)
  rw [hnext] at hk
  exact Int.not_even_iff_odd.mpr hl.add_one hk

theorem unique (hk : NearestInt r k) (hl : NearestInt r l) : k = l :=
  le_antisymm (hk.mono hl le_rfl) (hl.mono hk le_rfl)

end NearestInt

namespace Binary

variable {places : Nat} {x y : Double} {k l : ℤ}

/-- The decimal that a magnitude is rounded to is the nearest. -/
theorem nearestInt_stepsOf (places m : Nat) (q : Int) :
    NearestInt (m * 2 ^ q * grid places) (stepsOf places m q) where
  near := by
    rw [Int.cast_natCast]
    exact abs_sub_stepsOf_le places m q
  tie h := by
    rw [Int.cast_natCast, ← steps_quotient] at h
    exact (Int.even_coe_nat _).mpr (even_roundQuotient _ (power_pos (by decide) _) h)

/-- The steps of a value with its sign are the nearest integer to its multiple of the grid. -/
private theorem nearestInt_signed (places : Nat) (negative : Bool) {m : Nat} {q : Int}
    (hc : Format.double.Canonical m q) :
    NearestInt ((finite negative m q hc).toRat * grid places)
      (if negative then -(stepsOf places m q : ℤ) else stepsOf places m q) := by
  have h := nearestInt_stepsOf places m q
  cases negative with
  | false => simpa [toRat] using h
  | true => simpa [toRat, neg_mul] using h.neg

/-- What a value is rounded to depends on its nearest decimal only. -/
theorem toPlaces_eq (hx : x.isFinite) (h : NearestInt (x.toRat * grid places) k) :
    x.toPlaces places = if k = 0 then zero else round (k < 0) k.natAbs (grid places) := by
  cases x with
  | finite negative m q hc =>
    obtain rfl := h.unique (nearestInt_signed places negative hc)
    rw [toPlaces_finite]
    cases negative with
    | false => simp [not_lt.mpr (Int.natCast_nonneg (stepsOf places m q))]
    | true =>
      by_cases hs : stepsOf places m q = 0
      · simp [hs]
      · simp [hs, Nat.pos_of_ne_zero hs]
  | _ => cases hx

/-- A finite value is rounded to the nearest decimal with the given places, and that to the nearest
value. -/
theorem toPlaces_spec (places : Nat) (hx : x.isFinite) :
    ∃ k : ℤ, NearestInt (x.toRat * grid places) k ∧
      (k.natAbs / grid places : ℚ) ≤ Format.double.largest ∧
      (x.toPlaces places).IsNearest (k / grid places) := by
  cases x with
  | finite negative m q hc =>
    have h := nearestInt_signed places negative hc
    have hle := stepsOf_le_largest places hc
    refine ⟨_, h, ?_, ?_⟩
    · cases negative <;> simpa using hle
    · rw [toPlaces_finite]
      split
      · next hs =>
        simp only [hs, Nat.cast_zero, neg_zero, ite_self, Int.cast_zero, zero_div]
        rw [← toRat_zero (f := .double)]
        exact isNearest_toRat rfl
      · have hn := isNearest_round (by decide) negative (grid_pos places) hle
        cases negative <;> simpa [neg_div] using hn
  | _ => cases hx

theorem grid_eq (h : places ≤ 15) : (grid places : ℚ) = 10 ^ places := by
  have hmin : min places Format.double.minExponent.natAbs = places :=
    Nat.min_eq_left (h.trans (by decide))
  rw [grid, hmin, power_of_nonneg 10 (Int.natCast_nonneg places), zpow_natCast, Nat.cast_ofNat]

private theorem abs_sub_mul_grid (places : Nat) (a b : ℚ) :
    |a - b| * grid places = |a * grid places - b * grid places| := by
  have hg : (0 : ℚ) < grid places := by exact_mod_cast grid_pos places
  rw [← sub_mul, abs_mul, abs_of_pos hg]

/-- What is nearest to a decimal is nearest to it on the grid. -/
theorem IsNearest.le_on_grid (h : x.IsNearest (k / grid places)) (hy : y.isFinite) :
    |x.toRat * grid places - k| ≤ |y.toRat * grid places - k| := by
  have hg : (0 : ℚ) < grid places := by exact_mod_cast grid_pos places
  have hle := mul_le_mul_of_nonneg_right (h.le y hy) hg.le
  rwa [abs_sub_mul_grid, abs_sub_mul_grid, div_mul_cancel₀ _ hg.ne'] at hle

/-- Two values that have a rounded value in common have the same nearest decimal. -/
private theorem le_of_common {X Y Z : ℚ} (hk : NearestInt X k) (hl : NearestInt Y l)
    (hZk : |Z - k| ≤ |X - k|) (hZl : |Z - l| ≤ |Y - l|) : k ≤ l := by
  by_contra hlt
  have hkl : (l : ℚ) + 1 ≤ k := by exact_mod_cast (not_le.mp hlt)
  have hX := hk.near
  have hY := hl.near
  have h1 := abs_le.mp (hZk.trans hX)
  have h2 := abs_le.mp (hZl.trans hY)
  -- The common value is halfway between neighbours, and so is each of the two: both are even.
  have hZ1 : |Z - k| = 1 / 2 := by rw [abs_of_nonpos] <;> linarith
  have hZ2 : |Z - l| = 1 / 2 := by rw [abs_of_nonneg] <;> linarith
  have heven : Even k := hk.tie (by linarith)
  have heven' : Even l := hl.tie (by linarith)
  have hnext : k = l + 1 := by exact_mod_cast (by linarith : (k : ℚ) = l + 1)
  rw [hnext] at heven
  exact Int.not_even_iff_odd.mpr heven'.add_one heven

/-- Values are rounded to the same number only if they have the same nearest decimal. -/
theorem nearestInt_eq (hx : x.isFinite) (hy : y.isFinite)
    (hk : NearestInt (x.toRat * grid places) k) (hl : NearestInt (y.toRat * grid places) l)
    (h : (x.toPlaces places).toRat = (y.toPlaces places).toRat) : k = l := by
  obtain ⟨k', hk', -, hxn⟩ := toPlaces_spec places hx
  obtain ⟨l', hl', -, hyn⟩ := toPlaces_spec places hy
  obtain rfl := hk.unique hk'
  obtain rfl := hl.unique hl'
  have hxk := hxn.le_on_grid hx
  have hyl := hyn.le_on_grid hy
  rw [← h] at hyl
  exact le_antisymm (le_of_common hk hl hxk hyl) (le_of_common hl hk hyl hxk)

theorem abs_sub_toPlaces_le (places : Nat) (hx : x.isFinite) :
    |(x.toPlaces places).toRat - x.toRat| ≤ 1 / grid places := by
  obtain ⟨k, hk, -, hn⟩ := toPlaces_spec places hx
  have hg : (0 : ℚ) < grid places := by exact_mod_cast grid_pos places
  have hrounded := (hn.le_on_grid hx).trans hk.near
  have hexact := hk.near
  rw [le_div_iff₀ hg, abs_sub_mul_grid]
  rw [abs_le] at hrounded hexact ⊢
  constructor <;> linarith

theorem toRat_toPlaces_mono (places : Nat) (hx : x.isFinite) (hy : y.isFinite)
    (h : x.toRat ≤ y.toRat) : (x.toPlaces places).toRat ≤ (y.toPlaces places).toRat := by
  obtain ⟨k, hk, -, hxn⟩ := toPlaces_spec places hx
  obtain ⟨l, hl, -, hyn⟩ := toPlaces_spec places hy
  have hg : (0 : ℚ) < grid places := by exact_mod_cast grid_pos places
  have hkl : (k : ℚ) ≤ l := by
    exact_mod_cast hk.mono hl (mul_le_mul_of_nonneg_right h hg.le)
  exact hxn.mono hyn (div_le_div_of_nonneg_right hkl hg.le)

theorem toRat_toPlaces_neg (places : Nat) (hx : x.isFinite) :
    (x.neg.toPlaces places).toRat = -(x.toPlaces places).toRat := by
  cases x with
  | finite negative m q hc =>
    rw [neg, toPlaces_finite, toPlaces_finite]
    split
    · simp
    · rw [round_not, toRat_neg]
  | _ => cases hx

/-- Values more than one place apart are rounded to different numbers. -/
theorem toPlaces_separates (places : Nat) (hx : x.isFinite) (hy : y.isFinite)
    (h : 1 / grid places < |x.toRat - y.toRat|) :
    (x.toPlaces places).toRat ≠ (y.toPlaces places).toRat := by
  intro hsame
  obtain ⟨k, hk, -, -⟩ := toPlaces_spec places hx
  obtain ⟨l, hl, -, -⟩ := toPlaces_spec places hy
  obtain rfl := nearestInt_eq hx hy hk hl hsame
  have hg : (0 : ℚ) < grid places := by exact_mod_cast grid_pos places
  have h1 := abs_le.mp hk.near
  have h2 := abs_le.mp hl.near
  rw [div_lt_iff₀ hg, abs_sub_mul_grid] at h
  exact absurd (abs_le.mpr ⟨by linarith, by linarith⟩) (not_le.mpr h)

/-- Negative zero is rounded to zero. -/
theorem toPlaces_zero_neg (places : Nat) : (zero.neg : Double).toPlaces places = zero := by
  have h : NearestInt ((zero.neg : Double).toRat * grid places) 0 := by
    rw [toRat_neg, toRat_zero, neg_zero, zero_mul]
    exact ⟨by norm_num, fun _ => Even.zero⟩
  rw [toPlaces_eq rfl h, if_pos rfl]

/-- Values with the same number are rounded to the same value. -/
theorem toPlaces_congr (places : Nat) (hx : x.isFinite) (hy : y.isFinite)
    (h : x.toRat = y.toRat) : x.toPlaces places = y.toPlaces places := by
  obtain ⟨k, hk, -, -⟩ := toPlaces_spec places hx
  rw [toPlaces_eq hx hk, toPlaces_eq hy (h ▸ hk)]

section FixedPoints

variable (h : places ≤ 15)
include h

theorem toPlaces_ne_neg_zero (x : Double) : x.toPlaces places ≠ zero.neg := by
  intro hz
  have hkept := toPlaces_toPlaces h x
  rw [hz, toPlaces_zero_neg] at hkept
  cases hkept

/-- A value that is nearest to a decimal within the range of values is kept. -/
private theorem toPlaces_eq_self_of_le (hx : x.IsNearest (k / grid places)) (hz : x ≠ zero.neg)
    (hle : (k.natAbs / grid places : ℚ) ≤ Format.double.largest) : x.toPlaces places = x := by
  obtain ⟨z, hkept, hzn⟩ :
      ∃ z : Double, z.toPlaces places = z ∧ z.IsNearest (k / grid places) := by
    by_cases hk : k = 0
    · refine ⟨zero, ?_, ?_⟩
      · rw [← toPlaces_zero_neg places, toPlaces_toPlaces h]
      · rw [hk, Int.cast_zero, zero_div, ← toRat_zero (f := .double)]
        exact isNearest_toRat rfl
    · refine ⟨round (k < 0) k.natAbs (grid places), ?_, ?_⟩
      · exact toPlaces_round h _ (Int.natAbs_pos.mpr hk) hle
      · have hn := isNearest_round (by decide) (k < 0) (grid_pos places) hle
        have hsign : ((if decide (k < 0) then -1 else 1) * (k.natAbs / grid places) : ℚ) =
            k / grid places := by
          rw [← mul_div_assoc, Nat.cast_natAbs]
          rcases lt_or_ge k 0 with hneg | hpos
          · simp [hneg, abs_of_neg hneg]
          · simp [not_lt.mpr hpos, abs_of_nonneg hpos]
        rwa [hsign] at hn
  have hsame : x.toPlaces places = z :=
    (toPlaces_congr places hx.isFinite hzn.isFinite (hx.unique hzn)).trans hkept
  have hz' : z ≠ zero.neg := hkept ▸ toPlaces_ne_neg_zero h z
  rw [hsame]
  exact (eq_of_toRat_eq hx.isFinite hzn.isFinite hz hz' (hx.unique hzn)).symm

/-- The values that are kept are those that are nearest to a decimal. -/
theorem toPlaces_eq_self_iff (hx : x.isFinite) (hz : x ≠ zero.neg) :
    x.toPlaces places = x ↔ ∃ n : ℤ, x.IsNearest (n / grid places) := by
  have hg : (0 : ℚ) < grid places := by exact_mod_cast grid_pos places
  constructor
  · intro hkept
    obtain ⟨k, -, -, hn⟩ := toPlaces_spec places hx
    exact ⟨k, hkept ▸ hn⟩
  · rintro ⟨n, hn⟩
    have habs : ∀ k : ℤ, (k.natAbs / grid places : ℚ) = |(k / grid places : ℚ)| := fun k => by
      rw [Nat.cast_natAbs, abs_div, abs_of_pos hg, Int.cast_abs]
    rcases le_or_gt |(n / grid places : ℚ)| Format.double.largest with hle | hbeyond
    · exact toPlaces_eq_self_of_le h hn hz ((habs n).trans_le hle)
    · -- Beyond the range the value is the largest, which is whole and so a decimal itself.
      have hlargest := hn.abs_eq_largest hbeyond
      obtain ⟨i, hi⟩ : ∃ i : ℤ, x.toRat = i := by
        obtain ⟨N, hN⟩ := largest_double_whole
        rcases (abs_eq (Nat.cast_nonneg N)).mp (hlargest.trans hN) with hi | hi
        · exact ⟨N, by rw [hi, Int.cast_natCast]⟩
        · exact ⟨-N, by rw [hi, Int.cast_neg, Int.cast_natCast]⟩
      have hself : x.toRat = ((i * grid places : ℤ) : ℚ) / grid places := by
        rw [hi, Int.cast_mul, Int.cast_natCast, mul_div_cancel_right₀ _ hg.ne']
      refine toPlaces_eq_self_of_le h (hself ▸ isNearest_toRat hx) hz ?_
      rw [habs, ← hself, hlargest]

end FixedPoints

def SameDecimal (places : Nat) (x y : Double) : Prop :=
  x.isFinite ∧ y.isFinite ∧ ∃ k : ℤ, NearestInt (x.toRat * 10 ^ places) k ∧
    NearestInt (y.toRat * 10 ^ places) k

/-- Just the values with the same nearest decimal are rounded to the same value. -/
theorem toPlaces_eq_toPlaces_iff (h : places ≤ 15) (hx : x.isFinite) (hy : y.isFinite) :
    x.toPlaces places = y.toPlaces places ↔ SameDecimal places x y := by
  unfold SameDecimal
  rw [← grid_eq h]
  constructor
  · intro hsame
    obtain ⟨k, hk, -, -⟩ := toPlaces_spec places hx
    obtain ⟨l, hl, -, -⟩ := toPlaces_spec places hy
    obtain rfl := nearestInt_eq hx hy hk hl (congrArg toRat hsame)
    exact ⟨hx, hy, k, hk, hl⟩
  · rintro ⟨-, -, k, hk, hl⟩
    rw [toPlaces_eq hx hk, toPlaces_eq hy hl]

/-- A value that is not within a tenth of the last place of a middle between decimals keeps its
decimal when it is changed by no more than that. -/
theorem sameDecimal_of_near (hx : x.isFinite) (hy : y.isFinite)
    (hk : |x.toRat * 10 ^ places - k| < 2 / 5)
    (hxy : |x.toRat - y.toRat| ≤ 1 / 10 ^ (places + 1)) : SameDecimal places x y := by
  have hscale : |x.toRat * 10 ^ places - y.toRat * 10 ^ places| ≤ 1 / 10 := by
    have hpos : (0 : ℚ) < 10 ^ places := by positivity
    rw [← sub_mul, abs_mul, abs_of_pos hpos]
    calc |x.toRat - y.toRat| * 10 ^ places ≤ 1 / 10 ^ (places + 1) * 10 ^ places := by gcongr
      _ = 1 / 10 := by rw [pow_succ]; field_simp
  have hnearest : ∀ {r : ℚ}, |r - k| < 1 / 2 → NearestInt r k :=
    fun hr => ⟨hr.le, fun ht => absurd ht hr.ne⟩
  refine ⟨hx, hy, k, hnearest (hk.trans (by norm_num)), hnearest ?_⟩
  rw [abs_lt] at hk ⊢
  rw [abs_le] at hscale
  constructor <;> linarith

/-- Rounding to at most 15 places takes a finite value to the value nearest to its nearest decimal,
and gives the same again when it is repeated; but for negative zero it leaves just those finite
values as they are that are nearest to a decimal with so many places. -/
theorem toPlaces?_idempotent (h : places ≤ 15) (x : Double) :
    (∃ y, toPlaces? places x = some y ∧ toPlaces? places y = some y ∧
      (x.isFinite → ∃ k : ℤ, NearestInt (x.toRat * 10 ^ places) k ∧
        y.IsNearest (k / 10 ^ places))) ∧
    (x.isFinite → x ≠ zero.neg →
      (toPlaces? places x = some x ↔ ∃ n : ℤ, x.IsNearest (n / 10 ^ places))) := by
  have hplaces : places ≤ maxPlaces := h.trans (by decide)
  rw [← grid_eq h]
  refine ⟨⟨x.toPlaces places, toPlaces?_of_le hplaces x, ?_, fun hx => ?_⟩, fun hx hz => ?_⟩
  · rw [toPlaces?_of_le hplaces, toPlaces_toPlaces h]
  · obtain ⟨k, hk, -, hn⟩ := toPlaces_spec places hx
    exact ⟨k, hk, hn⟩
  · rw [toPlaces?_of_le hplaces, Option.some.injEq, toPlaces_eq_self_iff h hx hz]

def tenth : Double := round false 1 10

theorem toPlaces?_idempotent_tenth :
    1 ≤ 15 ∧ tenth.isFinite ∧ tenth ≠ zero.neg ∧ ∃ n : ℤ, tenth.IsNearest (n / 10 ^ 1) := by
  have hx : tenth.isFinite := by decide +kernel
  have hz : tenth ≠ zero.neg := by decide +kernel
  have hkept : toPlaces? 1 tenth = some tenth := by decide +kernel
  exact ⟨by decide, hx, hz, ((toPlaces?_idempotent (by decide) tenth).2 hx hz).mp hkept⟩

/-- Rounding to at most 15 places moves finite values by no more than one last place, keeps their
order, goes the same way on either side of zero, and keeps apart what is more than one last place
apart. -/
theorem toPlaces?_order (h : places ≤ 15) (hx : x.isFinite) (hy : y.isFinite) :
    ∃ a b c, toPlaces? places x = some a ∧ toPlaces? places y = some b ∧
      toPlaces? places x.neg = some c ∧
      a.isFinite ∧ |a.toRat - x.toRat| ≤ 1 / 10 ^ places ∧
      (x.toRat ≤ y.toRat → a.toRat ≤ b.toRat) ∧
      c.toRat = -a.toRat ∧
      (1 / 10 ^ places < |x.toRat - y.toRat| → ¬ a.eq b) := by
  have hplaces : places ≤ maxPlaces := h.trans (by decide)
  refine ⟨_, _, _, toPlaces?_of_le hplaces x, toPlaces?_of_le hplaces y,
    toPlaces?_of_le hplaces x.neg, isFinite_toPlaces places hx, ?_,
    toRat_toPlaces_mono places hx hy, toRat_toPlaces_neg places hx, fun hapart => ?_⟩
  · rw [← grid_eq h]
    exact abs_sub_toPlaces_le places hx
  · rw [← grid_eq h] at hapart
    rw [eq_finite_iff (isFinite_toPlaces places hx) (isFinite_toPlaces places hy)]
    exact toPlaces_separates places hx hy hapart

def half : Double := round false 1 2

def threeQuarters : Double := round false 3 4

theorem toPlaces?_order_half :
    1 ≤ 15 ∧ half.isFinite ∧ threeQuarters.isFinite ∧ half.toRat ≤ threeQuarters.toRat ∧
      1 / 10 ^ 1 < |half.toRat - threeQuarters.toRat| ∧
      ∃ a b, toPlaces? 1 half = some a ∧ toPlaces? 1 threeQuarters = some b ∧
        a.toRat ≤ b.toRat ∧ ¬ a.eq b := by
  have hx : half.isFinite := by decide +kernel
  have hy : threeQuarters.isFinite := by decide +kernel
  have hhalf : half.toRat = 1 / 2 := by decide +kernel
  have hthree : threeQuarters.toRat = 3 / 4 := by decide +kernel
  have hle : half.toRat ≤ threeQuarters.toRat := by
    rw [hhalf, hthree]
    norm_num
  have hapart : 1 / 10 ^ 1 < |half.toRat - threeQuarters.toRat| := by
    rw [hhalf, hthree]
    norm_num [abs_of_neg]
  obtain ⟨a, b, c, ha, hb, -, -, -, hmono, -, hne⟩ := toPlaces?_order (by decide : 1 ≤ 15) hx hy
  exact ⟨by decide, hx, hy, hle, hapart, a, b, ha, hb, hmono hle, hne hapart⟩

end Binary

end RenderVerdict
