import RenderVerdict.Proofs.Image.Tally
import RenderVerdict.Proofs.Number.Whole

/-! The differences of pixels that comparisons tally. Those of colors and labels are whole numbers that
64-bit values hold exactly and machine integers hold without overflow; those of depths are rounded to
the nearest 64-bit value. -/
namespace RenderVerdict

variable {α : Type}

/-- A difference whose magnitude is in the range of signed machine integers is computed exactly. -/
theorem toInt_abs_sub {w : Nat} (hw : 0 < w) {x y : BitVec w}
    (h : |x.toInt - y.toInt| < 2 ^ (w - 1)) : (x - y).abs.toInt = |x.toInt - y.toInt| := by
  obtain ⟨n, rfl⟩ : ∃ n, w = n + 1 := ⟨w - 1, by omega⟩
  rw [Nat.add_sub_cancel, abs_lt] at h
  have hsub : (x - y).toInt = x.toInt - y.toInt := by
    rw [BitVec.toInt_sub]
    refine Int.bmod_eq_of_le_mul_two ?_ ?_ <;> rw [pow_succ] <;> push_cast <;> linarith
  have hmin : x - y ≠ BitVec.intMin (n + 1) := by
    intro hmin
    rw [hmin, BitVec.toInt_intMin_of_pos hw, Nat.add_sub_cancel] at hsub
    exact h.1.ne hsub
  rw [BitVec.toInt_abs_eq_natAbs, if_neg hmin, hsub, Int.natCast_natAbs]

namespace Raster

def sampleAs (raster : Raster α) {shape : Shape} (same : shape = raster.shape)
    (i : Fin shape.pixels) (k : Fin shape.channels) : α :=
  raster.sample (i.cast (congrArg Shape.pixels same)) (k.cast (congrArg Shape.channels same))

/-- The samples of a raster with one channel are its pixels. -/
theorem flatSample_eq_sample {raster : Raster α} (h : raster.shape.channels = 1)
    (i : Fin raster.shape.pixels) :
    raster.flatSample i = raster.sample i ⟨0, raster.channels_pos⟩ := by
  simp [flatSample, sample, h]

end Raster

section Color

variable {n : Nat} {a b : Fin n → UInt8}

def sampleDifference (x y : UInt8) : ℚ := |(x.toNat - y.toNat : ℚ)|

@[simp] theorem sampleDifference_self (x : UInt8) : sampleDifference x x = 0 := by
  rw [sampleDifference, sub_self, abs_zero]

def ColorDifference (a b : Fin n → UInt8) (r : ℚ) : Prop :=
  IsGreatest (Set.range fun k => sampleDifference (a k) (b k)) r

theorem colorDifference_spec (hn : 0 < n) :
    ColorDifference a b (colorDifference (List.ofFn a) (List.ofFn b)) := by
  have hzip : (List.ofFn a).zip (List.ofFn b) = List.ofFn fun k => (a k, b k) :=
    List.ext_getElem (by simp) fun k _ _ => by simp
  have hgreatest : IsGreatest
      (insert ((0 : Nat) : ℚ) (Set.range fun k => sampleDifference (a k) (b k)))
      (colorDifference (List.ofFn a) (List.ofFn b)) := by
    unfold colorDifference
    rw [hzip]
    refine (isGreatest_foldl_ofFn (fun _ : Nat => True) trivial fun most _ k => ⟨trivial, ?_⟩).2
    rw [Nat.cast_max, Nat.cast_natAbs]
    push_cast
    rfl
  rw [Nat.cast_zero] at hgreatest
  refine ⟨?_, fun r hr => hgreatest.2 (.inr hr)⟩
  rcases hgreatest.1 with hzero | hmem
  · -- If the greatest is zero, so is the difference of the first samples.
    refine ⟨⟨0, hn⟩, le_antisymm (hgreatest.2 (.inr ⟨_, rfl⟩)) ?_⟩
    rw [hzero]
    exact abs_nonneg _
  · exact hmem

theorem ColorDifference.le {r : ℚ} (h : ColorDifference a b r) : r ≤ 255 := by
  obtain ⟨k, rfl⟩ := h.1
  have ha : ((a k).toNat : ℚ) ≤ 255 := by exact_mod_cast Nat.le_of_lt_succ (a k).toNat_lt
  have hb : ((b k).toNat : ℚ) ≤ 255 := by exact_mod_cast Nat.le_of_lt_succ (b k).toNat_lt
  have ha0 : (0 : ℚ) ≤ (a k).toNat := Nat.cast_nonneg _
  have hb0 : (0 : ℚ) ≤ (b k).toNat := Nat.cast_nonneg _
  exact abs_le.mpr ⟨by linarith, by linarith⟩

theorem nearest_colorDifference (hn : 0 < n) :
    (Binary.nearest (colorDifference (List.ofFn a) (List.ofFn b)) : Double).isFinite ∧
      ColorDifference a b
        (Binary.nearest (colorDifference (List.ofFn a) (List.ofFn b)) : Double).toRat := by
  have hspec := colorDifference_spec (a := a) (b := b) hn
  have hle : colorDifference (List.ofFn a) (List.ofFn b) ≤ 255 := by exact_mod_cast hspec.le
  obtain ⟨hfinite, hvalue⟩ := Binary.nearest_natCast (hle.trans_lt (by norm_num))
  exact ⟨hfinite, by rwa [hvalue]⟩

/-- Sixteen bits are enough for the difference of two samples. -/
theorem toInt_abs_sub_eq_colorDifference (x y : UInt8) :
    (x.toUInt16.toInt16 - y.toUInt16.toInt16).abs.toInt = colorDifference [x] [y] := by
  have hwiden : ∀ z : UInt8, z.toUInt16.toInt16.toBitVec.toInt = z.toNat := by
    intro z
    have hz := z.toNat_lt
    rw [UInt16.toBitVec_toInt16, BitVec.toInt_eq_toNat_of_lt] <;> simp
    omega
  have hx := x.toNat_lt
  have hy := y.toNat_lt
  have h := toInt_abs_sub (by decide) (x := x.toUInt16.toInt16.toBitVec)
    (y := y.toUInt16.toInt16.toBitVec) (by
      rw [hwiden, hwiden, abs_lt]
      omega)
  rw [hwiden, hwiden] at h
  exact h.trans (by simp [colorDifference])

end Color

section Depth

def depthOf (a : Single) : ℚ := if a.isFinite then a.toRat else 0

theorem depthOf_eq_toRat (a : Single) : depthOf a = a.toRat := by
  cases a <;> rfl

def DepthDifference (a b : Single) (r : ℚ) : Prop :=
  ∃ x : Double, x.IsNearest |depthOf a - depthOf b| ∧ x.toRat = r

theorem DepthDifference.unique {a b : Single} {r s : ℚ} (h : DepthDifference a b r)
    (k : DepthDifference a b s) : r = s := by
  obtain ⟨x, hx, rfl⟩ := h
  obtain ⟨y, hy, rfl⟩ := k
  exact hx.unique hy

theorem abs_depthOf_sub_le (a b : Single) :
    |depthOf a - depthOf b| ≤ Format.double.largest := by
  rw [depthOf_eq_toRat, depthOf_eq_toRat]
  have hsingle : Format.single.largest ≤ 2 ^ (128 : ℤ) := Format.single.largest_lt.le
  calc |a.toRat - b.toRat| ≤ |a.toRat| + |b.toRat| := abs_sub _ _
    _ ≤ 2 ^ (128 : ℤ) + 2 ^ (128 : ℤ) :=
      add_le_add (a.abs_toRat_le_largest.trans hsingle) (b.abs_toRat_le_largest.trans hsingle)
    _ = 1 * 2 ^ (129 : ℤ) := by norm_num
    _ ≤ (2 ^ 53 - 1) * 2 ^ (971 : ℤ) := by gcongr <;> norm_num
    _ = Format.double.largest := rfl

theorem isNearest_depthDifference (a b : Single) :
    (depthDifference a b).IsNearest |depthOf a - depthOf b| := by
  have habs : (if a.toRat - b.toRat < 0 then -(a.toRat - b.toRat) else a.toRat - b.toRat) =
      |depthOf a - depthOf b| := by
    rw [depthOf_eq_toRat, depthOf_eq_toRat]
    split
    · next h => exact (abs_of_neg h).symm
    · next h => exact (abs_of_nonneg (not_lt.mp h)).symm
  unfold depthDifference
  dsimp only
  rw [habs]
  exact Binary.isNearest_nearest (by decide) ((abs_abs _).trans_le (abs_depthOf_sub_le a b))

theorem depthDifference_spec (a b : Single) : (depthDifference a b).isFinite ∧
    DepthDifference a b (depthDifference a b).toRat :=
  ⟨(isNearest_depthDifference a b).isFinite, _, isNearest_depthDifference a b, rfl⟩

end Depth

section Label

variable {remap : Option LabelRemap} {a b : Int32}

def expectedLabel (remap : Option LabelRemap) (reference : Int32) : Int32 :=
  match remap with
  | some remap => if reference = remap.source then remap.target else reference
  | none => reference

def LabelDifference (remap : Option LabelRemap) (a b : Int32) (r : ℚ) : Prop :=
  r = |(a.toInt - (expectedLabel remap b).toInt : ℚ)|

theorem labelDifference_eq (remap : Option LabelRemap) (a b : Int32) :
    (labelDifference remap a b : ℤ) = |a.toInt - (expectedLabel remap b).toInt| :=
  Int.natCast_natAbs _

theorem abs_sub_label_lt (x y : Int32) : |x.toInt - y.toInt| < 2 ^ 33 := by
  have hx := x.le_toInt
  have hx' := x.toInt_lt
  have hy := y.le_toInt
  have hy' := y.toInt_lt
  rw [abs_lt]
  omega

theorem nearest_labelDifference (remap : Option LabelRemap) (a b : Int32) :
    (Binary.nearest (labelDifference remap a b) : Double).isFinite ∧
      LabelDifference remap a b (Binary.nearest (labelDifference remap a b) : Double).toRat := by
  have hexact := labelDifference_eq remap a b
  have hlt : (labelDifference remap a b : ℤ) < 2 ^ 53 := by
    rw [hexact]
    exact (abs_sub_label_lt a (expectedLabel remap b)).trans (by norm_num)
  obtain ⟨hfinite, hvalue⟩ := Binary.nearest_natCast (by exact_mod_cast hlt)
  refine ⟨hfinite, ?_⟩
  rw [hvalue, LabelDifference]
  exact_mod_cast hexact

/-- Sixty-four bits are enough for the difference of two labels. -/
theorem toInt_abs_sub_eq_labelDifference (remap : Option LabelRemap) (a b : Int32) :
    (a.toInt64 - (expectedLabel remap b).toInt64).abs.toInt = labelDifference remap a b := by
  have hlt := abs_sub_label_lt a (expectedLabel remap b)
  have h := toInt_abs_sub (by decide) (x := a.toInt64.toBitVec)
    (y := (expectedLabel remap b).toInt64.toBitVec) (by
      rw [Int64.toInt_toBitVec, Int64.toInt_toBitVec, Int32.toInt_toInt64, Int32.toInt_toInt64]
      exact hlt.trans (by norm_num))
  rw [Int64.toInt_toBitVec, Int64.toInt_toBitVec, Int32.toInt_toInt64, Int32.toInt_toInt64] at h
  rw [labelDifference_eq]
  exact h

end Label

end RenderVerdict
