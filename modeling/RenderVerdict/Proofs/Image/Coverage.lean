import RenderVerdict.Proofs.Image.Comparison
import RenderVerdict.Proofs.Settings

/-! Which samples a comparison of rasters looks at. Colors are compared in all samples. Depths and
labels are compared in as many samples as there are pixels, counted over the samples of all channels,
which are all samples only of a raster with one channel or without pixels. -/
namespace RenderVerdict

variable {α : Type}

/-- The samples that lie before the position of a pixel count. -/
def Shape.Leads (shape : Shape) (i : Fin shape.pixels) (k : Fin shape.channels) : Prop :=
  i.val * shape.channels + k.val < shape.pixels

instance (shape : Shape) (i : Fin shape.pixels) (k : Fin shape.channels) :
    Decidable (shape.Leads i k) := inferInstanceAs (Decidable (_ < _))

/-- All samples lead only if there is one channel, or there is no pixel. -/
theorem Shape.forall_leads_iff {shape : Shape} (h : 0 < shape.channels) :
    (∀ i k, shape.Leads i k) ↔ shape.channels = 1 ∨ shape.pixels = 0 := by
  constructor
  · intro hall
    by_contra hnot
    push Not at hnot
    obtain ⟨hmany, hpixels⟩ := hnot
    -- With two channels or more the last sample is past the number of pixels.
    have hlast : (shape.pixels - 1) * shape.channels + (shape.channels - 1) < shape.pixels :=
      hall ⟨shape.pixels - 1, by omega⟩ ⟨shape.channels - 1, by omega⟩
    have htwice : (shape.pixels - 1) * 2 ≤ (shape.pixels - 1) * shape.channels :=
      Nat.mul_le_mul_left _ (by omega)
    omega
  · rintro (hone | hnone) i k
    · have hk := k.isLt
      have hi := i.isLt
      unfold Leads
      simp only [hone] at hk ⊢
      omega
    · have hi := i.isLt
      omega

namespace Raster

/-- At the position of a pixel count the rasters of a shape all have a sample of the same pixel. -/
theorem exists_flatSample {shape : Shape} (h : 0 < shape.channels) (i : Fin shape.pixels) :
    ∃ j k, j.val * shape.channels + k.val = i.val ∧
      ∀ (raster : Raster α) (same : shape = raster.shape),
        raster.flatSample (i.cast (congrArg Shape.pixels same)) = raster.sampleAs same j k := by
  have hposition : i.val / shape.channels * shape.channels + i.val % shape.channels = i.val :=
    Nat.div_add_mod' _ _
  refine ⟨⟨i.val / shape.channels, (Nat.div_le_self _ _).trans_lt i.isLt⟩,
    ⟨i.val % shape.channels, Nat.mod_lt _ h⟩, hposition, fun raster same => ?_⟩
  subst same
  simp [flatSample, sampleAs, sample, hposition]

/-- What stands at the position of a pixel count is a leading sample, and each leading sample stands
at one. -/
theorem forall_flatSample_iff {candidate reference : Raster α}
    (same : candidate.shape = reference.shape) (p : α → α → Prop) :
    (∀ i, p (candidate.flatSample i) (reference.flatSample (i.cast (congrArg Shape.pixels same)))) ↔
      ∀ i k, candidate.shape.Leads i k → p (candidate.sample i k) (reference.sampleAs same i k) := by
  have hchannels : reference.shape.channels = candidate.shape.channels :=
    congrArg Shape.channels same.symm
  constructor
  · intro h i k hleads
    have hp := h ⟨_, hleads⟩
    simp only [flatSample, Fin.val_cast] at hp
    simpa [sample, sampleAs, hchannels] using hp
  · intro h i
    obtain ⟨j, k, hposition, hflat⟩ := exists_flatSample candidate.channels_pos i
    rw [hflat reference same]
    exact (hflat candidate rfl).symm ▸ h j k (hposition.trans_lt i.isLt)

end Raster

/-- A comparison of the samples at the positions of pixels sees the leading samples. -/
theorem Tallied.sees_leading {compared : Except Fault PixelReport} {candidate reference : Raster α}
    {tolerance : Double} {IsDifference : α → α → ℚ → Prop}
    (same : candidate.shape = reference.shape)
    (h : Tallied compared candidate.shape tolerance fun i => IsDifference (candidate.flatSample i)
      (reference.flatSample (i.cast (congrArg Shape.pixels same))))
    (unique : ∀ a b r s, IsDifference a b r → IsDifference a b s → r = s) :
    ∃ report, compared = .ok report ∧ (report.invalidPixels = 0 ↔ ∀ i k,
      candidate.shape.Leads i k → Tolerates tolerance
        (IsDifference (candidate.sample i k) (reference.sampleAs same i k))) := by
  obtain ⟨report, hok, hnone⟩ := h.exists_report fun i => unique _ _
  exact ⟨report, hok, hnone.trans
    (Raster.forall_flatSample_iff same fun a b => Tolerates tolerance (IsDifference a b))⟩

namespace Tolerances

variable {tolerances : Tolerances}

theorem compareColor_sees {candidate reference : ColorRaster} (ht : tolerances.color.NonNegative)
    (same : candidate.shape = reference.shape) :
    ∃ report, tolerances.compareColor candidate reference = .ok report ∧
      (report.invalidPixels = 0 ↔ ∀ i k, Tolerates tolerances.color
        (· = sampleDifference (candidate.sample i k) (reference.sampleAs same i k))) := by
  obtain ⟨report, hok, hnone⟩ := (tallied_compareColor ht same).exists_report
    fun _ _ _ hr hs => hr.unique hs
  refine ⟨report, hok, hnone.trans ?_⟩
  constructor
  · rintro h i k _ rfl hexceeded
    have hspec := colorDifference_spec (a := candidate.sample i) (b := reference.sampleAs same i)
      candidate.channels_pos
    exact h i _ hspec ((Binary.exceededBy_isGreatest_iff hspec).mpr ⟨_, ⟨k, rfl⟩, hexceeded⟩)
  · intro h i r hr hexceeded
    obtain ⟨_, ⟨k, rfl⟩, hk⟩ := (Binary.exceededBy_isGreatest_iff hr).mp hexceeded
    exact h i k _ rfl hk

theorem compareDepth_sees {candidate reference : DepthRaster} (ht : tolerances.depth.NonNegative)
    (same : candidate.shape = reference.shape) :
    ∃ report, tolerances.compareDepth candidate reference = .ok report ∧
      (report.invalidPixels = 0 ↔ ∀ i k, candidate.shape.Leads i k → Tolerates tolerances.depth
        (DepthDifference (candidate.sample i k) (reference.sampleAs same i k))) :=
  (tallied_compareDepth ht same).sees_leading same fun _ _ _ _ hr hs => hr.unique hs

theorem compareLabel_sees {candidate reference : LabelRaster} (ht : tolerances.label.NonNegative)
    (same : candidate.shape = reference.shape) :
    ∃ report, tolerances.compareLabel candidate reference = .ok report ∧
      (report.invalidPixels = 0 ↔ ∀ i k, candidate.shape.Leads i k → Tolerates tolerances.label
        (LabelDifference tolerances.remap (candidate.sample i k) (reference.sampleAs same i k))) :=
  (tallied_compareLabel ht same).sees_leading same fun _ _ _ _ hr hs => hr.trans hs.symm

/-- With valid tolerances a comparison of colors without invalid pixels has seen that the differences of
all samples are tolerated. One of depths or labels has seen it of the leading samples, which are all
samples exactly if there is one channel or no pixel. -/
theorem compare_sees (valid : tolerances.validate = .ok ()) :
    (∀ (candidate reference : ColorRaster) (same : candidate.shape = reference.shape),
      ∃ report, tolerances.compareColor candidate reference = .ok report ∧
        (report.invalidPixels = 0 ↔ ∀ i k, Tolerates tolerances.color
          (· = sampleDifference (candidate.sample i k) (reference.sampleAs same i k)))) ∧
    (∀ (candidate reference : DepthRaster) (same : candidate.shape = reference.shape),
      ∃ report, tolerances.compareDepth candidate reference = .ok report ∧
        (report.invalidPixels = 0 ↔ ∀ i k, candidate.shape.Leads i k → Tolerates tolerances.depth
          (DepthDifference (candidate.sample i k) (reference.sampleAs same i k)))) ∧
    (∀ (candidate reference : LabelRaster) (same : candidate.shape = reference.shape),
      ∃ report, tolerances.compareLabel candidate reference = .ok report ∧
        (report.invalidPixels = 0 ↔ ∀ i k, candidate.shape.Leads i k → Tolerates tolerances.label
          (LabelDifference tolerances.remap (candidate.sample i k)
            (reference.sampleAs same i k)))) ∧
    ∀ shape : Shape, 0 < shape.channels →
      ((∀ i k, shape.Leads i k) ↔ shape.channels = 1 ∨ shape.pixels = 0) := by
  obtain ⟨onColor, onDepth, onLabel, -⟩ := validate_eq_ok_iff.mp valid
  exact ⟨fun _ _ => compareColor_sees onColor, fun _ _ => compareDepth_sees onDepth,
    fun _ _ => compareLabel_sees onLabel, fun _ => Shape.forall_leads_iff⟩

def onePixel (first second : α) : Raster α := ⟨⟨1, 1, 2⟩, #[first, second], by decide, rfl⟩

/-- The second sample of a color is seen. -/
theorem compare_sees_second : ∃ report,
    standard.compareColor (onePixel 0 0) (onePixel 0 50) = .ok report ∧ report.invalidPixels ≠ 0 := by
  obtain ⟨report, hok, hnone⟩ :=
    (compare_sees validate_standard).1 (onePixel 0 0) (onePixel 0 50) rfl
  exact ⟨report, hok, mt hnone.mp (by decide +kernel)⟩

/-- The second sample of a depth and of a label is overlooked. -/
theorem compare_overlooks_second :
    (∃ report, standard.compareDepth (onePixel .zero .zero) (onePixel .zero (Binary.nearest 5)) =
        .ok report ∧ report.invalidPixels = 0 ∧ ∃ i k, ¬ Tolerates standard.depth
          (DepthDifference ((onePixel .zero .zero).sample i k)
            ((onePixel .zero (Binary.nearest 5)).sampleAs rfl i k))) ∧
    ∃ report, standard.compareLabel (onePixel 0 0) (onePixel 0 5) = .ok report ∧
      report.invalidPixels = 0 ∧ ∃ i k, ¬ Tolerates standard.label
        (LabelDifference standard.remap ((onePixel 0 0).sample i k)
          ((onePixel 0 5).sampleAs rfl i k)) := by
  obtain ⟨-, onDepth, onLabel, -⟩ := validate_eq_ok_iff.mp validate_standard
  constructor
  · obtain ⟨report, hok, hnone⟩ := compareDepth_sees onDepth
      (show (onePixel .zero .zero).shape = (onePixel .zero (Binary.nearest 5)).shape from rfl)
    exact ⟨report, hok, hnone.mpr (by decide +kernel), ⟨0, by decide⟩, ⟨1, by decide⟩,
      by decide +kernel⟩
  · obtain ⟨report, hok, hnone⟩ := compareLabel_sees onLabel
      (show (onePixel 0 0).shape = (onePixel 0 5).shape from rfl)
    exact ⟨report, hok, hnone.mpr (by decide +kernel), ⟨0, by decide⟩, ⟨1, by decide⟩,
      by decide +kernel⟩

end Tolerances

end RenderVerdict
