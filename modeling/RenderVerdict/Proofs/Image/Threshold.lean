import RenderVerdict.Proofs.Image.Comparison
import RenderVerdict.Proofs.Number.Separation

/-! When a comparison of rasters passes. Both the fraction of invalid pixels and the threshold are
rounded, but for rasters of a usual size the verdict is the one of the exact fractions. -/
namespace RenderVerdict

namespace PixelReport

structure Judged (report : PixelReport) (limit : Double) : Prop where
  le : report.invalidPixels ≤ report.totalPixels
  quotient : report.invalidFraction = fraction report.invalidPixels report.totalPixels
  threshold : report.threshold = limit
  passed : report.passed = report.invalidFraction.lt limit

theorem judged_ofDifferences {channel : Channel} {shape : Shape} {tolerance threshold : Double}
    {differences : List Double} (h : differences.length = shape.pixels) :
    (ofDifferences channel shape tolerance threshold differences).Judged threshold where
  le := by
    change (invalidIndices tolerance differences).length ≤ shape.pixels
    rw [← h, invalidIndices, List.length_map]
    exact (List.length_filter_le _ _).trans_eq List.length_zipIdx
  quotient := rfl
  threshold := rfl
  passed := rfl

variable {report : PixelReport} {limit : Double}

/-- The fraction of a report is nearest to the quotient of its counts. -/
theorem Judged.isNearest_invalidFraction (h : report.Judged limit)
    (hpixels : 0 < report.totalPixels) :
    report.invalidFraction.IsNearest (report.invalidPixels / report.totalPixels) := by
  have htotal : (0 : ℚ) < report.totalPixels := by exact_mod_cast hpixels
  have hone : (report.invalidPixels / report.totalPixels : ℚ) ≤ 1 :=
    (div_le_one htotal).mpr (by exact_mod_cast h.le)
  rw [h.quotient, fraction, if_neg hpixels.ne']
  refine Binary.isNearest_nearest (by decide) ?_
  rw [abs_of_nonneg (by positivity)]
  exact hone.trans Binary.one_le_largest_double

end PixelReport

namespace Tolerances

variable {tolerances : Tolerances} {report : PixelReport}

inductive Reports (tolerances : Tolerances) : PixelReport → Prop where
  | color {candidate reference : ColorRaster} {report : PixelReport}
      (h : tolerances.compareColor candidate reference = .ok report) : Reports tolerances report
  | depth {candidate reference : DepthRaster} {report : PixelReport}
      (h : tolerances.compareDepth candidate reference = .ok report) : Reports tolerances report
  | label {candidate reference : LabelRaster} {report : PixelReport}
      (h : tolerances.compareLabel candidate reference = .ok report) : Reports tolerances report

theorem judged_of_compareWith {α : Type} {channel : Channel} {tolerance : Double}
    {candidate reference : Raster α}
    {difference : Fin candidate.shape.pixels → Fin reference.shape.pixels → Double}
    (h : tolerances.compareWith channel tolerance candidate reference difference = .ok report) :
    report.Judged tolerances.invalidFraction := by
  obtain ⟨same, rfl⟩ := compareWith_eq_ok_iff.mp h
  exact PixelReport.judged_ofDifferences (List.length_ofFn ..)

theorem Reports.judged (h : tolerances.Reports report) : report.Judged tolerances.invalidFraction := by
  cases h with
  | color h => exact judged_of_compareWith h
  | depth h => exact judged_of_compareWith h
  | label h => exact judged_of_compareWith h

/-- With a threshold that is the nearest 64-bit value of a fraction, and not too many pixels for the
denominator, a comparison passes exactly if the invalid pixels are less than the fraction of all. -/
theorem passed_iff_below {a b : Nat} (hreport : tolerances.Reports report) (ha : 0 < a) (hab : a ≤ b)
    (hthreshold : tolerances.invalidFraction.IsNearest (a / b)) (hpixels : 0 < report.totalPixels)
    (hsmall : report.totalPixels * b ≤ 2 ^ 52) :
    (report.passed ↔ report.invalidPixels * b < a * report.totalPixels) ∧
      report.invalidFraction.IsNearest ((Binary.nearest report.invalidPixels : Double).toRat /
        (Binary.nearest report.totalPixels : Double).toRat) := by
  have hb : 0 < b := ha.trans_le hab
  have hjudged := hreport.judged
  have hfraction := hjudged.isNearest_invalidFraction hpixels
  constructor
  · rw [hjudged.passed, Binary.lt_finite_iff hfraction.isFinite hthreshold.isFinite]
    exact hfraction.lt_iff_of_fractions hthreshold hb hab hpixels hsmall
  · have htotal : report.totalPixels < 2 ^ 53 :=
      (Nat.le_mul_of_pos_right _ hb).trans_lt (hsmall.trans_lt (by norm_num))
    rwa [(Binary.nearest_natCast (hjudged.le.trans_lt htotal)).2, (Binary.nearest_natCast htotal).2]

theorem isNearest_standard : standard.invalidFraction.IsNearest ((1 : Nat) / (5 : Nat)) := by
  have h : standard.invalidFraction.IsNearest (1 / 5) :=
    Binary.isNearest_nearest (by decide) ((by norm_num : |(1 / 5 : ℚ)| ≤ 1).trans
      Binary.one_le_largest_double)
  exact_mod_cast h

def fiveLabels (first : Int32) : LabelRaster :=
  ⟨⟨5, 1, 1⟩, #[first, 0, 0, 0, 0], by decide, rfl⟩

/-- One invalid pixel of five is as much as the standard tolerances have for a limit, so it fails. -/
theorem passed_iff_below_fifth : ∃ report,
    standard.compareLabel (fiveLabels 1) (fiveLabels 0) = .ok report ∧ report.invalidPixels = 1 ∧
      report.totalPixels = 5 ∧ ¬ report.passed := by
  obtain ⟨report, hok, hinvalid, htotal⟩ : ∃ report,
      standard.compareLabel (fiveLabels 1) (fiveLabels 0) = .ok report ∧
        report.invalidPixels = 1 ∧ report.totalPixels = 5 := ⟨_, rfl, by decide +kernel, rfl⟩
  refine ⟨report, hok, hinvalid, htotal, ?_⟩
  have hverdict := passed_iff_below (.label hok) Nat.one_pos (by decide) isNearest_standard
    (by rw [htotal]; decide) (by rw [htotal]; decide)
  rw [hverdict.1, hinvalid, htotal]
  decide

end Tolerances

end RenderVerdict
