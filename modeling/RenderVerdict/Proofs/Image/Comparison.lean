import RenderVerdict.Proofs.Image.Differences

/-! Comparisons of rasters fail on different shapes and nowhere else, and their reports are the exact
tallies of the differences of all pixels. -/
namespace RenderVerdict

def Tallied (compared : Except Fault PixelReport) (shape : Shape) (tolerance : Double)
    (IsDifference : Fin shape.pixels → ℚ → Prop) : Prop :=
  ∃ report difference, compared = .ok report ∧ (∀ i, IsDifference i (difference i)) ∧
    report.Tallies shape tolerance difference

def Tolerates (tolerance : Double) (IsDifference : ℚ → Prop) : Prop :=
  ∀ r, IsDifference r → ¬ tolerance.ExceededBy r

theorem tolerates_depthDifference_iff {tolerance : Double} {a b : Single} :
    Tolerates tolerance (DepthDifference a b) ↔
      ¬ tolerance.ExceededBy (depthDifference a b).toRat := by
  constructor
  · intro h
    exact h _ (depthDifference_spec a b).2
  · intro h r hr
    rwa [hr.unique (depthDifference_spec a b).2]

instance (tolerance : Double) (a b : Single) : Decidable (Tolerates tolerance (DepthDifference a b)) :=
  decidable_of_iff _ tolerates_depthDifference_iff.symm

instance (tolerance : Double) (r : ℚ) : Decidable (Tolerates tolerance (· = r)) :=
  decidable_of_iff (¬ tolerance.ExceededBy r) ⟨fun h _ hr => hr ▸ h, fun h => h r rfl⟩

instance (tolerance : Double) (remap : Option LabelRemap) (a b : Int32) :
    Decidable (Tolerates tolerance (LabelDifference remap a b)) :=
  inferInstanceAs (Decidable (Tolerates tolerance (· = _)))

/-- A comparison has no invalid pixel exactly if the differences of all pixels are tolerated. -/
theorem Tallied.exists_report {compared : Except Fault PixelReport} {shape : Shape}
    {tolerance : Double} {IsDifference : Fin shape.pixels → ℚ → Prop}
    (h : Tallied compared shape tolerance IsDifference)
    (unique : ∀ i r s, IsDifference i r → IsDifference i s → r = s) :
    ∃ report, compared = .ok report ∧ (report.invalidPixels = 0 ↔
      ∀ i, Tolerates tolerance (IsDifference i)) := by
  obtain ⟨report, difference, hok, hdifference, htallies⟩ := h
  refine ⟨report, hok, htallies.invalidPixels_eq_zero_iff.trans ?_⟩
  constructor
  · intro hnone i r hr
    rw [unique i r _ hr (hdifference i)]
    exact hnone i
  · intro hall i
    exact hall i _ (hdifference i)

/-- A tally over one shape is a tally over an equal one. -/
theorem Tallied.cast {compared : Except Fault PixelReport} {shape shape' : Shape}
    {tolerance : Double} {IsDifference : Fin shape'.pixels → ℚ → Prop} (same : shape = shape')
    (h : Tallied compared shape' tolerance IsDifference) :
    Tallied compared shape tolerance fun i => IsDifference (i.cast (congrArg Shape.pixels same)) := by
  subst same
  exact h

/-- With one channel the samples at the positions of pixels are the samples of the pixels. -/
theorem Tallied.of_single_channel {α : Type} {compared : Except Fault PixelReport}
    {candidate reference : Raster α} {tolerance : Double} {IsDifference : α → α → ℚ → Prop}
    (same : candidate.shape = reference.shape) (single : candidate.shape.channels = 1)
    (h : Tallied compared candidate.shape tolerance fun i => IsDifference (candidate.flatSample i)
      (reference.flatSample (i.cast (congrArg Shape.pixels same)))) :
    Tallied compared candidate.shape tolerance fun i =>
      IsDifference (candidate.sample i ⟨0, candidate.channels_pos⟩)
        (reference.sampleAs same i ⟨0, candidate.channels_pos⟩) := by
  have single' : reference.shape.channels = 1 := same ▸ single
  simp only [Raster.flatSample_eq_sample single, Raster.flatSample_eq_sample single'] at h
  exact h

def FailsOnShapes {α : Type} (candidate reference : Raster α)
    (compared : Except Fault PixelReport) : Prop :=
  ∀ fault, compared = .error fault ↔ candidate.shape ≠ reference.shape ∧
    fault = .shapeMismatch candidate.shape reference.shape

namespace Tolerances

section CompareWith

variable {α : Type} {tolerances : Tolerances} {channel : Channel} {tolerance : Double}
  {candidate reference : Raster α}
  {difference : Fin candidate.shape.pixels → Fin reference.shape.pixels → Double}

theorem compareWith_eq_ok_iff {report : PixelReport} :
    tolerances.compareWith channel tolerance candidate reference difference = .ok report ↔
      ∃ same : candidate.shape = reference.shape, report = PixelReport.ofDifferences channel
        candidate.shape tolerance tolerances.invalidFraction
          (List.ofFn fun i => difference i (i.cast (congrArg Shape.pixels same))) := by
  unfold compareWith
  split
  · next same =>
    constructor
    · intro h
      exact ⟨same, (Except.ok.inj h).symm⟩
    · rintro ⟨_, rfl⟩
      rfl
  · next different =>
    constructor
    · intro h
      cases h
    · rintro ⟨same, -⟩
      exact absurd same different

theorem compareWith_failsOnShapes : FailsOnShapes candidate reference
    (tolerances.compareWith channel tolerance candidate reference difference) := by
  intro fault
  unfold compareWith
  split
  · next same =>
    constructor
    · intro h
      cases h
    · rintro ⟨different, -⟩
      exact absurd same different
  · next different =>
    constructor
    · intro h
      exact ⟨different, (Except.error.inj h).symm⟩
    · rintro ⟨-, rfl⟩
      rfl

theorem tallied_compareWith (ht : tolerance.NonNegative)
    (same : candidate.shape = reference.shape) {IsDifference : Fin candidate.shape.pixels → ℚ → Prop}
    (hd : ∀ i, (difference i (i.cast (congrArg Shape.pixels same))).isFinite ∧
      IsDifference i (difference i (i.cast (congrArg Shape.pixels same))).toRat) :
    Tallied (tolerances.compareWith channel tolerance candidate reference difference)
      candidate.shape tolerance IsDifference :=
  ⟨_, _, compareWith_eq_ok_iff.mpr ⟨same, rfl⟩, fun i => (hd i).2,
    PixelReport.tallies_ofDifferences ht fun i => (hd i).1⟩

end CompareWith

variable {tolerances : Tolerances}

theorem tallied_compareColor {candidate reference : ColorRaster} (ht : tolerances.color.NonNegative)
    (same : candidate.shape = reference.shape) :
    Tallied (tolerances.compareColor candidate reference) candidate.shape tolerances.color
      fun i => ColorDifference (candidate.sample i) (reference.sampleAs same i) := by
  refine tallied_compareWith ht same fun i => ?_
  have hpixel : reference.pixel (i.cast (congrArg Shape.pixels same)) =
      List.ofFn (reference.sampleAs same i) :=
    List.ofFn_congr (congrArg Shape.channels same.symm) _
  rw [hpixel]
  exact nearest_colorDifference candidate.channels_pos

theorem tallied_compareDepth {candidate reference : DepthRaster} (ht : tolerances.depth.NonNegative)
    (same : candidate.shape = reference.shape) :
    Tallied (tolerances.compareDepth candidate reference) candidate.shape tolerances.depth
      fun i => DepthDifference (candidate.flatSample i)
        (reference.flatSample (i.cast (congrArg Shape.pixels same))) :=
  tallied_compareWith ht same fun _ => depthDifference_spec _ _

theorem tallied_compareLabel {candidate reference : LabelRaster} (ht : tolerances.label.NonNegative)
    (same : candidate.shape = reference.shape) :
    Tallied (tolerances.compareLabel candidate reference) candidate.shape tolerances.label
      fun i => LabelDifference tolerances.remap (candidate.flatSample i)
        (reference.flatSample (i.cast (congrArg Shape.pixels same))) :=
  tallied_compareWith ht same fun _ => nearest_labelDifference _ _ _

/-- The report of a comparison is the exact tally of the differences of all pixels, a comparison fails
on different shapes only, and no difference is too large for the machine integers that hold it. -/
theorem compare_exact (tolerances : Tolerances) :
    (∀ candidate reference : ColorRaster,
      FailsOnShapes candidate reference (tolerances.compareColor candidate reference) ∧
      (tolerances.color.NonNegative → ∀ same : candidate.shape = reference.shape,
        Tallied (tolerances.compareColor candidate reference) candidate.shape tolerances.color
          fun i => ColorDifference (candidate.sample i) (reference.sampleAs same i))) ∧
    (∀ candidate reference : DepthRaster,
      FailsOnShapes candidate reference (tolerances.compareDepth candidate reference) ∧
      (tolerances.depth.NonNegative → candidate.shape.channels = 1 →
        ∀ same : candidate.shape = reference.shape,
          Tallied (tolerances.compareDepth candidate reference) candidate.shape tolerances.depth
            fun i => DepthDifference (candidate.sample i ⟨0, candidate.channels_pos⟩)
              (reference.sampleAs same i ⟨0, candidate.channels_pos⟩))) ∧
    (∀ candidate reference : LabelRaster,
      FailsOnShapes candidate reference (tolerances.compareLabel candidate reference) ∧
      (tolerances.label.NonNegative → candidate.shape.channels = 1 →
        ∀ same : candidate.shape = reference.shape,
          Tallied (tolerances.compareLabel candidate reference) candidate.shape tolerances.label
            fun i => LabelDifference tolerances.remap
              (candidate.sample i ⟨0, candidate.channels_pos⟩)
              (reference.sampleAs same i ⟨0, candidate.channels_pos⟩))) ∧
    (∀ x y : UInt8,
      (x.toUInt16.toInt16 - y.toUInt16.toInt16).abs.toInt = colorDifference [x] [y]) ∧
    ∀ (remap : Option LabelRemap) (a b : Int32),
      (a.toInt64 - (expectedLabel remap b).toInt64).abs.toInt = labelDifference remap a b := by
  refine ⟨fun candidate reference => ⟨compareWith_failsOnShapes, tallied_compareColor⟩,
    fun candidate reference => ⟨compareWith_failsOnShapes, fun ht single same => ?_⟩,
    fun candidate reference => ⟨compareWith_failsOnShapes, fun ht single same => ?_⟩,
    toInt_abs_sub_eq_colorDifference, toInt_abs_sub_eq_labelDifference⟩
  · exact (tallied_compareDepth ht same).of_single_channel same single
  · exact (tallied_compareLabel ht same).of_single_channel same single

/-- The standard tolerances are not negative, and rasters of one shape are compared under them. -/
theorem compare_exact_standard :
    Tallied (standard.compareColor (.filled 2 1 3 100) (.filled 2 1 3 130)) ⟨2, 1, 3⟩ standard.color
      (fun i => ColorDifference ((Raster.filled 2 1 3 100).sample i)
        ((Raster.filled 2 1 3 130).sampleAs rfl i)) ∧
    Tallied (standard.compareDepth (.filled 2 1 1 .nan) (.filled 2 1 1 .zero)) ⟨2, 1, 1⟩
      standard.depth
      (fun i => DepthDifference ((Raster.filled 2 1 1 .nan).sample i ⟨0, by decide⟩)
        ((Raster.filled 2 1 1 .zero).sampleAs rfl i ⟨0, by decide⟩)) ∧
    Tallied (standard.compareLabel (.filled 2 1 1 32764) (.filled 2 1 1 32766)) ⟨2, 1, 1⟩
      standard.label
      (fun i => LabelDifference standard.remap ((Raster.filled 2 1 1 32764).sample i ⟨0, by decide⟩)
        ((Raster.filled 2 1 1 32766).sampleAs rfl i ⟨0, by decide⟩)) := by
  have hcolor : standard.color.NonNegative := by decide +kernel
  have hdepth : standard.depth.NonNegative := by decide +kernel
  have hlabel : standard.label.NonNegative := by decide +kernel
  obtain ⟨onColor, onDepth, onLabel, -⟩ := compare_exact standard
  exact ⟨(onColor (.filled 2 1 3 100) (.filled 2 1 3 130)).2 hcolor rfl,
    (onDepth (.filled 2 1 1 .nan) (.filled 2 1 1 .zero)).2 hdepth rfl rfl,
    (onLabel (.filled 2 1 1 32764) (.filled 2 1 1 32766)).2 hlabel rfl rfl⟩

end Tolerances

end RenderVerdict
