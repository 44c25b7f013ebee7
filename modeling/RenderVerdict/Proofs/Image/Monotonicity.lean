import RenderVerdict.Proofs.Image.Coverage
import RenderVerdict.Proofs.Image.Threshold
import RenderVerdict.Proofs.Image.Writes

/-! Verdicts on rasters are monotone. With larger tolerances, or with samples of the candidate replaced
by what the reference asks for, no more pixels are invalid, no difference is larger, and what passed
still passes. A report without invalid pixels passes, and one on pixels that are all invalid fails. -/
namespace RenderVerdict

/-- What exceeds a tolerance exceeds each tolerance that is not above it. -/
theorem Binary.ExceededBy.of_not_lt {f : Format} {strict lax : Binary f} {r : ℚ}
    (h : lax.ExceededBy r) (hstrict : strict.NonNegative) (hle : ¬ lax.lt strict) :
    strict.ExceededBy r := by
  cases strict with
  | nan => exact absurd rfl hstrict.1
  | infinite negative =>
    cases negative with
    | false => exact absurd ((lt_infinite_iff h.1).mpr rfl) hle
    | true => exact absurd rfl hstrict.2
  | finite a m q hc =>
    rw [lt_finite_iff h.1 rfl, not_lt] at hle
    exact ⟨rfl, hle.trans_lt h.2⟩

namespace PixelReport

variable {report better : PixelReport} {limit : Double}

theorem Judged.isFinite_invalidFraction (h : report.Judged limit) :
    report.invalidFraction.isFinite := by
  rcases report.totalPixels.eq_zero_or_pos with hnone | hsome
  · rw [h.quotient, fraction, if_pos hnone]
    rfl
  · exact (h.isNearest_invalidFraction hsome).isFinite

theorem Judged.passed_iff (h : report.Judged limit) (hlimit : IsFraction limit) :
    report.passed ↔ report.invalidFraction.toRat < limit.toRat := by
  rw [h.passed, Binary.lt_finite_iff h.isFinite_invalidFraction hlimit.1]

theorem Judged.toRat_of_none (h : report.Judged limit) (hnone : report.invalidPixels = 0) :
    report.invalidFraction.toRat = 0 := by
  rcases report.totalPixels.eq_zero_or_pos with hempty | hpixels
  · rw [h.quotient, fraction, if_pos hempty, Binary.toRat_zero]
  · have hnear := h.isNearest_invalidFraction hpixels
    rw [hnone, Nat.cast_zero, zero_div] at hnear
    exact hnear.eq_zero

theorem Judged.toRat_of_all (h : report.Judged limit) (hpixels : 0 < report.totalPixels)
    (hall : report.invalidPixels = report.totalPixels) : report.invalidFraction.toRat = 1 := by
  have hnear := h.isNearest_invalidFraction hpixels
  have htotal : (report.totalPixels : ℚ) ≠ 0 := by exact_mod_cast hpixels.ne'
  rw [hall, div_self htotal] at hnear
  exact hnear.eq_one

/-- Of as many pixels, fewer invalid ones are no greater fraction. -/
theorem Judged.toRat_mono {limit' : Double} (h : report.Judged limit) (h' : better.Judged limit')
    (htotal : better.totalPixels = report.totalPixels)
    (hinvalid : better.invalidPixels ≤ report.invalidPixels) :
    better.invalidFraction.toRat ≤ report.invalidFraction.toRat := by
  rcases report.totalPixels.eq_zero_or_pos with hempty | hpixels
  · have hnone : report.invalidPixels = 0 := Nat.le_zero.mp (h.le.trans_eq hempty)
    rw [h.toRat_of_none hnone, h'.toRat_of_none (Nat.le_zero.mp (hinvalid.trans_eq hnone))]
  · refine (h'.isNearest_invalidFraction (htotal ▸ hpixels)).mono
      (h.isNearest_invalidFraction hpixels) ?_
    rw [htotal]
    gcongr

/-- A report without invalid pixels passes. -/
theorem Judged.passed_of_none (h : report.Judged limit) (hlimit : IsFraction limit)
    (hnone : report.invalidPixels = 0) : report.passed := by
  rw [h.passed_iff hlimit, h.toRat_of_none hnone]
  exact hlimit.2.1

/-- A report on pixels that are all invalid fails. -/
theorem Judged.not_passed_of_all (h : report.Judged limit) (hlimit : IsFraction limit)
    (hpixels : 0 < report.totalPixels) (hall : report.invalidPixels = report.totalPixels) :
    ¬ report.passed := by
  rw [h.passed_iff hlimit, h.toRat_of_all hpixels hall, not_lt]
  exact hlimit.2.2

structure NoWorse (better report : PixelReport) : Prop where
  invalid : better.invalidPixels ≤ report.invalidPixels
  finite : better.maxDifference.isFinite ∧ report.maxDifference.isFinite
  largest : better.maxDifference.toRat ≤ report.maxDifference.toRat
  passed : report.passed → better.passed

section Tallies

variable {shape : Shape} {strict lax : Double} {difference smaller : Fin shape.pixels → ℚ}

theorem Tallies.invalid_mono (h : report.Tallies shape strict difference)
    (h' : better.Tallies shape lax smaller) (hle : ∀ i, smaller i ≤ difference i)
    (hlax : ∀ r, lax.ExceededBy r → strict.ExceededBy r) :
    better.invalidPixels ≤ report.invalidPixels := by
  rw [h.invalid, h'.invalid]
  refine Finset.card_le_card fun i hi => ?_
  rw [Finset.mem_filter] at hi ⊢
  obtain ⟨hfinite, hlt⟩ := hlax _ hi.2
  exact ⟨hi.1, hfinite, hlt.trans_le (hle i)⟩

theorem Tallies.largest_mono (h : report.Tallies shape strict difference)
    (h' : better.Tallies shape lax smaller) (hle : ∀ i, smaller i ≤ difference i) :
    better.maxDifference.toRat ≤ report.maxDifference.toRat := by
  rcases h'.largest.1 with hzero | ⟨i, hi⟩
  · rw [hzero]
    exact h.largest.2 (Set.mem_insert _ _)
  · rw [← hi]
    exact (hle i).trans (h.largest.2 (.inr ⟨i, rfl⟩))

/-- The tally of differences that are no larger, under a tolerance and a limit that are no smaller, is
no worse. -/
theorem Tallies.noWorse {limit' : Double} (h : report.Tallies shape strict difference)
    (h' : better.Tallies shape lax smaller) (hle : ∀ i, smaller i ≤ difference i)
    (hlax : ∀ r, lax.ExceededBy r → strict.ExceededBy r) (hj : report.Judged limit)
    (hj' : better.Judged limit') (hlimit : IsFraction limit) (hlimit' : IsFraction limit')
    (hlimits : limit.toRat ≤ limit'.toRat) : better.NoWorse report := by
  have hinvalid := h.invalid_mono h' hle hlax
  refine ⟨hinvalid, ⟨h'.finite, h.finite⟩, h.largest_mono h' hle, ?_⟩
  rw [hj.passed_iff hlimit, hj'.passed_iff hlimit']
  intro hpassed
  calc better.invalidFraction.toRat ≤ report.invalidFraction.toRat :=
        hj.toRat_mono hj' (h'.total.trans h.total.symm) hinvalid
    _ < limit.toRat := hpassed
    _ ≤ limit'.toRat := hlimits

end Tallies

end PixelReport

def Improves (before after : Except Fault PixelReport) : Prop :=
  ∃ report better, before = .ok report ∧ after = .ok better ∧ better.NoWorse report

section Differences

variable {n : Nat} {r s : ℚ}

theorem ColorDifference.nonneg {a b : Fin n → UInt8} (h : ColorDifference a b r) : 0 ≤ r := by
  obtain ⟨k, rfl⟩ := h.1
  exact abs_nonneg _

/-- A color in which some samples are replaced by the reference's is no further from it. -/
theorem ColorDifference.of_mended {a b mended : Fin n → UInt8} (h : ColorDifference a b r)
    (h' : ColorDifference mended b s) (hmended : ∀ k, mended k = a k ∨ mended k = b k) : s ≤ r := by
  obtain ⟨k, hk⟩ := h'.1
  subst hk
  change sampleDifference (mended k) (b k) ≤ r
  rcases hmended k with hkept | hreplaced
  · rw [hkept]
    exact h.2 ⟨k, rfl⟩
  · rw [hreplaced, sampleDifference_self]
    exact h.nonneg

theorem DepthDifference.of_mended {a b mended : Single} (h : DepthDifference a b r)
    (h' : DepthDifference mended b s) (hmended : mended = a ∨ mended = b) : s ≤ r := by
  rcases hmended with rfl | rfl
  · exact (h'.unique h).le
  · obtain ⟨x, hx, rfl⟩ := h
    obtain ⟨y, hy, rfl⟩ := h'
    refine hy.mono hx ?_
    rw [sub_self, abs_zero]
    exact abs_nonneg _

theorem LabelDifference.of_mended {remap : Option LabelRemap} {a b mended : Int32}
    (h : LabelDifference remap a b r) (h' : LabelDifference remap mended b s)
    (hmended : mended = a ∨ mended = expectedLabel remap b) : s ≤ r := by
  rcases hmended with rfl | rfl
  · exact (h'.trans h.symm).le
  · rw [h, h', sub_self, abs_zero]
    exact abs_nonneg _

end Differences

/-- A raster in which some samples of a candidate are replaced by what is expected in place of the
reference's. -/
structure Raster.Mends {α : Type} (expected : α → α) (mended candidate reference : Raster α) :
    Prop where
  same : candidate.shape = reference.shape
  same_mended : candidate.shape = mended.shape
  mends : ∀ i k, mended.sampleAs same_mended i k = candidate.sample i k ∨
    mended.sampleAs same_mended i k = expected (reference.sampleAs same i k)

namespace Raster

variable {α : Type} {expected : α → α} {mended candidate reference : Raster α}

theorem Mends.self (expected : α → α) (same : candidate.shape = reference.shape) :
    candidate.Mends expected candidate reference :=
  ⟨same, rfl, fun _ _ => .inl rfl⟩

theorem Mends.flatSample (h : mended.Mends expected candidate reference)
    (i : Fin candidate.shape.pixels) :
    mended.flatSample (i.cast (congrArg Shape.pixels h.same_mended)) = candidate.flatSample i ∨
      mended.flatSample (i.cast (congrArg Shape.pixels h.same_mended)) =
        expected (reference.flatSample (i.cast (congrArg Shape.pixels h.same))) := by
  obtain ⟨j, k, -, hflat⟩ := exists_flatSample candidate.channels_pos i
  rw [hflat mended h.same_mended, hflat reference h.same]
  exact (hflat candidate rfl).symm ▸ h.mends j k

/-- Writes of what is expected mend the candidate. -/
theorem exists_mends (same : candidate.shape = reference.shape)
    (writes : List (Write candidate.shape α)) (hwrites : ∀ write ∈ writes,
      write.value = expected (reference.sampleAs same write.index write.channel)) :
    ∃ mended, candidate.putAll? writes = some mended ∧ mended.Mends expected candidate reference := by
  obtain ⟨mended, hput, same', hmended⟩ := candidate.putAll?_spec rfl writes
  refine ⟨mended, hput, same, same', fun i k => ?_⟩
  rcases hmended i k with hkept | ⟨write, hwrite, rfl, rfl, hvalue⟩
  · exact .inl hkept
  · exact .inr (hvalue.trans (hwrites write hwrite))

end Raster

namespace Tolerances

structure Relaxes (lax strict : Tolerances) : Prop where
  color : ¬ lax.color.lt strict.color
  depth : ¬ lax.depth.lt strict.depth
  label : ¬ lax.label.lt strict.label
  invalidFraction : ¬ lax.invalidFraction.lt strict.invalidFraction
  remap : lax.remap = strict.remap

theorem Relaxes.self (tolerances : Tolerances) : tolerances.Relaxes tolerances :=
  ⟨Binary.not_lt_self _, Binary.not_lt_self _, Binary.not_lt_self _, Binary.not_lt_self _, rfl⟩

theorem tallied_sameShape {tolerances : Tolerances} {shape : Shape} {candidate reference : ColorRaster}
    (ht : tolerances.color.NonNegative) (hc : shape = candidate.shape) (hr : shape = reference.shape) :
    Tallied (tolerances.compareColor candidate reference) shape tolerances.color
      fun i => ColorDifference (candidate.sampleAs hc i) (reference.sampleAs hr i) := by
  subst hc
  exact tallied_compareColor ht hr

section Relaxes

variable {strict lax : Tolerances} (hstrict : strict.validate = .ok ())
  (hlax : lax.validate = .ok ()) (relaxes : lax.Relaxes strict)

include hstrict hlax relaxes

/-- Where tolerances are relaxed and differences no larger, a comparison improves. -/
theorem Relaxes.improves {before after : Except Fault PixelReport} {shape : Shape}
    {tolerance tolerance' : Double} {IsDifference IsSmaller : Fin shape.pixels → ℚ → Prop}
    (h : Tallied before shape tolerance IsDifference) (h' : Tallied after shape tolerance' IsSmaller)
    (reports : ∀ report, before = .ok report → strict.Reports report)
    (reports' : ∀ better, after = .ok better → lax.Reports better)
    (ht : tolerance.NonNegative) (hle : ¬ tolerance'.lt tolerance)
    (hsmaller : ∀ i r s, IsDifference i r → IsSmaller i s → s ≤ r) : Improves before after := by
  obtain ⟨report, difference, hok, hdifference, htallies⟩ := h
  obtain ⟨better, smaller, hok', hsmall, htallies'⟩ := h'
  have hlimit := (validate_eq_ok_iff.mp hstrict).2.2.2
  have hlimit' := (validate_eq_ok_iff.mp hlax).2.2.2
  have hlimits := relaxes.invalidFraction
  rw [Binary.lt_finite_iff hlimit'.1 hlimit.1, not_lt] at hlimits
  exact ⟨report, better, hok, hok', htallies.noWorse htallies'
    (fun i => hsmaller i _ _ (hdifference i) (hsmall i)) (fun _ hexceeded => hexceeded.of_not_lt ht hle)
    (reports report hok).judged (reports' better hok').judged hlimit hlimit' hlimits⟩

theorem Relaxes.compareColor {mended candidate reference : ColorRaster}
    (h : mended.Mends id candidate reference) :
    Improves (strict.compareColor candidate reference) (lax.compareColor mended reference) := by
  obtain ⟨ht, -⟩ := validate_eq_ok_iff.mp hstrict
  obtain ⟨ht', -⟩ := validate_eq_ok_iff.mp hlax
  exact relaxes.improves hstrict hlax (tallied_compareColor ht h.same)
    (tallied_sameShape ht' h.same_mended h.same) (fun _ => .color) (fun _ => .color) ht relaxes.color
    fun i r s hr hs => hr.of_mended hs (h.mends i)

theorem Relaxes.compareDepth {mended candidate reference : DepthRaster}
    (h : mended.Mends id candidate reference) :
    Improves (strict.compareDepth candidate reference) (lax.compareDepth mended reference) := by
  obtain ⟨-, ht, -⟩ := validate_eq_ok_iff.mp hstrict
  obtain ⟨-, ht', -⟩ := validate_eq_ok_iff.mp hlax
  have hafter := tallied_compareDepth ht' (h.same_mended.symm.trans h.same)
  exact relaxes.improves hstrict hlax (tallied_compareDepth ht h.same) (hafter.cast h.same_mended)
    (fun _ => .depth) (fun _ => .depth) ht relaxes.depth
    fun i r s hr hs => hr.of_mended hs (h.flatSample i)

theorem Relaxes.compareLabel {mended candidate reference : LabelRaster}
    (h : mended.Mends (expectedLabel strict.remap) candidate reference) :
    Improves (strict.compareLabel candidate reference) (lax.compareLabel mended reference) := by
  obtain ⟨-, -, ht, -⟩ := validate_eq_ok_iff.mp hstrict
  obtain ⟨-, -, ht', -⟩ := validate_eq_ok_iff.mp hlax
  have hafter := tallied_compareLabel ht' (h.same_mended.symm.trans h.same)
  rw [relaxes.remap] at hafter
  exact relaxes.improves hstrict hlax (tallied_compareLabel ht h.same) (hafter.cast h.same_mended)
    (fun _ => .label) (fun _ => .label) ht relaxes.label
    fun i r s hr hs => hr.of_mended hs (h.flatSample i)

end Relaxes

def ImprovedBy {α : Type} (before after : Raster α → Raster α → Except Fault PixelReport) : Prop :=
  ∀ candidate reference : Raster α, candidate.shape = reference.shape →
    Improves (before candidate reference) (after candidate reference)

/-- A comparison improves when samples of the candidate are overwritten with what is expected in place of
the reference's. -/
def ImprovedByWrites {α : Type} (expected : α → α)
    (compare : Raster α → Raster α → Except Fault PixelReport) : Prop :=
  ∀ (candidate reference : Raster α) (same : candidate.shape = reference.shape)
    (writes : List (Write candidate.shape α)),
    (∀ write ∈ writes,
      write.value = expected (reference.sampleAs same write.index write.channel)) →
    ∃ mended, candidate.putAll? writes = some mended ∧
      Improves (compare candidate reference) (compare mended reference)

theorem improvedByWrites_of_mends {α : Type} {expected : α → α}
    {compare : Raster α → Raster α → Except Fault PixelReport}
    (h : ∀ mended candidate reference : Raster α, mended.Mends expected candidate reference →
      Improves (compare candidate reference) (compare mended reference)) :
    ImprovedByWrites expected compare := by
  intro candidate reference same writes hwrites
  obtain ⟨mended, hput, hmends⟩ := Raster.exists_mends same writes hwrites
  exact ⟨mended, hput, h mended candidate reference hmends⟩

variable {tolerances : Tolerances}

/-- With valid tolerances verdicts are monotone. On rasters of one shape, relaxing the tolerances and
overwriting samples of the candidate with those of the reference, which for labels are remapped, make no
more pixels invalid, no difference larger, and no comparison fail that passed. Comparisons without
invalid pixels pass, and those of pixels that are all invalid fail. -/
theorem verdicts_monotone (valid : tolerances.validate = .ok ()) :
    (∀ lax : Tolerances, lax.validate = .ok () → lax.Relaxes tolerances →
      ImprovedBy tolerances.compareColor lax.compareColor ∧
      ImprovedBy tolerances.compareDepth lax.compareDepth ∧
      ImprovedBy tolerances.compareLabel lax.compareLabel) ∧
    ImprovedByWrites id tolerances.compareColor ∧
    ImprovedByWrites id tolerances.compareDepth ∧
    ImprovedByWrites (expectedLabel tolerances.remap) tolerances.compareLabel ∧
    ∀ report, tolerances.Reports report →
      (report.invalidPixels = 0 → report.passed) ∧
      (0 < report.totalPixels → report.invalidPixels = report.totalPixels → ¬ report.passed) := by
  have hlimit := (validate_eq_ok_iff.mp valid).2.2.2
  have hself := Relaxes.self tolerances
  refine ⟨fun lax hlax relaxes => ⟨?_, ?_, ?_⟩, ?_, ?_, ?_, fun report hreport => ?_⟩
  · exact fun _ _ same => relaxes.compareColor valid hlax (.self id same)
  · exact fun _ _ same => relaxes.compareDepth valid hlax (.self id same)
  · exact fun _ _ same => relaxes.compareLabel valid hlax (.self _ same)
  · exact improvedByWrites_of_mends fun _ _ _ h => hself.compareColor valid valid h
  · exact improvedByWrites_of_mends fun _ _ _ h => hself.compareDepth valid valid h
  · exact improvedByWrites_of_mends fun _ _ _ h => hself.compareLabel valid valid h
  · exact ⟨hreport.judged.passed_of_none hlimit, hreport.judged.not_passed_of_all hlimit⟩

def laxColors : Tolerances := { standard with color := Binary.nearest 60 }

def toBackground : List (Write ⟨1, 1, 1⟩ Int32) := [⟨(0, 0), 0, 32764⟩]

/-- Colors that are too far apart for the standard tolerances are compared with lax ones, and a label is
overwritten with what its reference stands for. As it was, it made the comparison fail. -/
theorem verdicts_monotone_standard : laxColors.Relaxes standard ∧
    Improves (standard.compareColor (.filled 2 1 3 100) (.filled 2 1 3 150))
      (laxColors.compareColor (.filled 2 1 3 100) (.filled 2 1 3 150)) ∧
    (∃ mended, (Raster.filled 1 1 1 5).putAll? toBackground = some mended ∧
      Improves (standard.compareLabel (.filled 1 1 1 5) (.filled 1 1 1 32766))
        (standard.compareLabel mended (.filled 1 1 1 32766))) ∧
    ∃ report, standard.compareLabel (.filled 1 1 1 5) (.filled 1 1 1 32766) = .ok report ∧
      report.invalidPixels = 1 ∧ ¬ report.passed := by
  have hself := Relaxes.self standard
  have hrelaxes : laxColors.Relaxes standard := { hself with color := by decide +kernel }
  have hlax : laxColors.validate = .ok () := by
    obtain ⟨-, hothers⟩ := validate_eq_ok_iff.mp validate_standard
    exact validate_eq_ok_iff.mpr ⟨by decide +kernel, hothers⟩
  obtain ⟨relaxed, -, -, written, verdict⟩ := verdicts_monotone validate_standard
  obtain ⟨report, hok, hinvalid, htotal⟩ : ∃ report,
      standard.compareLabel (.filled 1 1 1 5) (.filled 1 1 1 32766) = .ok report ∧
        report.invalidPixels = 1 ∧ report.totalPixels = 1 := ⟨_, rfl, by decide +kernel, rfl⟩
  refine ⟨hrelaxes, (relaxed laxColors hlax hrelaxes).1 _ _ rfl,
    written (.filled 1 1 1 5) (.filled 1 1 1 32766) rfl toBackground ?_, report, hok, hinvalid, ?_⟩
  · intro write hwrite
    rw [List.mem_singleton.mp hwrite]
    rfl
  · exact (verdict report (.label hok)).2 (htotal ▸ Nat.one_pos) (hinvalid.trans htotal.symm)

end Tolerances

end RenderVerdict
