import Mathlib.Order.Nat
import RenderVerdict.Image.Picture

/-! Which pictures are rasters of a kind. A picture without surplus samples is a raster of colors and of
depths, and one of labels if its samples are gray and whole, as long as the samples can be counted. -/
namespace RenderVerdict

variable {α : Type}

namespace Raster

theorem ofSamples_eq_ok_iff {shape : Shape} {samples : Array α}
    {enough : shape.size ≤ samples.size} {raster : Raster α} :
    ofSamples shape samples enough = .ok raster ↔
      raster.shape = shape ∧ raster.samples = samples ∧ shape.size < wordCount := by
  unfold ofSamples
  constructor
  · intro h
    split at h
    · cases h
    · split at h
      · next hcount =>
        cases h
        have hsize : shape.count = shape.size :=
          Nat.le_antisymm shape.count_le_size (hcount ▸ enough)
        exact ⟨rfl, rfl, Shape.count_eq_size_iff.mp hsize⟩
      · cases h
  · rintro ⟨rfl, rfl, hfits⟩
    rw [dif_neg raster.channels_pos.ne',
      dif_pos (raster.size_samples.trans (Shape.count_eq_size_iff.mpr hfits).symm)]

theorem exists_ofSamples {shape : Shape} {samples : Array α} {enough : shape.size ≤ samples.size}
    (hpos : 0 < shape.channels) (hsize : samples.size = shape.size)
    (hfits : shape.size < wordCount) : ∃ raster, ofSamples shape samples enough = .ok raster :=
  ⟨⟨shape, samples, hpos, hsize⟩, ofSamples_eq_ok_iff.mpr ⟨rfl, rfl, hfits⟩⟩

/-- Samples are only taken for a shape whose size has not wrapped around. -/
theorem fits_of_ofSamples {shape : Shape} {samples : Array α}
    {enough : shape.size ≤ samples.size} {raster : Raster α}
    (h : ofSamples shape samples enough = .ok raster) : raster.shape.size < wordCount := by
  obtain ⟨rfl, -, hfits⟩ := ofSamples_eq_ok_iff.mp h
  exact hfits

end Raster

namespace Picture

variable {picture : Picture}

def Exact (picture : Picture) : Prop :=
  picture.samples.size = picture.width * picture.height * picture.channels.count

theorem colorShape_channels_pos (picture : Picture) : 0 < picture.colorShape.channels := by
  unfold colorShape
  dsimp only
  split <;> decide

/-- A picture with no surplus samples can be read as color. -/
theorem exists_toColor (h : picture.Exact) (hfits : picture.colorShape.size < wordCount) :
    ∃ raster, picture.toColor = .ok raster := by
  refine Raster.exists_ofSamples picture.colorShape_channels_pos ?_ hfits
  unfold Exact at h
  unfold colorSamples
  split
  · next hchannels hsamples =>
    rw [hchannels, hsamples] at h
    rw [colorShape, hchannels]
    exact h
  · next hchannels hsamples =>
    rw [hchannels, hsamples] at h
    rw [colorShape, hchannels]
    exact h
  · exact List.size_toArray.trans (length_flatMap_colorOf picture)

/-- Every picture can be read as depth. -/
theorem exists_toDepth (picture : Picture) (hfits : picture.width * picture.height < wordCount) :
    ∃ raster, picture.toDepth = .ok raster := by
  have hsize : Shape.size ⟨picture.width, picture.height, 1⟩ = picture.width * picture.height :=
    Nat.mul_one _
  refine Raster.exists_ofSamples Nat.one_pos ?_ (hsize.trans_lt hfits)
  rw [List.size_toArray, length_depths, hsize]

/-- Labels are read from gray samples of eight or sixteen bits and from no others. -/
theorem exists_toLabel_iff (h : picture.Exact)
    (hfits : picture.width * picture.height < wordCount) :
    (∃ raster, picture.toLabel = .ok raster) ↔
      picture.channels = .gray ∧ picture.samples.kind ≠ .single := by
  have hsize : Shape.size ⟨picture.width, picture.height, 1⟩ = picture.width * picture.height :=
    Nat.mul_one _
  unfold Exact at h
  unfold toLabel
  dsimp only
  split
  · next values hchannels hsamples =>
    rw [hchannels, hsamples] at h
    refine iff_of_true (Raster.exists_ofSamples Nat.one_pos (Array.size_map.trans h)
      (hsize.trans_lt hfits)) ⟨hchannels, ?_⟩
    rw [hsamples, Samples.kind]
    decide
  · next values hchannels hsamples =>
    rw [hchannels, hsamples] at h
    refine iff_of_true (Raster.exists_ofSamples Nat.one_pos (Array.size_map.trans h)
      (hsize.trans_lt hfits)) ⟨hchannels, ?_⟩
    rw [hsamples, Samples.kind]
    decide
  · next hnotEight hnotSixteen =>
    refine iff_of_false ?_ ?_
    · rintro ⟨raster, hraster⟩
      cases hraster
    · rintro ⟨hgray, hkind⟩
      cases hsamples : picture.samples with
      | eight values => exact hnotEight values hgray hsamples
      | sixteen values => exact hnotSixteen values hgray hsamples
      | single values => exact hkind (by rw [hsamples, Samples.kind])

theorem shape_of_toLabel {raster : LabelRaster} (h : picture.toLabel = .ok raster) :
    raster.shape = ⟨picture.width, picture.height, 1⟩ ∧ raster.shape.size < wordCount := by
  unfold toLabel at h
  dsimp only at h
  split at h
  · exact ⟨(Raster.ofSamples_eq_ok_iff.mp h).1, Raster.fits_of_ofSamples h⟩
  · exact ⟨(Raster.ofSamples_eq_ok_iff.mp h).1, Raster.fits_of_ofSamples h⟩
  · cases h

end Picture

end RenderVerdict
