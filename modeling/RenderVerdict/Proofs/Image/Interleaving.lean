import RenderVerdict.Proofs.Image.Conversion
import RenderVerdict.Proofs.Lists
import RenderVerdict.Tiff.Content

/-! Interleaved values as depth: of a buffer that holds the same number of values for every pixel,
the first one of each pixel is taken. -/
namespace RenderVerdict

section Strides

variable {α : Type} {stride : Nat}

/-- Every group of a buffer has a first value. -/
theorem map_some_everyNth (values : Array α) (h : 0 < stride) :
    (everyNth stride values).toList.map some =
      (List.range (values.size / stride)).map fun i => values[i * stride]? := by
  rw [everyNth, Array.toList_filterMap, Array.toList_range]
  refine map_some_filterMap fun i hi => ?_
  have hlast : (i + 1) * stride ≤ values.size :=
    (Nat.le_div_iff_mul_le h).mp (List.mem_range.mp hi)
  have hinside : i * stride < values.size := by
    rw [Nat.succ_mul] at hlast
    omega
  simp [hinside]

theorem getElem?_everyNth {values : Array α} (h : 0 < stride) {i : Nat}
    (hi : i < values.size / stride) :
    (everyNth stride values)[i]? = values[i * stride]? := by
  have hplace := congrArg (·[i]?) (map_some_everyNth values h)
  simp only [List.getElem?_map, Array.getElem?_toList, List.getElem?_range hi] at hplace
  cases hfound : (everyNth stride values)[i]? with
  | none => simp [hfound] at hplace
  | some value => simpa [hfound] using hplace

end Strides

section Tiling

variable {width height stride : Nat} {values : Array Single}

/-- A buffer with the same number of values for every pixel, and one at least, is the depth of a
picture: the first value of each pixel. -/
theorem depthOfValues?_of_tiles (path : String) (hpixels : 0 < width * height)
    (hfits : width * height < wordCount) (hstride : 0 < stride)
    (hsize : values.size = width * height * stride) :
    ∃ raster, depthOfValues? path width height values = some (.ok raster) ∧
      raster.shape = ⟨width, height, 1⟩ ∧
      ∀ i < width * height, raster.samples[i]? = values[i * stride]? := by
  have hquotient : values.size / (width * height) = stride := by
    rw [hsize, Nat.mul_div_cancel_left _ hpixels]
  have hgroups : values.size / stride = width * height := by
    rw [hsize, Nat.mul_div_cancel _ hstride]
  have hfills : (everyNth stride values).size = Shape.size ⟨width, height, 1⟩ := by
    rw [size_everyNth values hstride, hgroups, Shape.size, Nat.mul_one, Shape.pixels]
  have htiles : ¬ (width * height = 0 ∨ values.size % (width * height) ≠ 0) := by
    rw [hsize, Nat.mul_mod_right]
    omega
  have hshape : Shape.size ⟨width, height, 1⟩ < wordCount := (Nat.mul_one _).trans_lt hfits
  refine ⟨⟨⟨width, height, 1⟩, everyNth stride values, Nat.one_pos, hfills⟩, ?_, rfl, ?_⟩
  · unfold depthOfValues?
    dsimp only
    rw [dif_neg htiles, dif_neg (hquotient.trans_ne hstride.ne')]
    refine congrArg some (Raster.ofSamples_eq_ok_iff.mpr ⟨rfl, ?_, hshape⟩)
    rw [hquotient]
  · intro i hi
    exact getElem?_everyNth hstride (hgroups ▸ hi)

/-- A picture without pixels, or a buffer that cannot be shared out among the pixels. -/
theorem depthOfValues?_of_not_tiles (path : String)
    (h : width * height = 0 ∨ ¬ width * height ∣ values.size) :
    depthOfValues? path width height values =
      some (.error (.raster (.samplesDoNotTile path values.size width height))) := by
  unfold depthOfValues?
  dsimp only
  rw [dif_pos]
  exact h.imp_right fun hdivides hmod => hdivides (Nat.dvd_of_mod_eq_zero hmod)

/-- The one buffer without an answer is the empty one, for a picture that has pixels. -/
theorem depthOfValues?_eq_none_iff {path : String} :
    depthOfValues? path width height values = none ↔ 0 < width * height ∧ values.size = 0 := by
  constructor
  · intro h
    by_cases htiles : width * height = 0 ∨ ¬ width * height ∣ values.size
    · rw [depthOfValues?_of_not_tiles path htiles] at h
      cases h
    · obtain ⟨hpixels, hdivides⟩ := not_or.mp htiles
      obtain ⟨stride, hsize⟩ := not_not.mp hdivides
      refine ⟨Nat.pos_of_ne_zero hpixels, ?_⟩
      rcases Nat.eq_zero_or_pos stride with rfl | hstride
      · simpa using hsize
      · have hsome := isSome_depthOfValues? path hstride hsize
        rw [h] at hsome
        cases hsome
  · rintro ⟨hpixels, hsize⟩
    simp [depthOfValues?, hpixels.ne', hsize]

end Tiling

namespace Tiff.Values

variable {values : Values}

theorem depthOfValues?_toDepth (path : String) (values : Values) :
    depthOfValues? path values.width values.height values.values = some (values.toDepth path) :=
  (Option.some_get _).symm

/-- The values of a file with pixels, as many as can be counted, are a depth: the first value of each
pixel. -/
theorem exists_toDepth (path : String) (h : 0 < values.width * values.height)
    (hfits : values.width * values.height < wordCount) :
    ∃ raster, values.toDepth path = .ok raster ∧
      raster.shape = ⟨values.width, values.height, 1⟩ ∧
      ∀ i < values.width * values.height,
        raster.samples[i]? = values.values[i * values.count]? := by
  obtain ⟨raster, hraster, hfirst⟩ :=
    depthOfValues?_of_tiles path h hfits values.count_pos values.size_values
  rw [depthOfValues?_toDepth] at hraster
  exact ⟨raster, Option.some.inj hraster, hfirst⟩

theorem toDepth_of_no_pixels (path : String) (h : values.width * values.height = 0) :
    values.toDepth path = .error (.raster
      (.samplesDoNotTile path values.values.size values.width values.height)) := by
  apply Option.some.inj
  rw [← depthOfValues?_toDepth, depthOfValues?_of_not_tiles path (.inl h)]

end Tiff.Values

end RenderVerdict
