import RenderVerdict.Image.Buffer
import RenderVerdict.Proofs.Image.Conversion
import RenderVerdict.Proofs.Image.Writes

/-! Rasters in memory, in which every position is checked when it is read or written. What is made of
samples, of one value or of a picture has as many samples as its shape asks for, and still has after
writes. It fills its shape unless the size of that has wrapped around. As long as it fills it all pixels are
there, and comparisons, whatever the two shapes, find every position that they read. Otherwise a
comparison of colors finds some missing. -/
namespace RenderVerdict

variable {α : Type}

namespace Buffer

def Fills (buffer : Buffer α) : Prop :=
  1 ≤ buffer.shape.channels ∧
    buffer.samples.size = buffer.shape.width * buffer.shape.height * buffer.shape.channels

structure Counted (buffer : Buffer α) : Prop where
  positive : 1 ≤ buffer.shape.channels
  byte : buffer.shape.channels < UInt8.size
  size : buffer.samples.size = buffer.shape.count

theorem Counted.fills_iff {buffer : Buffer α} (h : buffer.Counted) :
    buffer.Fills ↔ buffer.shape.size < wordCount := by
  unfold Fills
  rw [h.size, ← Shape.count_eq_size_iff]
  exact and_iff_right h.positive

theorem ofSamples_eq_ok_iff {width height : UInt32} {channels : UInt8} {samples : Array α}
    {buffer : Buffer α} : ofSamples width height channels samples = .ok buffer ↔
      buffer = ⟨Shape.ofWords width height channels, samples⟩ ∧ buffer.Counted := by
  unfold ofSamples
  dsimp only
  split
  · next hnone =>
    constructor
    · intro h
      cases h
    · rintro ⟨rfl, hcounted⟩
      exact absurd hnone (Nat.ne_of_gt hcounted.positive)
  · next hsome =>
    split
    · next hcount =>
      constructor
      · intro h
        cases h
      · rintro ⟨rfl, hcounted⟩
        exact absurd hcounted.size hcount
    · next hcount =>
      constructor
      · intro h
        cases h
        exact ⟨rfl, Nat.pos_of_ne_zero hsome, channels.toNat_lt, not_not.mp hcount⟩
      · rintro ⟨rfl, -⟩
        rfl

/-- Enough samples are taken as a raster takes them. -/
theorem ofSamples_eq (width height : UInt32) (channels : UInt8) (samples : Array α)
    (enough : (Shape.ofWords width height channels).size ≤ samples.size) :
    ofSamples width height channels samples =
      (Raster.ofSamples (Shape.ofWords width height channels) samples enough).map
        Raster.buffer := by
  unfold Raster.ofSamples ofSamples
  dsimp only
  split
  · rfl
  · rw [ite_not]
    by_cases hcount : samples.size = (Shape.ofWords width height channels).count
    · rw [if_pos hcount, dif_pos hcount]
      rfl
    · rw [if_neg hcount, dif_neg hcount]
      rfl

theorem filled?_eq_some_iff [Sample α] {width height : UInt32} {channels : UInt8} {value : α}
    {buffer : Buffer α} : filled? width height channels value = some buffer ↔
      Shape.count ⟨width.toNat, height.toNat, max channels.toNat 1⟩ * Sample.bytes α ≤
        addressableBytes ∧
      buffer = ⟨⟨width.toNat, height.toNat, max channels.toNat 1⟩,
        Array.replicate (Shape.count ⟨width.toNat, height.toNat, max channels.toNat 1⟩) value⟩ := by
  unfold filled?
  dsimp only
  split
  · next hroom => simp [hroom, eq_comm]
  · next hroom => simp [hroom]

/-- A write that succeeds leaves the shape and the number of samples as they are. -/
theorem counted_of_put? {buffer next : Buffer α} {x y k : Nat} {value : α} (h : buffer.Counted)
    (hput : buffer.put? x y k value = some next) : next.Counted := by
  unfold put? at hput
  dsimp only at hput
  split at hput
  · cases hput
    exact ⟨h.positive, h.byte, Array.size_setIfInBounds.trans h.size⟩
  · cases hput

theorem buffer_eq_of_raster? {buffer : Buffer α} {raster : Raster α}
    (h : buffer.raster? = some raster) : raster.buffer = buffer := by
  unfold raster? at h
  split at h
  · split at h
    · cases h
      rfl
    · cases h
  · cases h

theorem Fills.exists_raster {buffer : Buffer α} (h : buffer.Fills) :
    ∃ raster : Raster α, raster.buffer = buffer := by
  have hpositive : 0 < buffer.shape.channels := h.1
  have hsize : buffer.samples.size = buffer.shape.size := h.2
  have hfound : buffer.raster? = some ⟨buffer.shape, buffer.samples, hpositive, hsize⟩ := by
    unfold raster?
    rw [dif_pos hpositive, dif_pos hsize]
  exact ⟨_, buffer_eq_of_raster? hfound⟩

section Access

variable (raster : Raster α)

/-- The samples of a pixel are all there exactly if there is such a pixel. -/
theorem pixel_fits_iff (index : Nat) :
    (index + 1) * raster.shape.channels ≤ raster.samples.size ↔ index < raster.shape.pixels := by
  rw [raster.size_samples, Shape.size]
  exact Nat.mul_le_mul_right_iff raster.channels_pos

/-- A pixel is read as a raster reads it, unless its end has wrapped around. -/
theorem pixel?_buffer {index : Nat} (hfits : (index + 1) * raster.shape.channels < wordCount) :
    raster.buffer.pixel? index = raster.pixel? index := by
  have hstart : index * raster.shape.channels ≤ (index + 1) * raster.shape.channels :=
    Nat.mul_le_mul_right _ index.le_succ
  have hslice : raster.buffer.pixel? index = raster.buffer.slice? (index * raster.shape.channels)
      ((index + 1) * raster.shape.channels) :=
    congrArg₂ raster.buffer.slice? (Nat.mod_eq_of_lt (hstart.trans_lt hfits))
      (Nat.mod_eq_of_lt hfits)
  have hinside := pixel_fits_iff raster index
  rw [hslice]
  unfold slice? Raster.pixel?
  by_cases hindex : index < raster.shape.pixels
  · have hstop := hinside.mpr hindex
    rw [if_pos ⟨hstart, hstop⟩, dif_pos hindex]
    congr 1
    refine List.ext_getElem ?_ fun k _ _ => ?_
    · rw [Array.length_toList, Array.size_extract, Raster.pixel, List.length_ofFn]
      refine (congrArg (· - index * raster.shape.channels) (Nat.min_eq_left hstop)).trans ?_
      rw [Nat.succ_mul]
      exact Nat.add_sub_cancel_left ..
    · simp [Raster.pixel, Raster.sample, Raster.buffer]
  · rw [if_neg fun h => hindex (hinside.mp h.2), dif_neg hindex]

theorem pixel?_buffer_of_lt (hfits : raster.shape.size < wordCount) {index : Nat}
    (h : index < raster.shape.pixels) : raster.buffer.pixel? index = raster.pixel? index :=
  pixel?_buffer raster ((Nat.mul_le_mul_right raster.shape.channels h).trans_lt hfits)

/-- A write is made as a raster makes it, unless its place has wrapped around. -/
theorem put?_buffer {x y : Nat}
    (hfits : (y * raster.shape.width + x) * raster.shape.channels < wordCount) (k : Nat)
    (value : α) :
    raster.buffer.put? x y k value = (raster.put? x y k value).map Raster.buffer := by
  have hinside := pixel_fits_iff raster (y * raster.shape.width + x)
  rw [Nat.succ_mul] at hinside
  unfold put? Raster.put?
  simp only [Raster.buffer, Nat.mod_eq_of_lt hfits, hinside]
  split <;> rfl

/-- If the size of a shape has wrapped around, some of its pixels are not all there. -/
theorem exists_pixel?_eq_none {buffer : Buffer α} (h : buffer.Counted)
    (hwrapped : wordCount ≤ buffer.shape.size) :
    ∃ index < buffer.shape.pixels, buffer.pixel? index = none := by
  have hword : buffer.samples.size < wordCount := by
    rw [h.size]
    exact Nat.mod_lt _ (by decide)
  have hbyte : buffer.shape.channels < wordCount := h.byte.trans (by decide)
  have hlast : buffer.samples.size / buffer.shape.channels * buffer.shape.channels ≤
      buffer.samples.size := Nat.div_mul_le_self ..
  have hnext : buffer.samples.size <
      (buffer.samples.size / buffer.shape.channels + 1) * buffer.shape.channels :=
    Nat.lt_mul_of_div_lt (Nat.lt_succ_self _) h.positive
  refine ⟨buffer.samples.size / buffer.shape.channels, ?_, if_neg ?_⟩
  · exact Nat.div_lt_of_lt_mul (Nat.mul_comm .. ▸ hword.trans_le hwrapped)
  · rw [Nat.succ_mul] at hnext ⊢
    rw [Nat.mod_eq_of_lt (hlast.trans_lt hword)]
    rcases Nat.lt_or_ge (buffer.samples.size / buffer.shape.channels * buffer.shape.channels +
      buffer.shape.channels) wordCount with hends | hwraps
    · rw [Nat.mod_eq_of_lt hends]
      omega
    · rw [Nat.mod_eq_sub_mod hwraps, Nat.mod_eq_of_lt (by omega)]
      omega

end Access

section Gathering

variable {β : Type} {step : Nat → Option β}

theorem gather?_eq_some {start n : Nat} {found : Fin n → β}
    (h : ∀ i : Fin n, step (start + i) = some (found i)) :
    gather? step start n = some (List.ofFn found) := by
  induction n generalizing start with
  | zero => rfl
  | succ n ih =>
    have hfirst : step start = some (found 0) := h 0
    have hnext : ∀ i : Fin n, step (start + 1 + i) = some (found i.succ) := fun i => by
      rw [Nat.add_right_comm]
      exact h i.succ
    have hrest := ih hnext
    rw [gather?, hfirst, List.ofFn_succ]
    change (gather? step (start + 1) n).bind _ = _
    rw [hrest]
    rfl

theorem gather?_eq_none {start n i : Nat} (hi : i < n) (h : step (start + i) = none) :
    gather? step start n = none := by
  induction n generalizing start i with
  | zero => exact absurd hi (Nat.not_lt_zero i)
  | succ n ih =>
    rw [gather?]
    cases i with
    | zero =>
      rw [show step start = none from h]
      rfl
    | succ i =>
      have hnext : step (start + 1 + i) = none := by
        rw [Nat.add_right_comm]
        exact h
      rw [ih (Nat.lt_of_succ_lt_succ hi) hnext]
      cases step start <;> rfl

end Gathering

section Comparison

variable {tolerances : Tolerances}

theorem place?_eq_some {shape : Shape} (i : Fin shape.pixels) :
    place? shape i.val = some (shape.place i) :=
  if_neg (Nat.pos_of_lt_mul_right i.isLt).ne'

/-- Buffers of different shapes are not looked into. -/
theorem compareWith?_of_ne {channel : Channel} {tolerance : Double} {candidate reference : Buffer α}
    (different : candidate.shape ≠ reference.shape) (difference? : Nat → Option Double) :
    compareWith? tolerances channel tolerance candidate reference difference? =
      some (.error (.shapeMismatch candidate.shape reference.shape)) :=
  if_neg different

theorem compareWith?_buffer {channel : Channel} {tolerance : Double}
    {candidate reference : Raster α} {difference? : Nat → Option Double}
    {difference : Fin candidate.shape.pixels → Fin reference.shape.pixels → Double}
    (h : ∀ i j, i.val = j.val → difference? i.val = some (difference i j)) :
    compareWith? tolerances channel tolerance candidate.buffer reference.buffer difference? =
      some (tolerances.compareWith channel tolerance candidate reference difference) := by
  unfold compareWith? Tolerances.compareWith
  by_cases same : candidate.shape = reference.shape
  · have hdifferences : gather? (fun i => place? candidate.shape i >>= fun _ => difference? i) 0
        candidate.shape.pixels =
          some (List.ofFn fun i => difference i (i.cast (congrArg Shape.pixels same))) := by
      refine gather?_eq_some fun i => ?_
      rw [Nat.zero_add, place?_eq_some]
      exact h i (i.cast (congrArg Shape.pixels same)) rfl
    rw [dif_pos same]
    refine (if_pos same).trans ?_
    change (gather? (fun i => place? candidate.shape i >>= fun _ => difference? i) 0
      candidate.shape.pixels >>= _) = _
    rw [hdifferences]
    rfl
  · rw [dif_neg same]
    exact if_neg same

theorem compareWith?_eq_none {channel : Channel} {tolerance : Double}
    {candidate reference : Buffer α} {difference? : Nat → Option Double}
    (same : candidate.shape = reference.shape) {i : Nat} (hi : i < candidate.shape.pixels)
    (h : difference? i = none) :
    compareWith? tolerances channel tolerance candidate reference difference? = none := by
  refine (if_pos same).trans ?_
  have hnone : gather? (fun i => place? candidate.shape i >>= fun _ => difference? i) 0
      candidate.shape.pixels = none := by
    refine gather?_eq_none hi ?_
    rw [Nat.zero_add, h]
    cases place? candidate.shape i <;> rfl
  change (gather? (fun i => place? candidate.shape i >>= fun _ => difference? i) 0
    candidate.shape.pixels >>= _) = _
  rw [hnone]
  rfl

theorem compareColor?_buffer (candidate reference : ColorRaster)
    (hcandidate : candidate.shape.size < wordCount)
    (hreference : reference.shape.size < wordCount) :
    compareColor? tolerances candidate.buffer reference.buffer =
      some (tolerances.compareColor candidate reference) := by
  refine compareWith?_buffer fun i j hij => ?_
  rw [pixel?_buffer_of_lt _ hcandidate i.isLt, candidate.pixel?_of_lt rfl i, hij,
    pixel?_buffer_of_lt _ hreference j.isLt, reference.pixel?_of_lt rfl j]
  rfl

theorem getElem?_buffer (raster : Raster α) (i : Fin raster.shape.pixels) :
    raster.buffer.samples[i.val]? = some (raster.flatSample i) :=
  Array.getElem?_eq_getElem (i.isLt.trans_le raster.pixels_le_size)

theorem compareDepth?_buffer (candidate reference : DepthRaster) :
    compareDepth? tolerances candidate.buffer reference.buffer =
      some (tolerances.compareDepth candidate reference) := by
  refine compareWith?_buffer fun i j hij => ?_
  rw [getElem?_buffer, hij, getElem?_buffer]
  rfl

theorem compareLabel?_buffer (candidate reference : LabelRaster) :
    compareLabel? tolerances candidate.buffer reference.buffer =
      some (tolerances.compareLabel candidate reference) := by
  refine compareWith?_buffer fun i j hij => ?_
  rw [getElem?_buffer, hij, getElem?_buffer]
  rfl

/-- Colors are not compared to an end if the size of their shape has wrapped around. -/
theorem compareColor?_of_wrapped {candidate reference : Buffer UInt8} (h : candidate.Counted)
    (same : candidate.shape = reference.shape) (hwrapped : wordCount ≤ candidate.shape.size) :
    compareColor? tolerances candidate reference = none := by
  obtain ⟨i, hi, hmissing⟩ := exists_pixel?_eq_none h hwrapped
  refine compareWith?_eq_none same hi ?_
  rw [hmissing]
  rfl

end Comparison

inductive Made : {α : Type} → Buffer α → Prop where
  | ofSamples {α : Type} {width height : UInt32} {channels : UInt8} {samples : Array α}
      {buffer : Buffer α} (h : Buffer.ofSamples width height channels samples = .ok buffer) :
      Made buffer
  | filled {α : Type} [Sample α] {width height : UInt32} {channels : UInt8} {value : α}
      {buffer : Buffer α} (h : Buffer.filled? width height channels value = some buffer) :
      Made buffer
  | color {picture : Picture} {raster : ColorRaster} (h : picture.toColor = .ok raster) :
      Made raster.buffer
  | depth {picture : Picture} {raster : DepthRaster} (h : picture.toDepth = .ok raster) :
      Made raster.buffer
  | label {picture : Picture} {raster : LabelRaster} (h : picture.toLabel = .ok raster) :
      Made raster.buffer
  | put {α : Type} {buffer written : Buffer α} {x y k : Nat} {value : α} (made : Made buffer)
      (h : buffer.put? x y k value = some written) : Made written

theorem counted_buffer {raster : Raster α} (hbyte : raster.shape.channels < UInt8.size)
    (hfits : raster.shape.size < wordCount) : raster.buffer.Counted :=
  ⟨raster.channels_pos, hbyte, raster.size_samples.trans (Shape.count_eq_size_iff.mpr hfits).symm⟩

theorem Made.counted {buffer : Buffer α} (h : Made buffer) : buffer.Counted := by
  induction h with
  | ofSamples h => exact (ofSamples_eq_ok_iff.mp h).2
  | @filled α _ width height channels value buffer h =>
    obtain ⟨-, rfl⟩ := filled?_eq_some_iff.mp h
    exact ⟨Nat.le_max_right .., max_lt channels.toNat_lt (by decide), Array.size_replicate⟩
  | @color picture raster h =>
    obtain ⟨hshape, -, -⟩ := Raster.ofSamples_eq_ok_iff.mp h
    refine counted_buffer ?_ (Raster.fits_of_ofSamples h)
    rw [hshape, Picture.colorShape]
    dsimp only
    split <;> decide
  | @depth picture raster h =>
    obtain ⟨hshape, -, -⟩ := Raster.ofSamples_eq_ok_iff.mp h
    refine counted_buffer ?_ (Raster.fits_of_ofSamples h)
    rw [hshape]
    exact (by decide : 1 < UInt8.size)
  | @label picture raster h =>
    obtain ⟨hshape, hfits⟩ := Picture.shape_of_toLabel h
    refine counted_buffer ?_ hfits
    rw [hshape]
    exact (by decide : 1 < UInt8.size)
  | put _ hput ih => exact counted_of_put? ih hput

/-- The pixels of a buffer that is filled are all there. -/
theorem Made.exists_pixel {buffer : Buffer α} (h : Made buffer)
    (hfits : buffer.shape.size < wordCount) {i : Nat}
    (hi : i < buffer.shape.width * buffer.shape.height) :
    ∃ pixel, buffer.pixel? i = some pixel ∧ pixel.length = buffer.shape.channels := by
  obtain ⟨raster, rfl⟩ := (h.counted.fills_iff.mpr hfits).exists_raster
  exact ⟨_, (pixel?_buffer_of_lt raster hfits hi).trans (raster.pixel?_of_lt rfl ⟨i, hi⟩),
    List.length_ofFn ..⟩

/-- Work that checks every position ends as the work on rasters does, as long as no size has wrapped
around. What has different shapes is not looked into. -/
structure FindsAll (checked : Buffer α → Buffer α → Option (Except Fault PixelReport))
    (compare : Raster α → Raster α → Except Fault PixelReport) : Prop where
  fitting : ∀ candidate reference : Buffer α, Made candidate → Made reference →
    candidate.shape.size < wordCount → reference.shape.size < wordCount →
    ∃ a b : Raster α, a.buffer = candidate ∧ b.buffer = reference ∧
      checked candidate reference = some (compare a b)
  differing : ∀ candidate reference : Buffer α, candidate.shape ≠ reference.shape →
    checked candidate reference = some (.error (.shapeMismatch candidate.shape reference.shape))

theorem findsAll_of_buffer {checked : Buffer α → Buffer α → Option (Except Fault PixelReport)}
    {compare : Raster α → Raster α → Except Fault PixelReport}
    (h : ∀ a b : Raster α, a.shape.size < wordCount → b.shape.size < wordCount →
      checked a.buffer b.buffer = some (compare a b))
    (hdiffering : ∀ candidate reference : Buffer α, candidate.shape ≠ reference.shape →
      checked candidate reference =
        some (.error (.shapeMismatch candidate.shape reference.shape))) :
    FindsAll checked compare where
  fitting candidate reference hcandidate hreference hfits hfits' := by
    obtain ⟨a, rfl⟩ := (hcandidate.counted.fills_iff.mpr hfits).exists_raster
    obtain ⟨b, rfl⟩ := (hreference.counted.fills_iff.mpr hfits').exists_raster
    exact ⟨a, b, rfl, rfl, h a b hfits hfits'⟩
  differing := hdiffering

structure InBounds {α : Type} [Sample α] (width height : UInt32) (channels : UInt8) (value : α) :
    Prop where
  /-- Samples are taken if there is a channel and they are as many as the parts of the shape
  multiply to in 64 bits. -/
  taken : ∀ samples : Array α, (∃ buffer, ofSamples width height channels samples = .ok buffer) ↔
    1 ≤ channels.toNat ∧
      samples.size = width.toNat * height.toNat * channels.toNat % Nat.pow 2 64
  /-- So the samples that are taken are those that fill the shape, exactly as long as that does not
  wrap around. -/
  filling : (∀ samples : Array α,
      (∃ buffer, ofSamples width height channels samples = .ok buffer) ↔
        (⟨Shape.ofWords width height channels, samples⟩ : Buffer α).Fills) ↔
    (Shape.ofWords width height channels).size < Nat.pow 2 64
  enough : ∀ (samples : Array α)
    (enough : (Shape.ofWords width height channels).size ≤ samples.size),
    ofSamples width height channels samples =
      (Raster.ofSamples (Shape.ofWords width height channels) samples enough).map Raster.buffer
  /-- One value can be repeated unless it takes more bytes than there are. -/
  repeated : ((∃ buffer, filled? width height channels value = some buffer) ↔
      width.toNat * height.toNat * max channels.toNat 1 % Nat.pow 2 64 * Sample.bytes α ≤
        addressableBytes) ∧
    ∀ buffer fits, filled? width height channels value = some buffer →
      buffer = (Raster.filled width.toNat height.toNat channels.toNat value fits).buffer
  /-- A picture without surplus samples is a raster, of labels if it is gray and whole. -/
  pictures : ∀ picture : Picture, picture.Exact → picture.colorShape.size < Nat.pow 2 64 →
    (∃ raster, picture.toColor = .ok raster) ∧ (∃ raster, picture.toDepth = .ok raster) ∧
      ((∃ raster, picture.toLabel = .ok raster) ↔
        picture.channels = .gray ∧ picture.samples.kind ≠ .single)
  /-- Pixels are read and written as those of rasters are. -/
  accessed : ∀ raster : Raster α, raster.shape.size < Nat.pow 2 64 →
    (∀ index < raster.shape.pixels, raster.buffer.pixel? index = raster.pixel? index) ∧
    ∀ x y, (y * raster.shape.width + x) * raster.shape.channels < Nat.pow 2 64 →
      ∀ k value, raster.buffer.put? x y k value = (raster.put? x y k value).map Raster.buffer
  /-- What is made is filled exactly if its size has not wrapped around, and then all its pixels
  are there. -/
  made : ∀ buffer : Buffer α, Made buffer →
    1 ≤ buffer.shape.channels ∧ (buffer.Fills ↔ buffer.shape.size < Nat.pow 2 64) ∧
      (buffer.shape.size < Nat.pow 2 64 →
        ∀ i < buffer.shape.width * buffer.shape.height, ∃ pixel, buffer.pixel? i = some pixel ∧
          pixel.length = buffer.shape.channels)
  compared : ∀ tolerances : Tolerances,
    FindsAll (compareColor? tolerances) tolerances.compareColor ∧
    FindsAll (compareDepth? tolerances) tolerances.compareDepth ∧
    FindsAll (compareLabel? tolerances) tolerances.compareLabel
  /-- Colors of one shape are not compared to an end if its size has wrapped around. -/
  wrapped : ∀ tolerances candidate reference, Made candidate →
    candidate.shape = reference.shape → Nat.pow 2 64 ≤ candidate.shape.size →
    compareColor? tolerances candidate reference = none

theorem made_in_bounds {α : Type} [Sample α] (width height : UInt32) (channels : UInt8)
    (value : α) : InBounds width height channels value where
  taken samples := by
    simp only [ofSamples_eq_ok_iff, exists_eq_left]
    exact ⟨fun h => ⟨h.positive, h.size⟩, fun h => ⟨h.1, channels.toNat_lt, h.2⟩⟩
  filling := by
    simp only [ofSamples_eq_ok_iff, exists_eq_left]
    constructor
    · intro hfills
      by_contra hwrapped
      have hpositive : 0 < (Shape.ofWords width height channels).channels := by
        refine Nat.pos_of_ne_zero fun hnone => hwrapped ?_
        rw [Shape.size, hnone, Nat.mul_zero]
        decide
      have hcounted : (⟨Shape.ofWords width height channels,
          Array.replicate (Shape.ofWords width height channels).count value⟩ :
            Buffer α).Counted := ⟨hpositive, channels.toNat_lt, Array.size_replicate⟩
      exact hwrapped (hcounted.fills_iff.mp ((hfills _).mp hcounted))
    · intro hfits samples
      exact ⟨fun h => h.fills_iff.mpr hfits, fun h =>
        ⟨h.1, channels.toNat_lt, h.2.trans (Shape.count_eq_size_iff.mpr hfits).symm⟩⟩
  enough := ofSamples_eq width height channels
  repeated := by
    simp only [filled?_eq_some_iff]
    refine ⟨⟨fun ⟨_, hroom, _⟩ => hroom, fun hroom => ⟨_, hroom, rfl⟩⟩, ?_⟩
    rintro _ hfits ⟨-, rfl⟩
    rw [Shape.count_eq_size_iff.mpr hfits]
    rfl
  pictures picture hexact hfits := by
    have hpixels : picture.width * picture.height < wordCount :=
      (Nat.le_mul_of_pos_right _ picture.colorShape_channels_pos).trans_lt hfits
    exact ⟨Picture.exists_toColor hexact hfits, picture.exists_toDepth hpixels,
      Picture.exists_toLabel_iff hexact hpixels⟩
  accessed raster hfits :=
    ⟨fun _ => pixel?_buffer_of_lt raster hfits, fun _ _ => put?_buffer raster⟩
  made buffer h := ⟨h.counted.positive, h.counted.fills_iff, fun hfits _ => h.exists_pixel hfits⟩
  compared tolerances :=
    ⟨findsAll_of_buffer compareColor?_buffer fun _ _ different => compareWith?_of_ne different _,
      findsAll_of_buffer (fun a b _ _ => compareDepth?_buffer a b) fun _ _ different =>
        compareWith?_of_ne different _,
      findsAll_of_buffer (fun a b _ _ => compareLabel?_buffer a b) fun _ _ different =>
        compareWith?_of_ne different _⟩
  wrapped _ _ _ h := compareColor?_of_wrapped h.counted

def twoGray : Picture := ⟨2, 1, .gray, .sixteen #[7, 32766], by decide⟩

/-- A picture of gray pixels is read as labels, and a buffer of one label is still filled when its last
pixel is written, which then is found, also where it is compared with a buffer of another shape. -/
theorem made_in_bounds_written : twoGray.Exact ∧ (∃ raster, twoGray.toLabel = .ok raster) ∧
    filled? 2 1 0 7 = some ⟨⟨2, 1, 1⟩, #[(7 : Int32), 7]⟩ ∧
    put? ⟨⟨2, 1, 1⟩, #[7, 7]⟩ 1 0 0 9 = some ⟨⟨2, 1, 1⟩, #[(7 : Int32), 9]⟩ ∧
    (∃ pixel, pixel? ⟨⟨2, 1, 1⟩, #[(7 : Int32), 9]⟩ 1 = some pixel ∧ pixel.length = 1) ∧
    ∃ result, compareLabel? .standard ⟨⟨2, 1, 1⟩, #[7, 9]⟩ ⟨⟨1, 1, 1⟩, #[7]⟩ = some result := by
  have hexact : twoGray.Exact := rfl
  have hfilled : filled? 2 1 0 7 = some ⟨⟨2, 1, 1⟩, #[(7 : Int32), 7]⟩ := rfl
  have hput : put? ⟨⟨2, 1, 1⟩, #[7, 7]⟩ 1 0 0 9 = some ⟨⟨2, 1, 1⟩, #[(7 : Int32), 9]⟩ := rfl
  have hmade : Made (⟨⟨2, 1, 1⟩, #[(7 : Int32), 9]⟩ : Buffer Int32) := .put (.filled hfilled) hput
  have hother : filled? 1 1 1 7 = some ⟨⟨1, 1, 1⟩, #[(7 : Int32)]⟩ := rfl
  have hfits : Shape.size ⟨2, 1, 1⟩ < Nat.pow 2 64 := by decide
  have hbounds := made_in_bounds 2 1 0 (7 : Int32)
  obtain ⟨a, b, -, -, hfound⟩ := (hbounds.compared .standard).2.2.fitting _ _ hmade
    (.filled hother) hfits (by decide)
  exact ⟨hexact, (hbounds.pictures twoGray hexact (by decide)).2.2.mpr ⟨rfl, by decide⟩,
    hfilled, hput, (hbounds.made _ hmade).2.2 hfits 1 (by decide), _, hfound⟩

/-- A shape whose size is `2 ^ 64` is taken without any sample, and comparing such rasters ends at
their first pixel. -/
theorem ofSamples_wrapped : ∃ buffer : Buffer UInt8,
    ofSamples 2147483648 2147483648 4 #[] = .ok buffer ∧ ¬ buffer.Fills ∧
      buffer.pixel? 0 = none ∧ compareColor? .standard buffer buffer = none := by
  have htaken : ofSamples 2147483648 2147483648 4 #[] =
      .ok (⟨⟨2147483648, 2147483648, 4⟩, #[]⟩ : Buffer UInt8) := rfl
  have hcounted := (ofSamples_eq_ok_iff.mp htaken).2
  have hwrapped : wordCount ≤ Shape.size ⟨2147483648, 2147483648, 4⟩ := by decide
  refine ⟨_, htaken, fun hfills => ?_, rfl, compareColor?_of_wrapped hcounted rfl hwrapped⟩
  exact absurd (hcounted.fills_iff.mp hfills) (Nat.not_lt.mpr hwrapped)

end Buffer

end RenderVerdict
