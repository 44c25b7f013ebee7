import RenderVerdict.Image.Raster

/-! Pictures as files store them, and the rasters they are read as. -/
namespace RenderVerdict

inductive Samples where
  | eight (values : Array UInt8)
  | sixteen (values : Array UInt16)
  | single (values : Array Single)
deriving DecidableEq

namespace Samples

def size : Samples → Nat
  | .eight values => values.size
  | .sixteen values => values.size
  | .single values => values.size

def take (count : Nat) : Samples → Samples
  | .eight values => .eight (values.take count)
  | .sixteen values => .sixteen (values.take count)
  | .single values => .single (values.take count)

theorem size_take (count : Nat) (samples : Samples) :
    (samples.take count).size = min count samples.size := by
  cases samples <;> simp [take, size]

def kind : Samples → SampleKind
  | .eight _ => .eight
  | .sixteen _ => .sixteen
  | .single _ => .single

end Samples

/-- A picture. Samples past those of its last pixel belong to none. -/
structure Picture where
  width : Nat
  height : Nat
  channels : Channels
  samples : Samples
  size_le : width * height * channels.count ≤ samples.size
deriving DecidableEq

def pixelsOf {α : Type} (pixels count : Nat) (values : Array α) : List (List α) :=
  (List.range pixels).map fun i => (values.extract (i * count) ((i + 1) * count)).toList

theorem length_pixelsOf {α : Type} (pixels count : Nat) (values : Array α) :
    (pixelsOf pixels count values).length = pixels := by
  simp [pixelsOf]

theorem length_of_mem_pixelsOf {α : Type} {pixels count : Nat} {values : Array α}
    {pixel : List α} (enough : pixels * count ≤ values.size)
    (mem : pixel ∈ pixelsOf pixels count values) : pixel.length = count := by
  obtain ⟨i, inside, rfl⟩ := List.mem_map.mp mem
  have stop : (i + 1) * count ≤ pixels * count := Nat.mul_le_mul_right _ (List.mem_range.mp inside)
  rw [Array.length_toList, Array.size_extract, Nat.min_eq_left (Nat.le_trans stop enough),
    Nat.succ_mul]
  exact Nat.add_sub_cancel_left ..

/-- A stored value as a fraction of the largest one: times the rounded reciprocal. -/
def fractionOf (largest value : Nat) : Single :=
  let reciprocal : Single := Binary.nearest (1 / largest)
  Binary.nearest (value * reciprocal.toRat)

/-- The byte that a fraction of one stands for; a half goes away from zero. -/
def byteOf (x : Single) : UInt8 :=
  let scaled : Single := Binary.nearest (x.toRat * 255)
  (roundQuotient .away scaled.toRat.num.natAbs scaled.toRat.den).toUInt8

/-- A value held between zero and one; not-a-number counts as one. -/
def clampUnit (x : Single) : Single :=
  let one : Single := Binary.nearest 1
  if x.isNaN then one
  else if x.lt Binary.zero then Binary.zero
  else if one.lt x then one
  else x

namespace Picture

/-- The samples as bytes. Gray goes through fractions, color of sixteen bits through one rounded
division. -/
def toBytes (picture : Picture) : Array UInt8 :=
  let gray := picture.channels.count ≤ 2
  match picture.samples with
  | .eight values => if gray then values.map fun v => byteOf (fractionOf 255 v.toNat) else values
  | .sixteen values =>
    if gray then values.map fun v => byteOf (fractionOf 65535 v.toNat)
    else values.map fun v => ((v.toNat + 128) / 257).toUInt8
  | .single values => values.map fun v => byteOf (clampUnit v)

def colorOf : List UInt8 → List UInt8
  | [v] => [v, v, v]
  | [v, alpha] => [v, v, v, alpha]
  | color => color

theorem length_colorOf {pixel : List UInt8} {channels : Channels}
    (length : pixel.length = channels.count) :
    (colorOf pixel).length = if channels.hasAlpha then 4 else 3 := by
  match channels, pixel, length with
  | .gray, [_], _ => rfl
  | .grayAlpha, [_, _], _ => rfl
  | .rgb, [_, _, _], _ => rfl
  | .rgba, [_, _, _, _], _ => rfl

theorem size_toBytes (picture : Picture) : picture.toBytes.size = picture.samples.size := by
  unfold toBytes
  cases picture.samples with
  | eight values =>
    dsimp only
    split
    · exact Array.size_map
    · rfl
  | sixteen values =>
    dsimp only
    split <;> exact Array.size_map
  | single values => exact Array.size_map

def colorShape (picture : Picture) : Shape :=
  ⟨picture.width, picture.height, if picture.channels.hasAlpha then 4 else 3⟩

/-- The samples as color. Samples that are color already are all taken, the others pixel by
pixel. -/
def colorSamples (picture : Picture) : Array UInt8 :=
  match picture.channels, picture.samples with
  | .rgb, .eight values | .rgba, .eight values => values
  | channels, _ =>
    let pixels := pixelsOf (picture.width * picture.height) channels.count picture.toBytes
    (pixels.flatMap colorOf).toArray

theorem length_flatMap_colorOf (picture : Picture) :
    ((pixelsOf (picture.width * picture.height) picture.channels.count picture.toBytes).flatMap
      colorOf).length = picture.colorShape.size := by
  have enough : picture.width * picture.height * picture.channels.count ≤ picture.toBytes.size := by
    rw [size_toBytes]
    exact picture.size_le
  have lengths : ∀ pixels : List (List UInt8),
      (∀ pixel ∈ pixels, pixel.length = picture.channels.count) →
      (pixels.flatMap colorOf).length = pixels.length * picture.colorShape.channels := by
    intro pixels count
    induction pixels with
    | nil => simp
    | cons pixel rest ih =>
      rw [List.flatMap_cons, List.length_append, length_colorOf (count _ List.mem_cons_self),
        ih fun pixel mem => count pixel (List.mem_cons_of_mem _ mem), List.length_cons,
        Nat.succ_mul, Nat.add_comm]
      rfl
  rw [lengths _ fun _ => length_of_mem_pixelsOf enough, length_pixelsOf]
  rfl

theorem size_colorShape_le (picture : Picture) :
    picture.colorShape.size ≤ picture.colorSamples.size := by
  have enough := picture.size_le
  unfold colorSamples
  split
  · next channels samples =>
    rw [channels, samples] at enough
    rw [colorShape, channels]
    exact enough
  · next channels samples =>
    rw [channels, samples] at enough
    rw [colorShape, channels]
    exact enough
  · exact Nat.le_of_eq ((length_flatMap_colorOf picture).symm.trans List.size_toArray.symm)

def toColor (picture : Picture) : Except Fault ColorRaster :=
  Raster.ofSamples picture.colorShape picture.colorSamples picture.size_colorShape_le

def lumaWeights : List Single :=
  [Binary.round false 0xd9c05b (power 2 26), Binary.round false 0xb715fc (power 2 24),
    Binary.round false 0x93cf75 (power 2 27)]

def luma (color : List Single) : Single :=
  (color.zip lumaWeights).foldl (fun sum (part, weight) =>
    let term : Single := Binary.nearest (part.toRat * weight.toRat)
    Binary.nearest (sum.toRat + term.toRat)) Binary.zero

/-- The brightness of a pixel whose samples are at most `largest`: gray as a rounded quotient,
color as a weighted sum. -/
def brightness (largest : Nat) (pixel : List Nat) : Single :=
  match pixel with
  | [] => Binary.zero
  | gray :: rest =>
    if rest.length < 2 then Binary.nearest (gray / largest)
    else luma (pixel.map (fractionOf largest))

def depths (picture : Picture) : List Single :=
  let pixels := picture.width * picture.height
  let count := picture.channels.count
  match picture.samples with
  | .eight values => (pixelsOf pixels count (values.map UInt8.toNat)).map (brightness 255)
  | .sixteen values => (pixelsOf pixels count (values.map UInt16.toNat)).map (brightness 65535)
  | .single values => (pixelsOf pixels count values).filterMap List.head?

theorem length_depths (picture : Picture) :
    picture.depths.length = picture.width * picture.height := by
  have enough := picture.size_le
  unfold depths
  cases samples : picture.samples with
  | eight values => rw [List.length_map, length_pixelsOf]
  | sixteen values => rw [List.length_map, length_pixelsOf]
  | single values =>
    rw [samples] at enough
    dsimp only
    rw [List.length_filterMap_eq_countP, List.countP_eq_length.mpr, length_pixelsOf]
    intro pixel mem
    have length := length_of_mem_pixelsOf enough mem
    cases pixel with
    | nil => exact absurd length (Nat.ne_of_lt picture.channels.count_pos)
    | cons first rest => rfl

def toDepth (picture : Picture) : Except Fault DepthRaster :=
  Raster.ofSamples ⟨picture.width, picture.height, 1⟩ picture.depths.toArray <| by
    rw [List.size_toArray, length_depths]
    exact Nat.le_of_eq (Nat.mul_one _)

def trimmed (picture : Picture) : Picture :=
  let size := picture.width * picture.height * picture.channels.count
  { picture with
    samples := picture.samples.take size
    size_le := by rw [Samples.size_take]; exact Nat.le_min.2 ⟨Nat.le_refl _, picture.size_le⟩ }

def toLabel (picture : Picture) : Except Fault LabelRaster :=
  let shape : Shape := ⟨picture.width, picture.height, 1⟩
  match gray : picture.channels, stored : picture.samples with
  | .gray, .eight values =>
    Raster.ofSamples shape (values.map fun v => Int32.ofNat v.toNat) <| by
      have enough := picture.size_le
      rw [gray, stored] at enough
      rw [Array.size_map]
      exact enough
  | .gray, .sixteen values =>
    Raster.ofSamples shape (values.map fun v => Int32.ofNat v.toNat) <| by
      have enough := picture.size_le
      rw [gray, stored] at enough
      rw [Array.size_map]
      exact enough
  | channels, samples => .error (.raster (.notGrayscale channels samples.kind))

end Picture

def everyNth {α : Type} (stride : Nat) (values : Array α) : Array α :=
  (Array.range (values.size / stride)).filterMap fun i => values[i * stride]?

theorem size_everyNth {α : Type} {stride : Nat} (values : Array α) (positive : 0 < stride) :
    (everyNth stride values).size = values.size / stride := by
  have found : ∀ i ∈ List.range (values.size / stride), (values[i * stride]?).isSome := by
    intro i inside
    have stop : (i + 1) * stride ≤ values.size :=
      (Nat.le_div_iff_mul_le positive).mp (List.mem_range.mp inside)
    rw [Nat.succ_mul] at stop
    rw [Array.getElem?_eq_getElem (by omega)]
    rfl
  rw [everyNth, ← Array.length_toList, Array.toList_filterMap, Array.toList_range,
    List.length_filterMap_eq_countP, List.countP_eq_length.mpr found, List.length_range]

/-- A buffer of 32-bit values as the depth of a `width` by `height` picture: it is to hold the same
number of values for every pixel, of which the first is the depth. An empty buffer for a picture
that has pixels leaves no stride to step by, so there is no answer. -/
def depthOfValues? (path : String) (width height : Nat) (values : Array Single) :
    Option (Except Fault DepthRaster) :=
  let pixels := width * height
  if untiled : pixels = 0 ∨ values.size % pixels ≠ 0 then
    some (.error (.raster (.samplesDoNotTile path values.size width height)))
  else if noStride : values.size / pixels = 0 then none
  else
    some (Raster.ofSamples ⟨width, height, 1⟩ (everyNth (values.size / pixels) values) <| by
      have tiled := Decidable.not_not.mp (not_or.mp untiled).2
      rw [size_everyNth values (Nat.pos_of_ne_zero noStride),
        Nat.le_div_iff_mul_le (Nat.pos_of_ne_zero noStride), Shape.size, Nat.mul_one]
      exact Nat.le_of_eq (Nat.mul_div_cancel' (Nat.dvd_of_mod_eq_zero tiled)))

/-- A buffer that holds something for every pixel always has an answer. -/
theorem isSome_depthOfValues? (path : String) {width height count : Nat} {values : Array Single}
    (positive : 0 < count) (size : values.size = width * height * count) :
    (depthOfValues? path width height values).isSome := by
  simp only [depthOfValues?]
  split
  · rfl
  · rename_i pixels
    have nonempty : 0 < width * height := by omega
    have stride : ¬ values.size / (width * height) = 0 := by
      rw [size, Nat.mul_div_cancel_left _ nonempty]
      omega
    rw [dif_neg stride]
    rfl

end RenderVerdict
