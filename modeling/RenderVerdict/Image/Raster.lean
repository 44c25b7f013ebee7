import RenderVerdict.Fault

/-! Rasters: the samples of a picture in row-major order, those of a pixel side by side. -/
namespace RenderVerdict

structure Raster (α : Type) where
  shape : Shape
  samples : Array α
  channels_pos : 0 < shape.channels
  size_samples : samples.size = shape.size

abbrev ColorRaster := Raster UInt8

abbrev DepthRaster := Raster Single

abbrev LabelRaster := Raster Int32

namespace Raster

variable {α : Type}

/-- The raster of the given samples, if they are as many as the shape asks for. Where there are
enough of them for all pixels, what it asks for has not wrapped around. -/
def ofSamples (shape : Shape) (samples : Array α) (enough : shape.size ≤ samples.size) :
    Except Fault (Raster α) :=
  if noChannels : shape.channels = 0 then .error (.raster .noChannels)
  else if size : samples.size = shape.count then
    .ok {
      shape
      samples
      channels_pos := Nat.pos_of_ne_zero noChannels
      size_samples := Nat.le_antisymm (size ▸ shape.count_le_size) enough }
  else .error (.raster (.sampleCount shape samples.size))

def filled (width height channels : Nat) (value : α)
    (_fits : Shape.size ⟨width, height, max channels 1⟩ < wordCount := by decide) : Raster α where
  shape := ⟨width, height, max channels 1⟩
  samples := Array.replicate (Shape.size ⟨width, height, max channels 1⟩) value
  channels_pos := Nat.le_max_right ..
  size_samples := Array.size_replicate ..

theorem sample_lt (raster : Raster α) {index k : Nat} (inside : index < raster.shape.pixels)
    (channel : k < raster.shape.channels) :
    index * raster.shape.channels + k < raster.samples.size := by
  rw [raster.size_samples, Shape.size]
  calc index * raster.shape.channels + k
      < index * raster.shape.channels + raster.shape.channels := by omega
    _ = (index + 1) * raster.shape.channels := (Nat.succ_mul ..).symm
    _ ≤ raster.shape.pixels * raster.shape.channels := Nat.mul_le_mul_right _ inside

/-- The number of samples is never smaller than the number of pixels. -/
theorem pixels_le_size (raster : Raster α) : raster.shape.pixels ≤ raster.samples.size := by
  rw [raster.size_samples, Shape.size]
  exact Nat.le_mul_of_pos_right _ raster.channels_pos

def sample (raster : Raster α) (index : Fin raster.shape.pixels)
    (k : Fin raster.shape.channels) : α :=
  have := raster.sample_lt index.isLt k.isLt
  raster.samples[index.val * raster.shape.channels + k.val]

def pixel (raster : Raster α) (index : Fin raster.shape.pixels) : List α :=
  List.ofFn (raster.sample index)

def pixel? (raster : Raster α) (index : Nat) : Option (List α) :=
  if inside : index < raster.shape.pixels then some (raster.pixel ⟨index, inside⟩) else none

/-- The sample at a position in the row of all samples that has a pixel's index. -/
def flatSample (raster : Raster α) (index : Fin raster.shape.pixels) : α :=
  have := Nat.lt_of_lt_of_le index.isLt raster.pixels_le_size
  raster.samples[index.val]

/-- Writes sample `k` of the pixel in column `x` of row `y`. Columns past the end of a row go on in
the rows below it; past the last pixel nothing can be written. -/
def put? (raster : Raster α) (x y k : Nat) (value : α) : Option (Raster α) :=
  let index := y * raster.shape.width + x
  if index < raster.shape.pixels ∧ k < raster.shape.channels then
    some {
      raster with
      samples := raster.samples.setIfInBounds (index * raster.shape.channels + k) value
      size_samples := by rw [Array.size_setIfInBounds, raster.size_samples] }
  else none

end Raster

end RenderVerdict
