import RenderVerdict.Image.Comparison

/-! Rasters as they are held in memory: a shape with samples that it is to be filled with, in which
every position is checked when it is read or written. Products of sizes have 64 bits and wrap around,
so there are shapes that are taken with fewer samples than they have. -/
namespace RenderVerdict

variable {α : Type}

class Sample (α : Type) where
  bytes : Nat

instance : Sample UInt8 := ⟨1⟩
instance : Sample Single := ⟨4⟩
instance : Sample Int32 := ⟨4⟩

def Shape.ofWords (width height : UInt32) (channels : UInt8) : Shape :=
  ⟨width.toNat, height.toNat, channels.toNat⟩

structure Buffer (α : Type) where
  shape : Shape
  samples : Array α

def Raster.buffer (raster : Raster α) : Buffer α := ⟨raster.shape, raster.samples⟩

namespace Buffer

def ofSamples (width height : UInt32) (channels : UInt8) (samples : Array α) :
    Except Fault (Buffer α) :=
  let shape := Shape.ofWords width height channels
  if shape.channels = 0 then .error (.raster .noChannels)
  else if samples.size ≠ shape.count then .error (.raster (.sampleCount shape samples.size))
  else .ok ⟨shape, samples⟩

def filled? [Sample α] (width height : UInt32) (channels : UInt8) (value : α) :
    Option (Buffer α) :=
  let shape : Shape := ⟨width.toNat, height.toNat, max channels.toNat 1⟩
  if shape.count * Sample.bytes α ≤ addressableBytes then
    some ⟨shape, Array.replicate shape.count value⟩
  else none

def raster? (buffer : Buffer α) : Option (Raster α) :=
  if channels : 0 < buffer.shape.channels then
    if size : buffer.samples.size = buffer.shape.size then
      some ⟨buffer.shape, buffer.samples, channels, size⟩
    else none
  else none

def slice? (buffer : Buffer α) (start stop : Nat) : Option (List α) :=
  if start ≤ stop ∧ stop ≤ buffer.samples.size then
    some (buffer.samples.extract start stop).toList
  else none

def pixel? (buffer : Buffer α) (index : Nat) : Option (List α) :=
  buffer.slice? (index * buffer.shape.channels % wordCount)
    ((index + 1) * buffer.shape.channels % wordCount)

def put? (buffer : Buffer α) (x y k : Nat) (value : α) : Option (Buffer α) :=
  let start := (y * buffer.shape.width + x) * buffer.shape.channels % wordCount
  if start + buffer.shape.channels ≤ buffer.samples.size ∧ k < buffer.shape.channels then
    some { buffer with samples := buffer.samples.setIfInBounds (start + k) value }
  else none

/-- What a step finds at a number of indices from one on, unless it finds nothing at one of them.
It stops there. -/
def gather? {β : Type} (step : Nat → Option β) (index : Nat) : Nat → Option (List β)
  | 0 => some []
  | count + 1 => do
    let found ← step index
    return found :: (← gather? step (index + 1) count)

def place? (shape : Shape) (index : Nat) : Option (Nat × Nat) :=
  if shape.width = 0 then none else some (index % shape.width, index / shape.width)

def compareWith? (tolerances : Tolerances) (channel : Channel) (tolerance : Double)
    (candidate reference : Buffer α) (difference? : Nat → Option Double) :
    Option (Except Fault PixelReport) := do
  if candidate.shape = reference.shape then
    let differences ← gather? (fun i => do
      let _ ← place? candidate.shape i
      difference? i) 0 candidate.shape.pixels
    return .ok (PixelReport.ofDifferences channel candidate.shape tolerance
      tolerances.invalidFraction differences)
  else return .error (.shapeMismatch candidate.shape reference.shape)

variable (tolerances : Tolerances)

def compareColor? (candidate reference : Buffer UInt8) : Option (Except Fault PixelReport) :=
  compareWith? tolerances .color tolerances.color candidate reference fun i => do
    return Binary.nearest (colorDifference (← candidate.pixel? i) (← reference.pixel? i))

def compareDepth? (candidate reference : Buffer Single) : Option (Except Fault PixelReport) :=
  compareWith? tolerances .depth tolerances.depth candidate reference fun i => do
    return depthDifference (← candidate.samples[i]?) (← reference.samples[i]?)

def compareLabel? (candidate reference : Buffer Int32) : Option (Except Fault PixelReport) :=
  compareWith? tolerances .label tolerances.label candidate reference fun i => do
    return Binary.nearest (labelDifference tolerances.remap (← candidate.samples[i]?)
      (← reference.samples[i]?))

end Buffer

end RenderVerdict
