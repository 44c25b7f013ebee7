import RenderVerdict.Channel
import RenderVerdict.Image.Raster

/-! Comparing rasters pixel by pixel. A pixel whose difference exceeds the tolerance is invalid,
and rasters match as long as the fraction of invalid pixels stays below a threshold. -/
namespace RenderVerdict

structure LabelRemap where
  source : Int32
  target : Int32
deriving DecidableEq, Repr

structure Tolerances where
  color : Double
  depth : Double
  label : Double
  /-- The fraction of invalid pixels at which rasters cease to match. -/
  invalidFraction : Double
  remap : Option LabelRemap
deriving DecidableEq

namespace Tolerances

def standard : Tolerances where
  color := Binary.nearest 20
  depth := Binary.nearest (1 / 1000)
  label := Binary.zero
  invalidFraction := Binary.nearest (1 / 5)
  remap := some ⟨32766, 32764⟩

instance : Inhabited Tolerances := ⟨standard⟩

end Tolerances

structure PixelReport where
  channel : Channel
  shape : Shape
  totalPixels : Nat
  invalidPixels : Nat
  invalidFraction : Double
  tolerance : Double
  threshold : Double
  maxDifference : Double
  /-- Columns and rows of the first invalid pixels. -/
  sampleInvalid : List (Nat × Nat)
  passed : Bool

namespace PixelReport

def maxSampled : Nat := 16

def invalidIndices (tolerance : Double) (differences : List Double) : List Nat :=
  (differences.zipIdx.filter fun entry => tolerance.lt entry.1).map (·.2)

/-- The fraction of invalid pixels; an empty raster has none. -/
def fraction (invalid total : Nat) : Double :=
  if total = 0 then Binary.zero else Binary.nearest (invalid / total)

def ofDifferences (channel : Channel) (shape : Shape) (tolerance threshold : Double)
    (differences : List Double) : PixelReport :=
  let invalid := invalidIndices tolerance differences
  let invalidFraction := fraction invalid.length shape.pixels
  { channel, shape, tolerance, threshold, invalidFraction
    totalPixels := shape.pixels
    invalidPixels := invalid.length
    maxDifference := differences.foldl Binary.max Binary.zero
    sampleInvalid := (invalid.take maxSampled).map fun i => (i % shape.width, i / shape.width)
    passed := invalidFraction.lt threshold }

end PixelReport

def colorDifference (a b : List UInt8) : Nat :=
  (a.zip b).foldl (fun most (x, y) => max most ((x.toNat : Int) - y.toNat).natAbs) 0

/-- The difference of two depths, rounded to a 64-bit value. A depth that is not finite counts as
zero. -/
def depthDifference (a b : Single) : Double :=
  let difference := a.toRat - b.toRat
  Binary.nearest (if difference < 0 then -difference else difference)

def labelDifference (remap : Option LabelRemap) (candidate reference : Int32) : Nat :=
  let expected := match remap with
    | some remap => if reference = remap.source then remap.target else reference
    | none => reference
  (candidate.toInt - expected.toInt).natAbs

namespace Tolerances

def compareWith {α : Type} (tolerances : Tolerances) (channel : Channel) (tolerance : Double)
    (candidate reference : Raster α)
    (difference : Fin candidate.shape.pixels → Fin reference.shape.pixels → Double) :
    Except Fault PixelReport :=
  if same : candidate.shape = reference.shape then
    .ok (PixelReport.ofDifferences channel candidate.shape tolerance tolerances.invalidFraction
      (List.ofFn fun i : Fin candidate.shape.pixels => difference i ⟨i.val, same ▸ i.isLt⟩))
  else .error (.shapeMismatch candidate.shape reference.shape)

def compareColor (tolerances : Tolerances) (candidate reference : ColorRaster) :
    Except Fault PixelReport :=
  tolerances.compareWith .color tolerances.color candidate reference fun i j =>
    Binary.nearest (colorDifference (candidate.pixel i) (reference.pixel j))

/-- Depth rasters are compared sample by sample, as many as there are pixels. -/
def compareDepth (tolerances : Tolerances) (candidate reference : DepthRaster) :
    Except Fault PixelReport :=
  tolerances.compareWith .depth tolerances.depth candidate reference fun i j =>
    depthDifference (candidate.flatSample i) (reference.flatSample j)

def compareLabel (tolerances : Tolerances) (candidate reference : LabelRaster) :
    Except Fault PixelReport :=
  tolerances.compareWith .label tolerances.label candidate reference fun i j =>
    Binary.nearest (labelDifference tolerances.remap (candidate.flatSample i)
      (reference.flatSample j))

end Tolerances

end RenderVerdict
