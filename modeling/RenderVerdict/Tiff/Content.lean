import RenderVerdict.Image.Picture
import RenderVerdict.Tiff.Samples

/-! What TIFF files hold: values for every pixel, or a picture. -/
namespace RenderVerdict.Tiff

def maxValues : Nat := Nat.pow 2 28

def maxBlock : Nat := Nat.pow 2 27

def maxPicture : Nat := Nat.pow 2 29

structure Values where
  width : Nat
  height : Nat
  count : Nat
  values : Array Single
  count_pos : 0 < count
  size_values : values.size = width * height * count

namespace Values

def scan : Scan (Option Values) := do
  let layout ← Layout.scan .values
  Scan.require (layout.planeBytes?.any (· ≤ maxValues))
  let rows ← layout.plane maxBlock 0
  if layout.format ≠ 3 then return none
  else
    let patterns := firstOf (layout.width * layout.height * layout.together) rows.flatten
    return some {
      width := layout.width
      height := layout.height
      count := layout.together
      values := patterns.map fun pattern =>
        if layout.bits = 64 then (Binary.ofBits pattern : Double).convert else Binary.ofBits pattern
      count_pos := layout.together_pos
      size_values := by rw [Array.size_map, size_firstOf] }

def toDepth (path : String) (values : Values) : Except Fault DepthRaster :=
  (depthOfValues? path values.width values.height values.values).get
    (isSome_depthOfValues? path values.count_pos values.size_values)

end Values

def ColorModel.channels? : ColorModel → Option Channels
  | .gray => some .gray
  | .rgb | .cmyk => some .rgb
  | .rgba => some .rgba
  | .yCbCr => none

/-- How the samples of a picture are stored, if there are such pictures. What they are has to be
told for floating point in color, unless it is told for nothing. -/
def Layout.kind? (layout : Layout) (model : ColorModel) : Option SampleKind :=
  match layout.format?, layout.bits with
  | none, 1 | some 1, 1 => if model = .gray then some .eight else none
  | none, 8 | some 1, 8 => some .eight
  | none, 16 | some 1, 16 => some .sixteen
  | none, 32 | some 3, 32 => if model = .rgb ∨ model = .rgba then some .single else none
  | _, _ => none

def samplesOf (kind : SampleKind) (numbers : Array Nat) : Samples :=
  match kind with
  | .eight => .eight (numbers.map UInt8.ofNat)
  | .sixteen => .sixteen (numbers.map UInt16.ofNat)
  | .single => .single (numbers.map Binary.ofBits)

theorem size_samplesOf (kind : SampleKind) (numbers : Array Nat) :
    (samplesOf kind numbers).size = numbers.size := by
  cases kind <;> simp [samplesOf, Samples.size]

def ofBitRow (width : Nat) (row : List Nat) : List Nat :=
  (row.flatMap fun byte => [128, 64, 32, 16, 8, 4, 2, 1].map fun bit => byte / bit % 2 * 255).take
    width

/-- How much light an ink leaves, less what black takes of it. The parts are at most `largest`. -/
def lightOf (largest ink black : Nat) : Nat :=
  let part : Single := Binary.nearest (black / largest)
  let left : Single := Binary.nearest (1 - part.toRat)
  let light : Single := Binary.nearest ((largest - ink) * left.toRat)
  light.toRat.floor.toNat

def withoutExtras (count kept : Nat) : Nat → List Nat → List Nat
  | 0, _ => []
  | pixels + 1, numbers =>
    numbers.take kept ++ withoutExtras count kept pixels (numbers.drop count)

def ofInks (largest : Nat) : List Nat → List Nat
  | cyan :: magenta :: yellow :: black :: rest =>
    lightOf largest cyan black :: lightOf largest magenta black :: lightOf largest yellow black ::
      ofInks largest rest
  | _ => []

def interleaved (pixels : Nat) (planes : List (List Nat)) : List Nat :=
  let planes := planes.map List.toArray
  (List.range pixels).flatMap fun i => planes.map fun plane => plane[i]?.getD 0

/-- The picture of a file. Whether there can be one is settled before the samples are read. The
bytes that are left by the picture are for its samples, and those left by both for a block. -/
def scanPicture : Scan Picture := do
  let layout ← Layout.scan .picture
  match layout.model? with
  | none => Scan.fail .broken
  | some model =>
    match model.channels?, layout.kind? model with
    | some channels, some kind =>
      let pixels := layout.width * layout.height
      let size := pixels * channels.count * kind.size
      let left := maxPicture - size
      let read := pixels * model.count * kind.size
      let most := left - read
      Scan.require (size ≤ maxPicture && layout.planeBytes?.any fun bytes =>
        (if layout.planes = 1 then min bytes read else bytes * layout.planes) ≤ left - most)
      let planes ← (List.range layout.planes).mapM (layout.plane most)
      let numbers ←
        if layout.planes = 1 then
          let rows := planes.flatten
          let numbers :=
            if layout.bits = 1 then rows.flatMap (ofBitRow layout.width) else rows.flatten
          let numbers :=
            if model.count < layout.count then
              withoutExtras layout.count model.count pixels numbers
            else numbers
          pure (if model = .cmyk then ofInks (Nat.pow 2 layout.bits - 1) numbers else numbers)
        else
          Scan.require (model ≠ .cmyk)
          pure (interleaved pixels ((planes.take model.count).map List.flatten))
      return {
        width := layout.width
        height := layout.height
        channels
        samples := samplesOf kind (firstOf (pixels * channels.count) numbers)
        size_le := Nat.le_of_eq (by rw [size_samplesOf, size_firstOf]) }
    | _, _ => Scan.fail .broken

end RenderVerdict.Tiff
