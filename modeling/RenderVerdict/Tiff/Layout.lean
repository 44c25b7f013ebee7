import RenderVerdict.Tiff.Directory

/-! How a TIFF file lays out its samples: blocks of rows, each row packed into whole bytes. Blocks
are strips, which are as wide as the picture, or tiles. -/
namespace RenderVerdict.Tiff

inductive ColorModel where
  | gray
  | rgb
  | rgba
  | cmyk
  | yCbCr
deriving DecidableEq, Repr

def ColorModel.count : ColorModel → Nat
  | .gray => 1
  | .rgb | .yCbCr => 3
  | .rgba | .cmyk => 4

structure Grid where
  width : Nat
  height : Nat
  /-- The places and sizes. -/
  spans : List (Nat × Nat)
  width_pos : 0 < width
  height_pos : 0 < height

structure Layout where
  purpose : Purpose
  little : Bool
  width : Nat
  height : Nat
  /-- What the samples of a pixel stand for: 0 for gray counted from white, 1 for gray counted from
  black, 2 for red, green and blue. -/
  colors : Nat
  /-- How blocks are packed: 1 for not at all. -/
  compression : Nat
  /-- How many samples a pixel has. -/
  count : Nat
  /-- What the samples mean that come after the colors: 1 and 2 for opacity. -/
  extras : List Nat
  /-- What a sample is, if that is told: 1 and 2 for integers, 3 for floating point. -/
  format? : Option Nat
  bits : Nat
  /-- What samples are counted from: 1 for zero, 2 and 3 for the sample before. -/
  prediction : Nat
  /-- Whether the samples of a pixel are in planes of their own. -/
  planar : Bool
  grid : Grid
  count_pos : 0 < count

namespace Layout

def commonBits (count : Nat) (bits : List Nat) : Scan Nat := do
  Scan.require (bits.length = count || bits.length = 1)
  match bits with
  | first :: rest =>
    Scan.require (first ≠ 0 && rest.all (· = first))
    return first
  | [] => Scan.fail .broken

def commonFormat : List Nat → Scan Nat
  | first :: rest => do
    Scan.require (rest.all (· = first))
    return first
  | [] => Scan.fail .broken

def blockCount (width height blockWidth blockHeight : Nat) : Nat :=
  ((width - 1) / blockWidth + 1) * ((height - 1) / blockHeight + 1)

def blocksOf (width height planes blockWidth blockHeight : Nat) (places sizes : List Nat) :
    Scan Grid :=
  if positive : 0 < blockWidth ∧ 0 < blockHeight then do
    Scan.require (places.length = sizes.length &&
      places.length = blockCount width height blockWidth blockHeight * planes)
    return ⟨blockWidth, blockHeight, places.zip sizes, positive.1, positive.2⟩
  else Scan.fail .broken

def scanBlocks (directory : Directory) (width height planes : Nat) : Scan Grid := do
  let strips := [Tag.strips, .stripSizes].map directory.has
  let tiles := [Tag.tiles, .tileSizes].map directory.has
  if strips = [true, true] ∧ tiles = [false, false] then
    let places := (← directory.numbers? .strips 64).getD []
    let sizes := (← directory.numbers? .stripSizes 64).getD []
    let rows := (← directory.number? .stripRows 32).getD height
    blocksOf width height planes width rows places sizes
  else
    Scan.require (strips = [false, false] && tiles = [true, true])
    let blockWidth ← directory.number .tileWidth 32
    let blockHeight ← directory.number .tileHeight 32
    Scan.require (blockWidth ≠ 0 && blockHeight ≠ 0)
    let places := (← directory.numbers? .tiles 64).getD []
    let sizes := (← directory.numbers? .tileSizes 64).getD []
    blocksOf width height planes blockWidth blockHeight places sizes

/-- The layout of a file. Tags are looked at in a fixed order, and one that is left out stands for
a single bit in a single plane, nothing packed and nothing predicted. -/
def scan (purpose : Purpose) : Scan Layout := do
  let directory ← Directory.scan purpose
  let width ← directory.number .width 32
  let height ← directory.number .height 32
  Scan.require (width ≠ 0 && height ≠ 0)
  let colors ← directory.number .colors 16
  Scan.require (colors ≤ 6 || colors = 8)
  let compression := (← directory.number? .compression 16).getD 1
  let count := (← directory.number? .count 16).getD 1
  if count_pos : 0 < count then
    let format? ← match ← directory.numbers? .format 16 with
      | some formats => some <$> commonFormat formats
      | none => pure none
    let bits ← commonBits count ((← directory.numbers? .bits 8).getD [1])
    let extras ← match purpose with
      | .values => pure []
      | .picture => do pure ((← directory.numbers? .extras 16).getD [])
    Scan.require (extras.length ≤ count)
    let prediction := (← directory.number? .prediction 16).getD 1
    Scan.require (1 ≤ prediction && prediction ≤ 3)
    let planes := (← directory.number? .planes 16).getD 1
    Scan.require (1 ≤ planes && planes ≤ 2)
    let planar := planes = 2
    let grid ← scanBlocks directory width height (if planar then count else 1)
    return {
      purpose
      little := directory.form.little
      width, height, colors, compression, count, extras, format?, bits, prediction, planar
      grid, count_pos }
  else Scan.fail .broken

def format (layout : Layout) : Nat := layout.format?.getD 1

/-- What the samples stand for, if that is known. In a picture the samples after the colors do not
count, and the first of them may be opacity. -/
def model? (layout : Layout) : Option ColorModel :=
  let hasAlpha := layout.extras.head?.any fun extra => extra = 1 || extra = 2
  match layout.colors, layout.count - layout.extras.length with
  | 0, _ | 1, _ => if layout.count = 1 then some .gray else none
  | 2, 3 => if hasAlpha then some .rgba else some .rgb
  | 2, 4 => if layout.extras.isEmpty then some .rgba else none
  | 5, 4 => if hasAlpha then none else some .cmyk
  | 6, 3 => some .yCbCr
  | _, _ => none

def planes (layout : Layout) : Nat := if layout.planar then layout.count else 1

def together (layout : Layout) : Nat := if layout.planar then 1 else layout.count

theorem together_pos (layout : Layout) : 0 < layout.together := by
  unfold together
  split
  · exact Nat.one_pos
  · exact layout.count_pos

def bytesOf (layout : Layout) (pixels : Nat) : Nat :=
  (pixels * layout.together * layout.bits + 7) / 8

def sampleBytes? (layout : Layout) : Option Nat :=
  if layout.format = 1 ∨ layout.format = 2 then
    if layout.bits ≤ 8 then some 1
    else if layout.bits ≤ 16 then some 2
    else if layout.bits ≤ 32 then some 4
    else if layout.bits ≤ 64 then some 8
    else none
  else if layout.format = 3 ∧ (layout.bits = 32 ∨ layout.bits = 64) then some (layout.bits / 8)
  else none

def isReadable (layout : Layout) : Bool :=
  match layout.model? with
  | none => false
  | some model =>
    [8, 16, 32, 64].contains layout.bits ||
      (model = .gray && layout.bits < 8 && layout.prediction = 1)

/-- Whether samples of this format can be counted from others. Where values are read, floating
point is counted from others in its own way only. -/
def isPredictable (layout : Layout) : Bool :=
  match layout.prediction with
  | 2 => layout.format = 1 || layout.format = 2 ||
    (layout.format = 3 && layout.purpose = .picture)
  | 3 => layout.format = 3
  | _ => true

def across (layout : Layout) : Nat := (layout.width - 1) / layout.grid.width + 1

def down (layout : Layout) : Nat := (layout.height - 1) / layout.grid.height + 1

def extent (layout : Layout) (index : Nat) : Nat × Nat :=
  let x := index % layout.across
  let y := index / layout.across
  (min layout.grid.width (layout.width - x * layout.grid.width),
    min layout.grid.height (layout.height - y * layout.grid.height))

end Layout

end RenderVerdict.Tiff
