import RenderVerdict.Png.Chunk

/-! The rows of a PNG file. A picture has one pass of them, or seven if it is interlaced, and the
bytes of each row tell differences to their neighbors. -/
namespace RenderVerdict.Png

/-- Every `stepX`th pixel of every `stepY`th row from a pixel on. -/
structure Pass where
  left : Nat
  top : Nat
  stepX : Nat
  stepY : Nat

namespace Pass

def whole : Pass := ⟨0, 0, 1, 1⟩

def interlaced : List Pass :=
  [⟨0, 0, 8, 8⟩, ⟨4, 0, 8, 8⟩, ⟨0, 4, 4, 8⟩, ⟨2, 0, 4, 4⟩, ⟨0, 2, 2, 4⟩, ⟨1, 0, 2, 2⟩, ⟨0, 1, 1, 2⟩]

def width (pass : Pass) (header : Header) : Nat :=
  (header.width - pass.left + pass.stepX - 1) / pass.stepX

/-- How many rows the pass has. A row without pixels does not count. -/
def height (pass : Pass) (header : Header) : Nat :=
  if pass.width header = 0 then 0 else (header.height - pass.top + pass.stepY - 1) / pass.stepY

def rowBytes (pass : Pass) (header : Header) : Nat :=
  (pass.width header * header.color.count * header.depth + 7) / 8

def size (pass : Pass) (header : Header) : Nat :=
  pass.height header * (pass.rowBytes header + 1)

def has (pass : Pass) (x y : Nat) : Bool :=
  pass.left ≤ x && (x - pass.left) % pass.stepX = 0 &&
    pass.top ≤ y && (y - pass.top) % pass.stepY = 0

end Pass

namespace Header

def passes (header : Header) : List Pass :=
  if header.interlaced then Pass.interlaced else [Pass.whole]

def packedSize (header : Header) : Nat :=
  header.passes.foldl (fun size pass => size + pass.size header) 0

def stride (header : Header) : Nat := max 1 (header.color.count * header.depth / 8)

end Header

def nearestNeighbor (left above corner : Nat) : Nat :=
  let suggested : Int := left + above - corner
  let far (neighbor : Nat) : Nat := (suggested - neighbor).natAbs
  if far left ≤ far above ∧ far left ≤ far corner then left
  else if far above ≤ far corner then above
  else corner

def predicted (filter : UInt8) (left above corner : Nat) : Nat :=
  if filter = 1 then left
  else if filter = 2 then above
  else if filter = 3 then (left + above) / 2
  else if filter = 4 then nearestNeighbor left above corner
  else 0

def isFilter (filter : UInt8) : Bool := filter ≤ 4

def unfiltered (stride : Nat) (filter : UInt8) (above : Array UInt8) (row : Array UInt8) :
    Array UInt8 :=
  row.foldl (fun done byte =>
    let i := done.size
    let at? (bytes : Array UInt8) (back : Nat) : Nat :=
      if back ≤ i then (bytes[i - back]?.getD 0).toNat else 0
    done.push (byte + UInt8.ofNat (predicted filter (at? done stride) (at? above 0)
      (at? above stride)))) #[]

def unfilteredRows (stride rowBytes : Nat) (packed above : Array UInt8) (place : Nat) :
    Nat → List (Array UInt8)
  | 0 => []
  | count + 1 =>
    let next := place + 1 + rowBytes
    let row := unfiltered stride (packed[place]?.getD 0) above (packed.extract (place + 1) next)
    row :: unfilteredRows stride rowBytes packed row next count

def filtersOf (header : Header) (packed : Array UInt8) (place : Nat) : List Pass → List UInt8
  | [] => []
  | pass :: rest =>
    let rowBytes := pass.rowBytes header + 1
    let rows := min (pass.height header) ((packed.size - place) / rowBytes)
    (List.range rows).filterMap (fun y => packed[place + y * rowBytes]?) ++
      filtersOf header packed (place + pass.size header) rest

def samplesOfRow (depth count : Nat) (row : Array UInt8) : Array Nat :=
  if depth < 8 then
    (Array.range count).map fun i =>
      let bit := i * depth
      (row[bit / 8]?.getD 0).toNat / Nat.pow 2 (8 - depth - bit % 8) % Nat.pow 2 depth
  else numbersOf false (depth / 8) count row

def rowsOf (header : Header) (packed : Array UInt8) (place : Nat) :
    List Pass → List (Array (Array Nat))
  | [] => []
  | pass :: rest =>
    let rowBytes := pass.rowBytes header
    let above := Array.replicate rowBytes 0
    let rows := unfilteredRows header.stride rowBytes packed above place (pass.height header)
    let samples := rows.map (samplesOfRow header.depth (pass.width header * header.color.count))
    samples.toArray :: rowsOf header packed (place + pass.size header) rest

def pixelAt (header : Header) (passes : List (Pass × Array (Array Nat))) (x y : Nat) : List Nat :=
  match passes.find? fun (pass, _) => pass.has x y with
  | none => []
  | some (pass, rows) =>
    let row := rows[(y - pass.top) / pass.stepY]?.getD #[]
    let count := header.color.count
    let i := (x - pass.left) / pass.stepX
    (row.extract (i * count) ((i + 1) * count)).toList

def pixelsOf (header : Header) (packed : Array UInt8) (make : List Nat → List Nat) : Array Nat :=
  let passes := header.passes.zip (rowsOf header packed 0 header.passes)
  (List.range header.height).foldl (fun samples y =>
    (List.range header.width).foldl (fun samples x =>
      samples ++ make (pixelAt header passes x y)) samples) #[]

end RenderVerdict.Png
