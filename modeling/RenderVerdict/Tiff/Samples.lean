import RenderVerdict.Bytes.Scan
import RenderVerdict.Number.Bits
import RenderVerdict.Packing.Blocks
import RenderVerdict.Packing.Dictionary
import RenderVerdict.Packing.Runs
import RenderVerdict.Tiff.Layout

/-! The samples of a TIFF file: blocks are unpacked, and the rows in them turned into numbers. -/
namespace RenderVerdict

def Binary.oneMinus {f : Format} : Binary f → Binary f
  | .nan => .nan
  | .infinite negative => .infinite !negative
  | x => nearest (1 - x.toRat)

namespace Tiff

inductive Packing where
  | plain
  | dictionary
  | runs
  | blocks
deriving DecidableEq, Repr

namespace Packing

def ofCode? : Nat → Option Packing
  | 1 => some .plain
  | 5 => some .dictionary
  | 8 | 32946 => some .blocks
  | 32773 => some .runs
  | _ => none

def damage (packing : Packing) : Ending → Damage
  | .starved => if packing = .dictionary then .badPacking .noEndCode else .cutOff
  | .broken => .badPacking (if packing = .dictionary then .invalidCode else .corruptBlocks)
  | _ => .cutOff

def window : Nat := Nat.pow 2 15

/-- What blocks unpack to, `count` bytes at least. They are unpacked one window after the other, and
the checksum counts if the end is in the last of them. -/
def unpackBlocks (count : Nat) (packed : Array UInt8) : Unpacked :=
  let limit := (count + window - 1) / window * window
  let (state, ending) := Blocks.unpack ⟨packed, limit, 3⟩
  let sum := packed.extract (state.place / 8) (state.place / 8 + 4)
  let isWrong := sum.size = 4 && numberOf false sum.toList ≠ Blocks.checksum state.output
  ⟨state.output, if ending = .finished ∧ isWrong then .broken else ending⟩

/-- The `count` bytes that are packed from here on. What they are packed into has a size, which does
not count for bytes that are not packed, or that are packed as blocks. -/
def scan (packing : Packing) (size count : Nat) : Scan (Array UInt8) := do
  match packing with
  | .plain => return (← Scan.take count).toArray
  | .runs => finish (Runs.unpack count (← Scan.peek size).toList)
  | .dictionary => finish (Dictionary.unpack count (← Scan.peek size))
  | .blocks => fun bytes place =>
    let unpacked := unpackBlocks count (bytes.extract place bytes.size)
    if unpacked.ending = .broken then Scan.fail (packing.damage .broken) bytes place
    else finish unpacked bytes place
where
  finish (unpacked : Unpacked) : Scan (Array UInt8) :=
    if count ≤ unpacked.bytes.size then pure unpacked.bytes
    else Scan.fail (packing.damage unpacked.ending)

end Packing

def summed (modulus stride : Nat) (numbers : Array Nat) : Array Nat :=
  numbers.foldl (fun sums number =>
    let before := if stride ≤ sums.size then sums[sums.size - stride]?.getD 0 else 0
    sums.push ((before + number) % modulus)) #[]

def gathered (width : Nat) (bytes : Array Nat) : Array Nat :=
  let count := bytes.size / width
  (Array.range count).map fun i =>
    (List.range width).foldl (fun n k => n * 256 + bytes[k * count + i]?.getD 0) 0

namespace Layout

/-- How many bytes each number of a row takes. Samples smaller than a byte stay together. -/
def numberWidth (layout : Layout) : Nat := if layout.bits < 8 then 1 else layout.bits / 8

def inverted (layout : Layout) (number : Nat) : Nat :=
  if layout.format ≠ 3 then Nat.pow 256 layout.numberWidth - 1 - number
  else if layout.bits = 64 then (Binary.ofBits number : Double).oneMinus.toBits
  else (Binary.ofBits number : Single).oneMinus.toBits

def row (layout : Layout) (pixels : Nat) (bytes : Array UInt8) : List Nat :=
  let width := layout.numberWidth
  let count := layout.bytesOf pixels / width
  let numbers :=
    if layout.prediction = 3 then
      gathered width (summed 256 layout.together (bytes.map UInt8.toNat))
    else
      let numbers := numbersOf layout.little width count bytes
      if layout.prediction = 2 then summed (Nat.pow 2 layout.bits) layout.together numbers
      else numbers
  let numbers := (numbers.take count).toList
  if layout.colors = 0 then numbers.map layout.inverted else numbers

def block (layout : Layout) (most index : Nat) (span : Nat × Nat) : Scan (List (List Nat)) := do
  Scan.seek span.1
  Scan.require (layout.isReadable && layout.isPredictable && span.2 ≤ most)
  match Packing.ofCode? layout.compression with
  | none => Scan.fail .broken
  | some packing =>
    let (width, height) := layout.extent index
    let rowBytes := layout.bytesOf layout.grid.width
    let lastBytes := if layout.prediction = 3 then rowBytes else layout.bytesOf width
    let bytes ← packing.scan span.2 (rowBytes * (height - 1) + lastBytes)
    return (List.range height).map fun y =>
      layout.row width (bytes.extract (y * rowBytes) ((y + 1) * rowBytes))

def sideBySide : List (List (List Nat)) → List (List Nat)
  | [] => []
  | [rows] => rows
  | rows :: rest => List.zipWith (· ++ ·) rows (sideBySide rest)

def plane (layout : Layout) (most index : Nat) : Scan (List (List Nat)) := do
  let count := layout.across * layout.down
  let spans := (layout.grid.spans.drop (index * count)).take count
  let blocks ← spans.zipIdx.mapM fun (span, index) => layout.block most index span
  return (List.range layout.down).flatMap fun y =>
    sideBySide ((blocks.drop (y * layout.across)).take layout.across)

def planeBytes? (layout : Layout) : Option Nat :=
  layout.sampleBytes?.map fun size =>
    let inRow := if layout.bits < 8 then (layout.width * layout.bits + 7) / 8 else layout.width
    inRow * layout.height * layout.together * size

end Layout

def firstOf (count : Nat) (numbers : List Nat) : Array Nat :=
  let numbers := numbers.toArray
  (Array.range count).map fun i => numbers[i]?.getD 0

theorem size_firstOf (count : Nat) (numbers : List Nat) : (firstOf count numbers).size = count := by
  simp [firstOf]

end Tiff

end RenderVerdict
