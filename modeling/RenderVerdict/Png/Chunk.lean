import RenderVerdict.Bytes.Scan

/-! PNG files as far as their chunks go, each of which has a name and a checksum: what the chunks in
front of the samples say, and the pieces of packed samples. -/
namespace RenderVerdict.Png

def signature : List UInt8 := [0x89, 0x50, 0x4e, 0x47, 0x0d, 0x0a, 0x1a, 0x0a]

def headerName : List UInt8 := [0x49, 0x48, 0x44, 0x52]

def paletteName : List UInt8 := [0x50, 0x4c, 0x54, 0x45]

def opacityName : List UInt8 := [0x74, 0x52, 0x4e, 0x53]

def frameName : List UInt8 := [0x66, 0x63, 0x54, 0x4c]

def samplesName : List UInt8 := [0x49, 0x44, 0x41, 0x54]

def frameSamplesName : List UInt8 := [0x66, 0x64, 0x41, 0x54]

def endName : List UInt8 := [0x49, 0x45, 0x4e, 0x44]

/-- Whether a picture can be read without a chunk, which a small first letter of its name says. -/
def isAncillary (name : List UInt8) : Bool := name.head?.any (32 ≤ · % 64)

def shift (register : UInt32) : UInt32 :=
  if register &&& 1 = 0 then register >>> 1 else (register >>> 1) ^^^ 0xedb88320

def absorb (register : UInt32) (byte : UInt8) : UInt32 :=
  Nat.repeat shift 8 (register ^^^ byte.toUInt32)

/-- The checksum of bytes: the remainder of their polynomial, with the register complemented before
and after. -/
def checksum (bytes : List UInt8) : UInt32 := bytes.foldl absorb 0xffffffff ^^^ 0xffffffff

inductive ColorKind where
  | gray
  | rgb
  | indexed
  | grayAlpha
  | rgba
deriving DecidableEq, Repr

namespace ColorKind

def ofCode? : UInt8 → Option ColorKind
  | 0 => some .gray
  | 2 => some .rgb
  | 3 => some .indexed
  | 4 => some .grayAlpha
  | 6 => some .rgba
  | _ => none

def count : ColorKind → Nat
  | .gray | .indexed => 1
  | .grayAlpha => 2
  | .rgb => 3
  | .rgba => 4

def depths : ColorKind → List Nat
  | .gray => [1, 2, 4, 8, 16]
  | .indexed => [1, 2, 4, 8]
  | _ => [8, 16]

end ColorKind

structure Header where
  width : Nat
  height : Nat
  /-- The bits of a sample. -/
  depth : Nat
  color : ColorKind
  interlaced : Bool
deriving DecidableEq, Repr

/-- The header that data write: two sizes that are not zero, a kind of color with a number of bits,
the one way to pack, the one set of filters, and whether rows are interlaced. -/
def Header.ofData? (data : List UInt8) : Option Header :=
  let width := numberOf false (data.take 4)
  let height := numberOf false ((data.drop 4).take 4)
  match data.drop 8 with
  | [depth, color, packing, filters, interlacing] =>
    match ColorKind.ofCode? color with
    | none => none
    | some color =>
      if width ≠ 0 ∧ height ≠ 0 ∧ color.depths.contains depth.toNat ∧ packing = 0 ∧ filters = 0 ∧
        interlacing ≤ 1 then some ⟨width, height, depth.toNat, color, interlacing = 1⟩
      else none
  | _ => none

structure Preface where
  header : Header
  /-- The colors that samples point into, as bytes. -/
  palette : Option (List UInt8)
  /-- The color that cannot be seen, or how far each color of the palette can be seen. -/
  opacity : Option (List UInt8)
  /-- The number of the last frame that was begun. -/
  frame : Option Nat

namespace Preface

/-- The bytes of the picture once it is read. A sample has one byte or two, and a pixel into a
palette becomes its color. -/
def size (preface : Preface) : Nat :=
  let header := preface.header
  let count := (if header.color = .indexed then 3 else header.color.count) +
    (if preface.opacity.isSome then 1 else 0)
  header.width * header.height * count * (if header.depth = 16 then 2 else 1)

/-- The preface with an opacity. One that is too short, comes before the palette it is for, or has
nothing to be for is passed over, and so is a second one. -/
def withOpacity (preface : Preface) (data : List UInt8) : Preface :=
  let fits := match preface.header.color with
    | .gray => 2 ≤ data.length
    | .rgb => 6 ≤ data.length
    | .indexed => preface.palette.isSome
    | _ => false
  if fits && preface.opacity.isNone then { preface with opacity := some data } else preface

def beginsFrame (preface : Preface) (data : List UInt8) : Bool :=
  let numbers := (numbersOf false 4 5 data.toArray).toList
  let header := preface.header
  let next := match preface.frame with
    | some frame => frame + 1
    | none => 0
  data.length = 26 && numbers = [next, header.width, header.height, 0, 0] &&
    (data.drop 24).head?.any (· ≤ 2) && (data.drop 25).head?.any (· ≤ 1)

/-- The preface with what another chunk says. A second header or palette is refused, and so is the
end, since no samples come before it. -/
def with? (preface : Preface) (name data : List UInt8) : Option Preface :=
  if name = headerName ∨ name = endName then none
  else if name = paletteName then
    if preface.palette.isSome then none else some { preface with palette := some data }
  else if name = opacityName then some (preface.withOpacity data)
  else if name = frameName then
    if preface.beginsFrame data then
      some { preface with frame := some (numberOf false (data.take 4)) }
    else none
  else some preface

end Preface

def maxSize : Nat := Nat.pow 2 29

def scanData (name : List UInt8) (length : Nat) : Scan (Option (List UInt8)) := do
  let data ← Scan.take length
  let sum ← Scan.number false 4
  return if sum = (checksum (name ++ data)).toNat then some data else none

def scanHeader : Scan Preface := do
  let length ← Scan.number false 4
  let name ← Scan.take 4
  Scan.require (name = headerName && length = 13)
  match (← scanData name length).bind Header.ofData? with
  | none => Scan.fail .broken
  | some header =>
    let preface : Preface := ⟨header, none, none, none⟩
    Scan.require (preface.size < Nat.pow 2 63)
    return preface

/-- Whether a chunk other than samples may begin. Of those that a picture cannot be read without
none is unknown. -/
def isKnown (name : List UInt8) (length : Nat) : Bool :=
  if name = headerName then length = 13
  else if name = paletteName then length ≤ 768
  else if name = endName then length = 0
  else isAncillary name

/-- Chunk after chunk, at most `bound` of them, up to the name of the first one with samples: what
they say, that name, and how many bytes follow it. A wrong checksum does no harm where the chunk is
ancillary. Samples of a frame come only after its beginning, and have a number in front. -/
def scanPreface (preface : Preface) : Nat → Scan (Preface × List UInt8 × Nat)
  | 0 => Scan.fail .cutOff
  | bound + 1 => do
    let length ← Scan.number false 4
    let name ← Scan.take 4
    if name = samplesName ∨ name = frameSamplesName then
      Scan.require (name = samplesName || (preface.frame.isSome && 4 ≤ length))
      Scan.require (preface.size ≤ maxSize)
      return (preface, name, length)
    else
      Scan.require (isKnown name length)
      match ← scanData name length with
      | none =>
        Scan.require (isAncillary name)
        scanPreface preface bound
      | some data =>
        match preface.with? name data with
        | some preface => scanPreface preface bound
        | none => Scan.fail .broken

structure Pieces where
  pieces : List (Array UInt8)
  damage : Option Damage

/-- The pieces of samples from behind the name of a chunk on, at most `bound` of them, up to the
name of another chunk. What is there of a chunk is a piece, even if more would have to follow. -/
def scanPieces (name : List UInt8) (frame length : Nat) : Nat → Scan Pieces
  | 0 => return ⟨[], some .cutOff⟩
  | bound + 1 => fun bytes place =>
    let skipped := if name = frameSamplesName then 4 else 0
    let piece := bytes.extract (place + skipped) (place + length)
    let inOrder := skipped = 0 ||
      numberOf false (bytes.extract place (place + skipped)).toList = frame + 1
    let next : Scan (Option Nat) := do
      let data ← scanData name length
      Scan.require (data.isSome || isAncillary name)
      let length ← Scan.number false 4
      if (← Scan.take 4) = name then
        Scan.require (skipped ≤ length)
        return some length
      else return none
    if bytes.size < place + skipped then .ok (⟨[], some .cutOff⟩, place)
    else if !inOrder then .ok (⟨[], some .broken⟩, place)
    else
      match next bytes place with
      | .error damage => .ok (⟨[piece], some damage⟩, place)
      | .ok (none, place) => .ok (⟨[piece], none⟩, place)
      | .ok (some length, place) => do
        let (rest, place) ← scanPieces name (frame + 1) length bound bytes place
        return (⟨piece :: rest.pieces, rest.damage⟩, place)

/-- The signature, taken four bytes at a time, and the chunks, which are fewer than the bytes. -/
def scanChunks : Scan (Preface × Pieces) := fun bytes => (do
  Scan.require ((← Scan.take 4) = signature.take 4)
  Scan.require ((← Scan.take 4) = signature.drop 4)
  let (preface, name, length) ← scanPreface (← scanHeader) bytes.size
  return (preface, ← scanPieces name (preface.frame.getD 0) length bytes.size) :
    Scan (Preface × Pieces)) bytes

end RenderVerdict.Png
