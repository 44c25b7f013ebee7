import RenderVerdict.Image.Picture
import RenderVerdict.Packing.Blocks
import RenderVerdict.Png.Rows

/-! The pictures that PNG files hold. Samples become bytes or pairs of bytes, pixels into a palette
become its colors, and what cannot be seen becomes opacity. -/
namespace RenderVerdict.Png

def window : Nat := Nat.pow 2 15

def bitsAhead : Nat := 10

def piecesTo (bits : Nat) : List (Array UInt8) → Array UInt8
  | [] => #[]
  | piece :: rest =>
    if bits ≤ 8 * piece.size then piece else piece ++ piecesTo (bits - 8 * piece.size) rest

/-- Whether bytes can begin the rows of a picture: every filter is known, and there are colors for
the first row if its samples point to them. -/
def Preface.accepts (preface : Preface) (rows : Array UInt8) : Bool :=
  let header := preface.header
  let first := (header.passes.head?.map (·.rowBytes header)).getD 0
  (filtersOf header rows 0 header.passes).all isFilter &&
    (header.color ≠ .indexed || preface.palette.isSome || rows.size ≤ first)

/-- The bytes of all rows. Pieces are unpacked up to the one in which the rows end, where the packed
bytes behind them are still to be right. -/
def rowBytesOf (preface : Preface) (pieces : Pieces) : Except Damage (Array UInt8) :=
  let size := preface.header.packedSize
  let packed := pieces.pieces.foldl (· ++ ·) #[]
  let (state, ending) := Blocks.unpack ⟨packed, size, bitsAhead⟩
  if ending = .broken ∨ !preface.accepts state.output then .error .broken
  else if size ≤ state.output.size then
    let used := piecesTo state.used pieces.pieces
    if (Blocks.unpack ⟨used, size + window, bitsAhead⟩).2 = .broken then .error .broken
    else
      match pieces.damage with
      | some damage => .error damage
      | none => .ok state.output
  else .error (pieces.damage.getD .broken)

def Preface.channels (preface : Preface) : Channels :=
  match preface.header.color, preface.opacity.isSome with
  | .gray, false => .gray
  | .gray, true | .grayAlpha, _ => .grayAlpha
  | .rgb, false | .indexed, false => .rgb
  | .rgb, true | .indexed, true | .rgba, _ => .rgba

/-- The color that a sample points to, black if there is none. It can be seen as far as is told, if
not more is told than there are colors. -/
def Preface.paletteColor (preface : Preface) (index : Nat) : List Nat :=
  let palette := preface.palette.getD []
  let color := (palette.drop (3 * index)).take 3
  let color := if color.length = 3 then color else [0, 0, 0]
  let opacity := match preface.opacity with
    | none => []
    | some opacity =>
      if opacity.length ≤ palette.length / 3 then [opacity[index]?.getD 255] else [255]
  (color ++ opacity).map UInt8.toNat

/-- A pixel as it is read, with opacity if the file tells of any: none for the one color that cannot
be seen. -/
def Preface.pixel (preface : Preface) (samples : List Nat) : List Nat :=
  let header := preface.header
  let largest := Nat.pow 2 header.depth - 1
  let opacity := match header.color, preface.opacity with
    | .gray, some hidden | .rgb, some hidden =>
      let bytes := hidden.take (2 * header.color.count)
      let hidden := (numbersOf false 2 header.color.count bytes.toArray).toList.map fun sample =>
        if header.depth = 16 then sample else sample % 256
      let most := if header.depth = 16 then 65535 else 255
      [if samples = hidden then 0 else most]
    | _, _ => []
  if header.color = .indexed then preface.paletteColor (samples.headD 0)
  else
    let samples := if header.depth < 8 then samples.map (· * (255 / largest)) else samples
    samples ++ opacity

def scanPicture : Scan Picture := do
  let (preface, pieces) ← scanChunks
  match rowBytesOf preface pieces with
  | .error damage => Scan.fail damage
  | .ok packed =>
    let header := preface.header
    let channels := preface.channels
    let size := header.width * header.height * channels.count
    let samples := pixelsOf header packed preface.pixel
    let numbers := (Array.range size).map fun i => samples[i]?.getD 0
    return {
      width := header.width
      height := header.height
      channels
      samples :=
        if header.depth = 16 then .sixteen (numbers.map UInt16.ofNat)
        else .eight (numbers.map UInt8.ofNat)
      size_le := by split <;> simp [Samples.size, numbers, size] }

end RenderVerdict.Png
