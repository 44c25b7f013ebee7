import RenderVerdict.Image.Shape
import RenderVerdict.Number.Bits
import RenderVerdict.Tiff.Directory

/-! TIFF files written: a head, the samples as they are, and a directory. The lowest byte of every
number comes first. -/
namespace RenderVerdict

inductive TiffSamples where
  | eight (values : Array UInt8)
  | sixteen (values : Array UInt16)
  | single (values : Array Single)
  | double (values : Array Double)
deriving DecidableEq

namespace TiffSamples

def size : TiffSamples → Nat
  | .eight values => values.size
  | .sixteen values => values.size
  | .single values => values.size
  | .double values => values.size

def take (count : Nat) : TiffSamples → TiffSamples
  | .eight values => .eight (values.take count)
  | .sixteen values => .sixteen (values.take count)
  | .single values => .single (values.take count)
  | .double values => .double (values.take count)

def bits : TiffSamples → Nat
  | .eight _ => 8
  | .sixteen _ => 16
  | .single _ => 32
  | .double _ => 64

def format : TiffSamples → Nat
  | .eight _ | .sixteen _ => 1
  | .single _ | .double _ => 3

def bytes : TiffSamples → List UInt8
  | .eight values => values.toList
  | .sixteen values => values.toList.flatMap fun value => bytesOf 2 value.toNat
  | .single values => values.toList.flatMap fun value => bytesOf 4 value.toBits
  | .double values => values.toList.flatMap fun value => bytesOf 8 value.toBits

end TiffSamples

structure Tiff where
  width : Nat
  height : Nat
  channels : Channels
  samples : TiffSamples
  size_samples : samples.size = width * height * channels.count
deriving DecidableEq

namespace Tiff

structure Field where
  tag : Tag
  kind : Kind
  numbers : List Nat

def Field.layOut (place : Nat) : List Field → List UInt8 × List UInt8
  | [] => ([], [])
  | field :: rest =>
    let content := field.numbers.flatMap (bytesOf field.kind.width)
    let fits := content.length ≤ 4
    let outside := if fits then [] else content
    let inside := if fits then content ++ List.replicate (4 - content.length) 0 else bytesOf 4 place
    let (others, entries) := layOut (place + outside.length) rest
    (outside ++ others,
      bytesOf 2 field.tag.code ++ bytesOf 2 field.kind.code ++
        bytesOf 4 (field.numbers.length / field.kind.parts) ++ inside ++ entries)

def stripBytes : Nat := 1000000

def firstPlace : Nat := 8

def fields (tiff : Tiff) : List Field :=
  let count := tiff.channels.count
  let rowBytes := tiff.width * count * (tiff.samples.bits / 8)
  let stripRows := (stripBytes + rowBytes - 1) / rowBytes
  let strips := List.range ((tiff.height + stripRows - 1) / stripRows)
  [⟨.width, .long, [tiff.width]⟩,
    ⟨.height, .long, [tiff.height]⟩,
    ⟨.bits, .short, List.replicate count tiff.samples.bits⟩,
    ⟨.compression, .short, [1]⟩,
    ⟨.colors, .short, [if count < 3 then 1 else 2]⟩,
    ⟨.strips, .long, strips.map fun i => firstPlace + i * stripRows * rowBytes⟩,
    ⟨.count, .short, [count]⟩,
    ⟨.stripRows, .long, [stripRows]⟩,
    ⟨.stripSizes, .long, strips.map fun i =>
      min stripRows (tiff.height - i * stripRows) * rowBytes⟩,
    ⟨.horizontalResolution, .rational, [1, 1]⟩,
    ⟨.verticalResolution, .rational, [1, 1]⟩,
    ⟨.resolutionUnit, .short, [1]⟩,
    ⟨.format, .short, List.replicate count tiff.samples.format⟩]

/-- The bytes of a file. The directory comes last, after the values that its entries lead to. -/
def bytes (tiff : Tiff) : Array UInt8 :=
  let samples := tiff.samples.bytes
  let place := firstPlace + samples.length
  let (outside, entries) := Field.layOut place tiff.fields
  ([0x49, 0x49] ++ bytesOf 2 42 ++ bytesOf 4 (place + outside.length) ++ samples ++ outside ++
    bytesOf 2 tiff.fields.length ++ entries ++ bytesOf 4 0).toArray

end Tiff

end RenderVerdict
