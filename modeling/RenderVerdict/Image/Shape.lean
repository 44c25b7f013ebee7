import RenderVerdict.Memory

/-! The extent of a picture and the sample layouts a picture file can have. -/
namespace RenderVerdict

structure Shape where
  width : Nat
  height : Nat
  channels : Nat
deriving DecidableEq, Repr

namespace Shape

def pixels (s : Shape) : Nat := s.width * s.height

def size (s : Shape) : Nat := s.pixels * s.channels

/-- How many samples are asked for. They are counted in 64 bits, whatever their number is. -/
def count (s : Shape) : Nat := s.size % wordCount

theorem count_le_size (s : Shape) : s.count ≤ s.size := Nat.mod_le ..

theorem count_eq_size_iff {s : Shape} : s.count = s.size ↔ s.size < wordCount :=
  Nat.mod_eq_iff_lt (by decide)

def text (s : Shape) : String :=
  toString s.width ++ "x" ++ toString s.height ++ "x" ++ toString s.channels

end Shape

inductive Channels where
  | gray
  | grayAlpha
  | rgb
  | rgba
deriving DecidableEq, Repr

namespace Channels

def count : Channels → Nat
  | .gray => 1
  | .grayAlpha => 2
  | .rgb => 3
  | .rgba => 4

theorem count_pos (channels : Channels) : 0 < channels.count := by
  cases channels <;> decide

def hasAlpha : Channels → Bool
  | .grayAlpha | .rgba => true
  | .gray | .rgb => false

def name : Channels → String
  | .gray => "L"
  | .grayAlpha => "La"
  | .rgb => "Rgb"
  | .rgba => "Rgba"

end Channels

inductive SampleKind where
  | eight
  | sixteen
  | single
deriving DecidableEq, Repr

namespace SampleKind

def size : SampleKind → Nat
  | .eight => 1
  | .sixteen => 2
  | .single => 4

def name : SampleKind → String
  | .eight => "8"
  | .sixteen => "16"
  | .single => "32F"

end SampleKind

end RenderVerdict
