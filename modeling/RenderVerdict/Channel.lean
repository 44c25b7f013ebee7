/-! The channels that a renderer writes. -/
namespace RenderVerdict

inductive Channel where
  | color
  | depth
  | label
deriving DecidableEq, Repr

namespace Channel

def all : List Channel := [.color, .depth, .label]

def name : Channel → String
  | .color => "color"
  | .depth => "depth"
  | .label => "label"

def ofName? (name : String) : Option Channel := all.find? (·.name = name)

def rank : Channel → Nat
  | .color => 0
  | .depth => 1
  | .label => 2

end Channel

end RenderVerdict
