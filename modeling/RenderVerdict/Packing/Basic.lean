/-! Packed bytes: what they unpack to, how that ends, and what can be wrong with them. -/
namespace RenderVerdict

inductive Ending where
  /-- There are as many bytes as were asked for. -/
  | full
  /-- The packed bytes say that nothing follows. -/
  | finished
  /-- More packed bytes would have to follow. -/
  | starved
  /-- The packed bytes break a rule. -/
  | broken
deriving DecidableEq, Repr

structure Unpacked where
  bytes : Array UInt8
  ending : Ending
deriving DecidableEq, Repr

inductive PackingFault where
  | noEndCode
  | invalidCode
  | corruptBlocks
deriving DecidableEq, Repr

def PackingFault.message : PackingFault → String
  | .noEndCode => "no lzw end code found"
  | .invalidCode => "invalid code in LZW stream"
  | .corruptBlocks => "corrupt deflate stream"

end RenderVerdict
