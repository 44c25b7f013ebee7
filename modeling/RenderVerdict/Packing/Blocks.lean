import RenderVerdict.Packing.Inflation

/-! Bytes packed as blocks. A block holds bytes as they are, or words for bytes and for repetitions
of what came before. -/
namespace RenderVerdict.Blocks

/-- A length or distance that a symbol and the bits behind it stand for: up to `2 * group` symbols
stand for one number each, and every `group` further ones have one bit more behind them. -/
def extended (group symbol : Nat) : Inflate Nat := do
  if symbol < 2 * group then return symbol
  else
    let count := symbol / group - 1
    return (group + symbol % group) * Nat.pow 2 count + (← Inflate.bits count)

def repetition (symbol : Nat) : Inflate Nat := do
  Inflate.require (symbol < 29)
  if symbol = 28 then return 258
  else return 3 + (← extended 4 symbol)

def distance (symbol : Nat) : Inflate Nat := do
  Inflate.require (symbol < 30)
  let distance := 1 + (← extended 2 symbol)
  Inflate.require (distance ≤ (← get).output.size)
  return distance

def endSymbol : Nat := 256

def words (literals distances : SymbolCode) : Nat → Inflate Unit
  | 0 => Inflate.stop .starved
  | bound + 1 => do
    let symbol ← literals.symbol
    if symbol < endSymbol then
      Inflate.put (UInt8.ofNat symbol)
      words literals distances bound
    else if symbol = endSymbol then pure ()
    else
      let count ← repetition (symbol - endSymbol - 1)
      Inflate.copy (← distance (← distances.symbol)) count
      words literals distances bound

def codeOf (lengths : List Nat) : Inflate SymbolCode :=
  match SymbolCode.ofLengths? lengths with
  | some code => pure code
  | none => Inflate.stop .broken

def fixedLengths : List Nat × List Nat :=
  (List.replicate 144 8 ++ List.replicate 112 9 ++ List.replicate 24 7 ++ List.replicate 8 8,
    List.replicate 32 5)

def lengthOrder : List Nat := [16, 17, 18, 0, 8, 7, 9, 6, 10, 5, 11, 4, 12, 3, 13, 2, 14, 1, 15]

/-- Lengths, `total` of them, behind those that are told already. A symbol stands for a length, for
the one before again and again, or for zeros. -/
def lengthsFrom (code : SymbolCode) (total : Nat) : Nat → List Nat → Inflate (List Nat)
  | 0, lengths => pure lengths
  | bound + 1, lengths => do
    if total ≤ lengths.length then return lengths
    else
      let symbol ← code.symbol
      if symbol < 16 then lengthsFrom code total bound (lengths ++ [symbol])
      else
        let (length, count) ← match symbol, lengths.getLast? with
          | 16, some length => do pure (length, 3 + (← Inflate.bits 2))
          | 16, none => Inflate.stop .broken
          | 17, _ => do pure (0, 3 + (← Inflate.bits 3))
          | _, _ => do pure (0, 11 + (← Inflate.bits 7))
        Inflate.require (lengths.length + count ≤ total)
        lengthsFrom code total bound (lengths ++ List.replicate count length)

def toldLengths : Inflate (List Nat × List Nat) := do
  Inflate.await 14
  let literals := 257 + (← Inflate.bits 5)
  let distances := 1 + (← Inflate.bits 5)
  let told ← (List.range (4 + (← Inflate.bits 4))).mapM fun _ => Inflate.bits 3
  Inflate.require (literals ≤ 286 && distances ≤ 30)
  let lengths := (List.range 19).map fun symbol => ((lengthOrder.zip told).lookup symbol).getD 0
  let total := literals + distances
  let lengths ← lengthsFrom (← codeOf lengths) total total []
  Inflate.require (lengths[endSymbol]?.getD 0 ≠ 0)
  return lengths.splitAt literals

def stored : Inflate Unit := do
  Inflate.align
  Inflate.await 32
  let count ← Inflate.bits 16
  Inflate.require (count + (← Inflate.bits 16) = 65535)
  for _ in List.range count do
    Inflate.put (UInt8.ofNat (← Inflate.bits 8))

def block : Inflate Bool := do
  Inflate.await (← read).ahead
  let last ← Inflate.bits 1
  let kind ← Inflate.bits 2
  if kind = 0 then stored
  else
    Inflate.require (kind ≠ 3)
    let (literals, distances) ← if kind = 1 then pure fixedLengths else toldLengths
    let bound := 8 * (← read).packed.size
    words (← codeOf literals) (← codeOf distances) bound
  return last = 1

def blocks : Nat → Inflate Unit
  | 0 => Inflate.stop .starved
  | bound + 1 => do
    if ← block then Inflate.align else blocks bound

/-- Whether two bytes can start packed bytes: the one method, with no more than 32 KiB looked back
on, nothing presupposed, and a number that is divisible by 31. -/
def isHead (method flags : UInt8) : Bool :=
  method % 16 = 8 && method / 16 ≤ 7 && flags / 32 % 2 = 0 &&
    (method.toNat * 256 + flags.toNat) % 31 = 0

def all : Inflate Unit := do
  Inflate.await 16
  let method ← Inflate.bits 8
  let flags ← Inflate.bits 8
  Inflate.require (isHead (UInt8.ofNat method) (UInt8.ofNat flags))
  blocks (8 * (← read).packed.size)

def unpack (source : Inflation.Source) : Inflation × Ending :=
  match (all source).run.run ⟨0, #[], 0⟩ with
  | (.ok (), state) => (state, .finished)
  | (.error ending, state) => (state, ending)

/-- The checksum of bytes: their sum and the sum of all sums on the way, both modulo a prime. -/
def checksum (bytes : Array UInt8) : Nat :=
  let (low, high) := bytes.foldl (fun (low, high) byte =>
    let low := (low + byte.toNat) % 65521
    (low, (high + low) % 65521)) (1, 0)
  high * 65536 + low

end RenderVerdict.Blocks
