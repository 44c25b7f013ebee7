import RenderVerdict.Packing.Basic

/-! Readings of packed bits, the lowest bit of each byte first, that put bytes out as they go on. -/
namespace RenderVerdict

structure Inflation where
  /-- How many bits are read. -/
  place : Nat
  output : Array UInt8
  /-- How many bits were read when the last byte was put out. -/
  used : Nat

structure Inflation.Source where
  packed : Array UInt8
  /-- How many bytes are asked for. -/
  limit : Nat
  /-- How many bits have to be there before a block is begun. -/
  ahead : Nat

/-- Reads bits and puts bytes out. What is out at an ending stays out. -/
abbrev Inflate := ReaderT Inflation.Source (ExceptT Ending (StateM Inflation))

def bitAt (packed : Array UInt8) (place : Nat) : Nat :=
  (packed[place / 8]?.getD 0 >>> (place % 8).toUInt8).toNat % 2

def numberAt (packed : Array UInt8) (place : Nat) : Nat → Nat
  | 0 => 0
  | count + 1 => bitAt packed place + 2 * numberAt packed (place + 1) count

namespace Inflate

variable {α : Type}

def stop (ending : Ending) : Inflate α := throw ending

def require (kept : Bool) : Inflate Unit := if kept then pure () else stop .broken

def await (count : Nat) : Inflate Unit := do
  if 8 * (← read).packed.size < (← get).place + count then stop .starved

def bits (count : Nat) : Inflate Nat := do
  await count
  let packed := (← read).packed
  let place := (← get).place
  modify fun state => { state with place := place + count }
  return numberAt packed place count

def align : Inflate Unit :=
  modify fun state => { state with place := (state.place + 7) / 8 * 8 }

def put (byte : UInt8) : Inflate Unit := do
  let limit := (← read).limit
  if limit ≤ (← get).output.size then stop .full
  modify fun state => { state with output := state.output.push byte, used := state.place }

def copy (distance : Nat) : Nat → Inflate Unit
  | 0 => pure ()
  | count + 1 => do
    let output := (← get).output
    put (output[output.size - distance]?.getD 0)
    copy distance count

end Inflate

/-- A code in which no word begins another: how many words of each length there are, and the symbols
in the order of their words. -/
structure SymbolCode where
  counts : List Nat
  symbols : Array Nat

namespace SymbolCode

def maxBits : Nat := 15

/-- The code whose words have the given lengths, if it has a word for every sequence of bits or no
more than one symbol. Where a length is zero there is no word. -/
def ofLengths? (lengths : List Nat) : Option SymbolCode :=
  let sizes := List.range' 1 maxBits
  let counts := sizes.map fun size => lengths.count size
  let symbols := sizes.flatMap fun size =>
    lengths.zipIdx.filterMap fun (length, symbol) => if length = size then some symbol else none
  let used := (counts.zip sizes).foldl (fun used (count, size) =>
    used + count * Nat.pow 2 (maxBits - size)) 0
  if used = Nat.pow 2 maxBits ∨ symbols.length ≤ 1 then some ⟨counts, symbols.toArray⟩ else none

/-- The symbol whose word comes next, and the place behind it. Of the words with as many bits as are
read so far, `first` is the lowest; `before` shorter words come before it, and `word` is what is
read. -/
def symbolFrom (symbols : Array Nat) (packed : Array UInt8) :
    List Nat → Nat → Nat → Nat → Nat → Except Ending (Nat × Nat)
  | [], _, _, _, _ => .error .broken
  | count :: counts, first, before, word, place =>
    if 8 * packed.size ≤ place then .error .starved
    else
      let word := word * 2 + bitAt packed place
      if word < first + count then
        match symbols[before + (word - first)]? with
        | some symbol => .ok (symbol, place + 1)
        | none => .error .broken
      else
        symbolFrom symbols packed counts ((first + count) * 2) (before + count) word (place + 1)

def symbol (code : SymbolCode) : Inflate Nat := do
  match symbolFrom code.symbols (← read).packed code.counts 0 0 0 (← get).place with
  | .error ending => Inflate.stop ending
  | .ok (symbol, place) =>
    modify fun state => { state with place }
    return symbol

end SymbolCode

end RenderVerdict
