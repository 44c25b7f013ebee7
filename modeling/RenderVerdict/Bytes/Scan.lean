import RenderVerdict.Packing.Basic

/-! Scans: readings of bytes from a place on, which end at the first damage. -/
namespace RenderVerdict

inductive Damage where
  /-- The bytes keep to the format as far as they go, and end where more has to follow. -/
  | cutOff
  /-- The bytes lead to a place that no file has. -/
  | unreachable
  /-- The bytes break a rule of the format. -/
  | broken
  /-- The bytes hold others that are not packed as they should be. -/
  | badPacking (fault : PackingFault)
deriving DecidableEq, Repr

/-- The number that bytes write. The lowest byte comes first if `little` holds, and last
otherwise. -/
def numberOf (little : Bool) (bytes : List UInt8) : Nat :=
  (if little then bytes.reverse else bytes).foldl (fun n byte => n * 256 + byte.toNat) 0

def bytesOf : Nat → Nat → List UInt8
  | 0, _ => []
  | count + 1, n => UInt8.ofNat n :: bytesOf count (n / 256)

def numbersOf (little : Bool) (width count : Nat) (bytes : Array UInt8) : Array Nat :=
  (Array.range count).map fun i =>
    numberOf little (bytes.extract (i * width) ((i + 1) * width)).toList

abbrev Scan := ReaderT (Array UInt8) (StateT Nat (Except Damage))

namespace Scan

variable {α : Type}

def read (scan : Scan α) (bytes : Array UInt8) : Except Damage α :=
  match scan bytes 0 with
  | .ok (value, _) => .ok value
  | .error damage => .error damage

def fail (damage : Damage) : Scan α := fun _ _ => .error damage

def require (kept : Bool) : Scan Unit := if kept then pure () else fail .broken

def peek (count : Nat) : Scan (Array UInt8) := fun bytes place =>
  .ok (bytes.extract place (place + count), place)

def take (count : Nat) : Scan (List UInt8) := fun bytes place =>
  if bytes.size < place + count then .error .cutOff
  else .ok ((bytes.extract place (place + count)).toList, place + count)

def number (little : Bool) (count : Nat) : Scan Nat := do
  return numberOf little (← take count)

/-- Goes on at a place, which may lie past the end, but not past the end of every file. -/
def seek (place : Nat) : Scan Unit := fun _ _ =>
  if place < Nat.pow 2 63 then .ok ((), place) else .error .unreachable

end Scan

end RenderVerdict
