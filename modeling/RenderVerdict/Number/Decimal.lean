import RenderVerdict.Number.Binary

/-! Decimals: reading one into a binary format, rounding a value to decimal places, and the
shortest decimal that reads back as a value. -/
namespace RenderVerdict

structure Decimal where
  digits : Nat
  exponent : Int
deriving DecidableEq, Repr

namespace Decimal

variable {f : Format}

def width (n : Nat) : Nat := (Nat.toDigits 10 n).length

/-- The value of the format nearest to a decimal, ties to even. A decimal that is out of the
format's range by far is settled by its order of magnitude. -/
def toBinary (negative : Bool) (d : Decimal) : Binary f :=
  let top : Int := width d.digits + d.exponent
  if d.digits = 0 ∨ top ≤ 0 ∧ 3 * top < f.minExponent - 1 then Binary.round negative 0 1
  else if 0 < top ∧ f.maxExponent + f.bits < 3 * (top - 1) then .infinite negative
  else Binary.round negative (d.digits * power 10 d.exponent) (power 10 (-d.exponent))

def trim (d : Decimal) : Decimal :=
  if d.digits = 0 then d
  else if d.digits % 10 = 0 then trim ⟨d.digits / 10, d.exponent + 1⟩
  else d
termination_by d.digits
decreasing_by omega

end Decimal

namespace Binary

variable {f : Format}

/-- Rounds a finite value to a multiple of `10 ^ -places`, a half going to the even multiple, and
takes the nearest value of the format. A zero result is positive. No value has more decimal
places than its least exponent allows, so more are not asked for. -/
def toPlaces (places : Nat) : Binary f → Binary f
  | .finite negative m q _ =>
    let grid := power 10 (min places f.minExponent.natAbs : Nat)
    let steps := roundQuotient .even (m * power 2 q * grid) (power 2 (-q))
    if steps = 0 then zero else round negative steps grid
  | x => x

def maxPlaces : Nat := 65535

/-- Rounds a value to decimal places as `toPlaces` does, unless it is finite and would have to be
written with more of them than a number can have. -/
def toPlaces? (places : Nat) (x : Binary f) : Option (Binary f) :=
  if x.isFinite && maxPlaces < places then none else some (x.toPlaces places)

private def decimalTop (m : Nat) (q : Int) : Int :=
  let num := m * power 2 q
  let den := power 2 (-q)
  if den ≤ num then Decimal.width (num / den)
  else 1 - (Decimal.width ((den - 1) / num) : Int)

/-- The decimal of `count` leading digits next to `num / den` that reads back as `x`: of two such
the nearer, and of two equally near the one that `tie` names. -/
private def candidate (tie : Tie) (x : Binary f) (num den : Nat) (top : Int) (count : Nat) :
    Option Decimal :=
  let exponent := top - count
  let num := num * power 10 (-exponent)
  let den := den * power 10 exponent
  let low := num / den
  let readsBack (digits : Nat) : Bool := Decimal.toBinary false ⟨digits, exponent⟩ = x
  let nearest := roundQuotient tie num den
  let other := if nearest = low then low + 1 else low
  if readsBack nearest then some ⟨nearest, exponent⟩
  else if readsBack other then some ⟨other, exponent⟩
  else none

private def shortestOf (tie : Tie) (x : Binary f) (m : Nat) (q : Int) : Decimal :=
  let num := m * power 2 q
  let den := power 2 (-q)
  let found := (List.range f.bits).findSome? fun i =>
    candidate tie x num den (decimalTop m q) (i + 1)
  (found.getD ⟨num * power 5 (-q), min q 0⟩).trim

/-- The decimal with the fewest digits that reads back as the magnitude of a finite value; among
those the nearest, and of two equally near the one that `tie` names. -/
def shortest (tie : Tie) : Binary f → Decimal
  | .finite _ m q canonical =>
    if m = 0 then ⟨0, 0⟩ else shortestOf tie (.finite false m q canonical) m q
  | _ => ⟨0, 0⟩

end Binary

end RenderVerdict
