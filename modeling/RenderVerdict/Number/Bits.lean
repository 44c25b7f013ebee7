import RenderVerdict.Number.Binary

/-! Bit patterns of binary values: a sign, an exponent counted from zero, and a fraction. -/
namespace RenderVerdict

namespace Format

def fractions (f : Format) : Nat := Nat.pow 2 (f.bits - 1)

/-- How many exponents the patterns of a format tell apart. The first is shared by the values
without a full significand and the second; the last one belongs to no finite value. -/
def exponents (f : Format) : Nat := (f.maxExponent - f.minExponent).toNat + 3

end Format

namespace Binary

variable {f : Format}

def ofBits (bits : Nat) : Binary f :=
  let fraction := bits % f.fractions
  let exponent := bits / f.fractions % f.exponents
  let negative := bits / f.fractions / f.exponents % 2 = 1
  if exponent + 1 = f.exponents then
    if fraction = 0 then .infinite negative else .nan
  else
    let m := if exponent = 0 then fraction else fraction + f.fractions
    let q : Int := f.minExponent + (exponent - 1 : Nat)
    round negative (m * power 2 q) (power 2 (-q))

def pattern (f : Format) (negative : Bool) (exponent fraction : Nat) : Nat :=
  ((if negative then f.exponents else 0) + exponent) * f.fractions + fraction

/-- The bit pattern of a value. The fraction of not-a-number is its first bit alone. -/
def toBits : Binary f → Nat
  | .nan => pattern f false (f.exponents - 1) (f.fractions / 2)
  | .infinite negative => pattern f negative (f.exponents - 1) 0
  | .finite negative m q _ =>
    if m < f.fractions then pattern f negative 0 m
    else pattern f negative ((q - f.minExponent).toNat + 1) (m - f.fractions)

end Binary

end RenderVerdict
