import RenderVerdict.Number.Quotient

/-! Binary floating-point values as exact data: a sign, a significand and an exponent of two.
Every operation is the exact rational one followed by one rounding to nearest. -/
namespace RenderVerdict

/-- A binary format: the bits of a significand, and the exponents of the last place of its
smallest and of its largest values. -/
structure Format where
  bits : Nat
  minExponent : Int
  maxExponent : Int
  bits_pos : 0 < bits := by decide
  ordered : minExponent ≤ maxExponent := by decide
deriving DecidableEq

namespace Format

def double : Format where
  bits := 53
  minExponent := -1074
  maxExponent := 971

def single : Format where
  bits := 24
  minExponent := -149
  maxExponent := 104

/-- The one way a format writes `m * 2 ^ q`: the significand is full, unless the exponent is the
least one. -/
def Canonical (f : Format) (m : Nat) (q : Int) : Prop :=
  m < Nat.pow 2 f.bits ∧ f.minExponent ≤ q ∧ q ≤ f.maxExponent ∧
    (Nat.pow 2 (f.bits - 1) ≤ m ∨ q = f.minExponent)

instance (f : Format) (m : Nat) (q : Int) : Decidable (f.Canonical m q) :=
  inferInstanceAs (Decidable (_ ∧ _ ∧ _ ∧ _))

theorem canonical_zero (f : Format) : f.Canonical 0 f.minExponent :=
  ⟨Nat.two_pow_pos _, Int.le_refl _, f.ordered, .inr rfl⟩

def exponentOf (f : Format) (num den : Nat) : Int :=
  if num = 0 then f.minExponent
  else
    let q : Int := (num.log2 : Int) - den.log2 - f.bits
    let fits := num * power 2 (-q) < Nat.pow 2 f.bits * (den * power 2 q)
    max f.minExponent (if fits then q else q + 1)

end Format

/-- A value of a binary format. There is a single not-a-number, and zero has two signs. -/
inductive Binary (f : Format) where
  | nan
  | infinite (negative : Bool)
  | finite (negative : Bool) (significand : Nat) (exponent : Int)
      (canonical : f.Canonical significand exponent)
deriving DecidableEq

abbrev Double := Binary .double

abbrev Single := Binary .single

namespace Binary

variable {f g : Format}

def zero : Binary f := .finite false 0 f.minExponent f.canonical_zero

instance : Inhabited (Binary f) := ⟨zero⟩

def isNaN : Binary f → Bool
  | .nan => true
  | _ => false

def isFinite : Binary f → Bool
  | .finite .. => true
  | _ => false

def toRat : Binary f → Rat
  | .finite negative m q _ => ((if negative then -(m : Int) else m : Int) : Rat) * 2 ^ q
  | _ => 0

/-- Rounds `num / den` with the given sign to nearest, ties to even. A result past the largest
exponent is infinite. -/
def round (negative : Bool) (num den : Nat) : Binary f :=
  let q := f.exponentOf num den
  let m := roundQuotient .even (num * power 2 (-q)) (den * power 2 q)
  if fits : f.Canonical m q then .finite negative m q fits
  else if carried : f.Canonical (Nat.pow 2 (f.bits - 1)) (q + 1) then .finite negative _ _ carried
  else .infinite negative

def nearest (r : Rat) : Binary f := round (r < 0) r.num.natAbs r.den

def convert : Binary f → Binary g
  | .nan => .nan
  | .infinite negative => .infinite negative
  | .finite negative m q _ => round negative (m * power 2 q) (power 2 (-q))

def eq : Binary f → Binary f → Bool
  | .infinite a, .infinite b => a == b
  | x@(.finite ..), y@(.finite ..) => x.toRat == y.toRat
  | _, _ => false

def lt : Binary f → Binary f → Bool
  | .nan, _ | _, .nan => false
  | .infinite a, .infinite b => a && !b
  | .infinite a, .finite .. => a
  | .finite .., .infinite b => !b
  | .finite a m q _, .finite b n r _ =>
    (if a then -(m : Int) else m) * power 2 (q - r) <
      (if b then -(n : Int) else n) * power 2 (r - q)

def max (x y : Binary f) : Binary f :=
  if x.isNaN then y else if x.lt y then y else x

def toInt? (x : Binary f) : Option Int :=
  if x.isFinite && x.toRat.den == 1 then some x.toRat.num else none

end Binary

end RenderVerdict
