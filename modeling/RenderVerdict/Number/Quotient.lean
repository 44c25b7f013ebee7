/-! Exact quotients of natural numbers: powers as quotients, and rounding. -/
namespace RenderVerdict

/-- A power, or one if the exponent is negative: `base ^ e` is `power base e / power base (-e)`. -/
def power (base : Nat) (exponent : Int) : Nat := Nat.pow base exponent.toNat

inductive Tie where
  | even
  | away
deriving DecidableEq, Repr

def roundQuotient (tie : Tie) (num den : Nat) : Nat :=
  let whole := num / den
  let twice := 2 * (num % den)
  if twice < den then whole
  else if den < twice then whole + 1
  else match tie with
    | .even => whole + whole % 2
    | .away => whole + 1

end RenderVerdict
