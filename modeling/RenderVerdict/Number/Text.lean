import RenderVerdict.Number.Decimal

/-! Number text: the layouts in which values are written. -/
namespace RenderVerdict

structure NumberStyle where
  /-- Which of two equally near shortest decimals is taken. -/
  tie : Tie
  /-- Exponents of the leading digit from the first bound up to below the second are written
  positionally; without bounds all are. -/
  positional : Option (Int × Int)
  /-- Whether a whole number keeps `.0`. -/
  wholePoint : Bool
deriving DecidableEq, Repr

namespace NumberStyle

def positionalText (style : NumberStyle) (digits : List Char) (lead : Int) : List Char :=
  if lead < 0 then '0' :: '.' :: (List.replicate (-lead - 1).toNat '0' ++ digits)
  else
    let whole := lead.toNat + 1
    if whole < digits.length then digits.take whole ++ '.' :: digits.drop whole
    else digits ++ List.replicate (whole - digits.length) '0' ++
      (if style.wholePoint then ['.', '0'] else [])

def scientificText (digits : List Char) (lead : Int) : List Char :=
  let fraction := if digits.length ≤ 1 then [] else '.' :: digits.drop 1
  digits.take 1 ++ fraction ++
    'e' :: (if lead < 0 then '-' else '+') :: Nat.toDigits 10 lead.natAbs

def decimalText (style : NumberStyle) (d : Decimal) : List Char :=
  let digits := Nat.toDigits 10 d.digits
  let lead : Int := digits.length + d.exponent - 1
  match style.positional with
  | some (first, last) =>
    if first ≤ lead ∧ lead < last then style.positionalText digits lead
    else scientificText digits lead
  | none => style.positionalText digits lead

def text {f : Format} (style : NumberStyle) : Binary f → String
  | .nan => "NaN"
  | .infinite negative => if negative then "-inf" else "inf"
  | x@(.finite negative ..) =>
    (if negative then "-" else "") ++ String.ofList (style.decimalText (x.shortest style.tie))

end NumberStyle

def padZeros (width : Nat) (digits : List Char) : List Char :=
  List.replicate (width - digits.length) '0' ++ digits

def Binary.fixedText {f : Format} (places : Nat) : Binary f → String
  | .nan => "NaN"
  | .infinite negative => if negative then "-inf" else "inf"
  | .finite negative m q _ =>
    let steps := roundQuotient .even (m * power 2 q * power 10 places) (power 2 (-q))
    let digits := padZeros (places + 1) (Nat.toDigits 10 steps)
    let whole := digits.take (digits.length - places)
    let fraction := digits.drop (digits.length - places)
    (if negative then "-" else "") ++
      String.ofList (if places = 0 then whole else whole ++ '.' :: fraction)

end RenderVerdict
