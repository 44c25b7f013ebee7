import RenderVerdict.Json.Basic
import RenderVerdict.Number.Decimal
import RenderVerdict.Text.Reader

/-! Reading JSON text. -/
namespace RenderVerdict.Json

open Reader

variable {α : Type}

def maxDepth : Nat := 127

def isBlank (c : Char) : Bool := c == ' ' || c == '\t' || c == '\n' || c == '\r'

def hexUnit : Reader Nat := do
  return ofDigits 16 (← times 4 (nextIf fun c => (digitValue? 16 c).isSome))

def unicodeEscape : Reader Char := do
  let unit ← hexUnit
  if 0xD800 ≤ unit ∧ unit < 0xDC00 then
    literal ['\\', 'u']
    let low ← hexUnit
    if 0xDC00 ≤ low ∧ low < 0xE000 then
      pure (Char.ofNat (0x10000 + (unit - 0xD800) * 0x400 + (low - 0xDC00)))
    else failure
  else if 0xDC00 ≤ unit ∧ unit < 0xE000 then failure
  else pure (Char.ofNat unit)

def stringStep : Reader (Option Char) := do
  let c ← next
  if c = '"' then pure none
  else if c = '\\' then
    match ← next with
    | '"' => pure (some '"')
    | '\\' => pure (some '\\')
    | '/' => pure (some '/')
    | 'b' => pure (some '\x08')
    | 'f' => pure (some '\x0c')
    | 'n' => pure (some '\n')
    | 'r' => pure (some '\r')
    | 't' => pure (some '\t')
    | 'u' => some <$> unicodeEscape
    | _ => failure
  else if c.toNat < 0x20 then failure
  else pure (some c)

def stringRest : Reader String := String.ofList <$> collect stringStep

def optionalPart (marks : List Char) (part : Reader α) : Reader (Option α) := do
  match ← peek with
  | some c => if c ∈ marks then do let _ ← next; some <$> part else pure none
  | none => pure none

def exponentPart : Reader Int := do
  let sign ← peek
  let negative := sign == some '-'
  if negative || sign == some '+' then
    let _ ← next
  let size := ofDigits 10 (← takeWhile1 Char.isDigit)
  return if negative then -(size : Int) else size

/-- A number of JSON's grammar: an integer of 64 bits is exact, any other number is the nearest
value, and one too large for that is refused. -/
def number : Reader Json := do
  let negative ← accept ['-']
  let whole ← takeWhile1 Char.isDigit
  if whole.length > 1 && whole.head? == some '0' then failure
  let fraction ← optionalPart ['.'] (takeWhile1 Char.isDigit)
  let exponent ← optionalPart ['e', 'E'] exponentPart
  let size := ofDigits 10 whole
  let whole? := fraction.isNone && exponent.isNone
  if whole? && !negative && size < Nat.pow 2 64 then return .int size
  if whole? && negative && 0 < size && size ≤ Nat.pow 2 63 then return .int (-(size : Int))
  let decimals := fraction.getD []
  let decimal : Decimal :=
    ⟨ofDigits 10 (whole ++ decimals), exponent.getD 0 - decimals.length⟩
  let value : Double := decimal.toBinary negative
  if value.isFinite then pure (.real value) else failure

def bracketed (item : Reader α) (closing : Char) : Reader (List α) := do
  skipWhile isBlank
  if (← peek) == some closing then
    char closing
    return []
  let first ← item
  let rest ← collect do
    skipWhile isBlank
    let c ← next
    if c = closing then pure none
    else if c = ',' then do skipWhile isBlank; some <$> item
    else failure
  return first :: rest

def field (value : Reader Json) : Reader (String × Json) := do
  char '"'
  let name ← stringRest
  skipWhile isBlank
  char ':'
  return (name, ← value)

def value (depth : Nat) : Reader Json := do
  skipWhile isBlank
  match ← peek with
  | some '"' => do let _ ← next; .str <$> stringRest
  | some 'n' => do literal ['n', 'u', 'l', 'l']; pure .null
  | some 't' => do literal ['t', 'r', 'u', 'e']; pure (.bool true)
  | some 'f' => do literal ['f', 'a', 'l', 's', 'e']; pure (.bool false)
  | some '[' =>
    match depth with
    | 0 => failure
    | depth + 1 => do let _ ← next; .arr <$> bracketed (value depth) ']'
  | some '\x7b' =>
    match depth with
    | 0 => failure
    | depth + 1 => do let _ ← next; .obj <$> bracketed (field (value depth)) '\x7d'
  | _ => number

def read? (text : String) : Option Json :=
  readAll (do let result ← value maxDepth; skipWhile isBlank; pure result) text

end RenderVerdict.Json
