import RenderVerdict.Number.Text
import RenderVerdict.Text.Reader
import RenderVerdict.Toml.Table

/-! The lexical level of TOML: blanks, strings, numbers, dates and times. -/
namespace RenderVerdict.Toml

open Reader

def isBlank (c : Char) : Bool := c == ' ' || c == '\t'

def isPrintable (c : Char) : Bool := c == '\t' || (0x20 ≤ c.toNat && c.toNat ≠ 0x7f)

def blanks : Reader Unit := skipWhile isBlank

def acceptOne (characters : List Char) : Reader Bool := fun text =>
  match nextIf (· ∈ characters) text with
  | some (_, rest) => some (true, rest)
  | none => some (false, text)

def acceptNewline : Reader Bool := do
  if ← accept ['\n'] then pure true else accept ['\r', '\n']

def optionalComment : Reader Unit := do
  if ← accept ['#'] then skipWhile isPrintable

def lineEnd : Reader Unit := do
  blanks
  optionalComment
  if (← peek).isSome then
    if !(← acceptNewline) then failure

def blankLines : Reader Unit := do
  let _ ← collect do
    blanks
    if (← peek) == some '#' then
      optionalComment
      if ← acceptNewline then pure (some ()) else failure
    else if ← acceptNewline then pure (some ())
    else pure none

/-! Strings. -/

def codeEscape (digits : Nat) : Reader Char := do
  let code := ofDigits 16 (← times digits (nextIf fun c => (digitValue? 16 c).isSome))
  if code.isValidChar then pure (Char.ofNat code) else failure

def escapeRest : Reader Char := do
  match ← next with
  | 'b' => pure '\x08'
  | 't' => pure '\t'
  | 'n' => pure '\n'
  | 'f' => pure '\x0c'
  | 'r' => pure '\r'
  | '"' => pure '"'
  | '\\' => pure '\\'
  | 'u' => codeEscape 4
  | 'U' => codeEscape 8
  | _ => failure

def lineString (quote : Char) (escapes : Bool) : Reader String :=
  String.ofList <$> collect do
    let c ← next
    if c = quote then pure none
    else if escapes && c = '\\' then some <$> escapeRest
    else if isPrintable c then pure (some c)
    else failure

def lineJoin : Reader Unit := do
  blanks
  if !(← acceptNewline) then failure
  let _ ← collect do
    blanks
    if ← acceptNewline then pure (some ()) else pure none

/-- The next piece of a string over several lines, or nothing at its closing quotes. One or two
quotes are content; of more, the last three close the string. -/
def longStringStep (quote : Char) (escapes : Bool) : Reader (Option (List Char × Bool)) := do
  if (← peek) == some quote then
    let quotes ← takeWhile (· == quote)
    if quotes.length < 3 then pure (some (quotes, false))
    else if quotes.length ≤ 5 then pure (some (quotes.drop 3, true))
    else failure
  else if ← acceptNewline then pure (some (['\n'], false))
  else
    let c ← next
    if escapes && c = '\\' then
      match ← peek with
      | some ' ' | some '\t' | some '\r' | some '\n' => do lineJoin; pure (some ([], false))
      | _ => do return some ([← escapeRest], false)
    else if isPrintable c then pure (some ([c], false))
    else failure

def longStringPieces (quote : Char) (escapes : Bool) : Nat → Reader (List Char)
  | 0 => failure
  | bound + 1 => do
    match ← longStringStep quote escapes with
    | none => failure
    | some (piece, true) => pure piece
    | some (piece, false) => return piece ++ (← longStringPieces quote escapes bound)

def longString (quote : Char) (escapes : Bool) : Reader String := do
  let _ ← acceptNewline
  let characters ← fun text => longStringPieces quote escapes (text.length + 1) text
  pure (String.ofList characters)

def string : Reader String := do
  let quote ← nextIf fun c => c == '"' || c == '\''
  let escapes := quote == '"'
  if ← accept [quote, quote] then longString quote escapes else lineString quote escapes

/-! Numbers. -/

def digitRow (base : Nat) : Reader (List Char) := do
  let isDigit := fun c => (digitValue? base c).isSome
  let first ← nextIf isDigit
  let rest ← collect do
    if ← accept ['_'] then some <$> nextIf isDigit
    else match ← peek with
      | some c => if isDigit c then some <$> next else pure none
      | none => pure none
  return first :: rest

def wholeDigits : Reader (List Char) := do
  if ← accept ['0'] then pure ['0'] else digitRow 10

def integerOf (negative : Bool) (size : Nat) : Reader Value :=
  let value : Int := if negative then -(size : Int) else size
  let bound : Int := Nat.pow 2 63
  if -bound ≤ value ∧ value < bound then pure (.integer value) else failure

def sign : Reader (Option Bool) := do
  if ← accept ['-'] then pure (some true)
  else if ← accept ['+'] then pure (some false)
  else pure none

def number : Reader Value := do
  let negative? ← sign
  let negative := negative?.getD false
  if ← accept ['i', 'n', 'f'] then return .float (.infinite negative)
  if ← accept ['n', 'a', 'n'] then return .float .nan
  if negative?.isNone then
    if ← accept ['0', 'x'] then return ← integerOf false (ofDigits 16 (← digitRow 16))
    if ← accept ['0', 'o'] then return ← integerOf false (ofDigits 8 (← digitRow 8))
    if ← accept ['0', 'b'] then return ← integerOf false (ofDigits 2 (← digitRow 2))
  let whole ← wholeDigits
  let fraction ← if ← accept ['.'] then some <$> digitRow 10 else pure none
  let exponent ← do
    if ← acceptOne ['e', 'E'] then
      let negative := (← sign).getD false
      let size := ofDigits 10 (← digitRow 10)
      pure (some (if negative then -(size : Int) else size))
    else pure none
  if fraction.isNone && exponent.isNone then integerOf negative (ofDigits 10 whole)
  else
    let decimals := fraction.getD []
    let value : Double := Decimal.toBinary negative
      ⟨ofDigits 10 (whole ++ decimals), exponent.getD 0 - decimals.length⟩
    if value = .infinite false then failure else pure (.float value)

/-! Dates and times. -/

def field (width least most : Nat) : Reader Nat := do
  let value := ofDigits 10 (← times width (nextIf Char.isDigit))
  if least ≤ value && value ≤ most then pure value else failure

def twoDigits (value : Nat) : List Char := padZeros 2 (Nat.toDigits 10 value)

def daysIn (year month : Nat) : Nat :=
  if month = 2 then
    if year % 4 = 0 ∧ (year % 100 ≠ 0 ∨ year % 400 = 0) then 29 else 28
  else if month = 4 ∨ month = 6 ∨ month = 9 ∨ month = 11 then 30
  else 31

def date : Reader (List Char) := do
  let year ← field 4 0 9999
  char '-'
  let month ← field 2 1 12
  char '-'
  let day ← field 2 1 (daysIn year month)
  return padZeros 4 (Nat.toDigits 10 year) ++ '-' :: twoDigits month ++ '-' :: twoDigits day

def timeRest (hour : Nat) : Reader (List Char) := do
  let minute ← field 2 0 59
  char ':'
  let second ← field 2 0 60
  let fraction ← if ← accept ['.'] then takeWhile1 Char.isDigit else pure []
  let kept := ((fraction.take 9).reverse.dropWhile (· == '0')).reverse
  return twoDigits hour ++ ':' :: twoDigits minute ++ ':' :: twoDigits second ++
    (if kept.isEmpty then [] else '.' :: kept)

def offset : Reader (List Char) := do
  if ← acceptOne ['Z', 'z'] then pure ['Z']
  else match ← sign with
    | none => pure []
    | some negative => do
      let hour ← field 2 0 23
      char ':'
      let minute ← field 2 0 59
      let mark := if negative && (hour, minute) ≠ (0, 0) then '-' else '+'
      return mark :: twoDigits hour ++ ':' :: twoDigits minute

def hour : Reader Nat := do
  let hour ← field 2 0 23
  char ':'
  pure hour

def attempt {α : Type} (reader : Reader α) : Reader (Option α) := fun text =>
  match reader text with
  | some (value, rest) => some (some value, rest)
  | none => some (none, text)

def datetime : Reader Value := do
  match ← attempt hour with
  | some hour => do return .datetime (String.ofList (← timeRest hour))
  | none =>
    let day ← date
    let start ← attempt do
      let _ ← nextIf fun c => c == 'T' || c == 't' || c == ' '
      hour
    match start with
    | none => return .datetime (String.ofList day)
    | some hour => do
      let time ← timeRest hour
      return .datetime (String.ofList (day ++ 'T' :: time ++ (← offset)))

def startsDatetime (text : List Char) : Bool :=
  let digits := (text.takeWhile Char.isDigit).length
  match (text.drop digits).head? with
  | some '-' => digits == 4
  | some ':' => digits == 2
  | _ => false

def numberOrDatetime : Reader Value := fun text =>
  if startsDatetime text then datetime text else number text

end RenderVerdict.Toml
