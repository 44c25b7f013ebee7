/-! Readers: functions that take something from the front of a text and leave the rest. -/
namespace RenderVerdict

abbrev Reader := StateT (List Char) Option

namespace Reader

variable {α : Type}

def peek : Reader (Option Char) := fun text => some (text.head?, text)

def next : Reader Char
  | [] => none
  | c :: rest => some (c, rest)

def nextIf (p : Char → Bool) : Reader Char
  | [] => none
  | c :: rest => if p c then some (c, rest) else none

def char (c : Char) : Reader Unit := fun text => (nextIf (· == c) text).map fun r => ((), r.2)

def literal : List Char → Reader Unit
  | [] => pure ()
  | c :: rest => do char c; literal rest

def accept (expected : List Char) : Reader Bool := fun text =>
  match literal expected text with
  | some (_, rest) => some (true, rest)
  | none => some (false, text)

def takeWhile (p : Char → Bool) : Reader (List Char) := fun text =>
  some (text.takeWhile p, text.dropWhile p)

def takeWhile1 (p : Char → Bool) : Reader (List Char) := do
  let taken ← takeWhile p
  if taken.isEmpty then failure else pure taken

def skipWhile (p : Char → Bool) : Reader Unit := fun text => some ((), text.dropWhile p)

def done : Reader Unit
  | [] => some ((), [])
  | _ => none

def repeatUpTo (step : Reader (Option α)) : Nat → Reader (List α)
  | 0 => failure
  | bound + 1 => do
    match ← step with
    | none => pure []
    | some value => return value :: (← repeatUpTo step bound)

/-- Repeats a step until it answers `none`. Each other step is to take at least one character, so
the length of the text bounds their number. -/
def collect (step : Reader (Option α)) : Reader (List α) := fun text =>
  repeatUpTo step (text.length + 1) text

def times (count : Nat) (item : Reader α) : Reader (List α) :=
  match count with
  | 0 => pure []
  | count + 1 => do return (← item) :: (← times count item)

def readAll (reader : Reader α) (text : String) : Option α :=
  (do let value ← reader; done; pure value : Reader α).run' text.toList

end Reader

def digitValue? (base : Nat) (c : Char) : Option Nat :=
  let value :=
    if c.isDigit then c.toNat - '0'.toNat
    else if 'a' ≤ c ∧ c ≤ 'f' then c.toNat - 'a'.toNat + 10
    else if 'A' ≤ c ∧ c ≤ 'F' then c.toNat - 'A'.toNat + 10
    else base
  if value < base then some value else none

def ofDigits (base : Nat) (digits : List Char) : Nat :=
  digits.foldl (fun value c => value * base + (digitValue? base c).getD 0) 0

end RenderVerdict
