import RenderVerdict.Bytes.Scan

/-! TIFF directories: lists of tags, each with values of one kind. -/
namespace RenderVerdict.Tiff

inductive Purpose where
  /-- The values that it stores. -/
  | values
  /-- The picture that they make up. -/
  | picture
deriving DecidableEq, Repr

inductive Kind where
  | byte
  | ascii
  | short
  | long
  | rational
  | signedByte
  | undefined
  | signedShort
  | signedLong
  | signedRational
  | single
  | double
  | directory
  | wideLong
  | signedWideLong
  | wideDirectory
deriving DecidableEq, Repr

namespace Kind

def all : List Kind :=
  [.byte, .ascii, .short, .long, .rational, .signedByte, .undefined, .signedShort, .signedLong,
    .signedRational, .single, .double, .directory, .wideLong, .signedWideLong, .wideDirectory]

def code : Kind → Nat
  | .byte => 1
  | .ascii => 2
  | .short => 3
  | .long => 4
  | .rational => 5
  | .signedByte => 6
  | .undefined => 7
  | .signedShort => 8
  | .signedLong => 9
  | .signedRational => 10
  | .single => 11
  | .double => 12
  | .directory => 13
  | .wideLong => 16
  | .signedWideLong => 17
  | .wideDirectory => 18

def ofCode? (code : Nat) : Option Kind := all.find? (·.code = code)

def parts : Kind → Nat
  | .rational | .signedRational => 2
  | _ => 1

def width : Kind → Nat
  | .byte | .ascii | .signedByte | .undefined => 1
  | .short | .signedShort => 2
  | .long | .rational | .signedLong | .signedRational | .single | .directory => 4
  | .double | .wideLong | .signedWideLong | .wideDirectory => 8

def size (kind : Kind) : Nat := kind.parts * kind.width

def isPlace : Kind → Bool
  | .directory | .wideDirectory => true
  | _ => false

/-- Whether values are natural numbers. Bytes of no meaning are taken for numbers only in
pictures. -/
def isNatural (purpose : Purpose) : Kind → Bool
  | .byte | .short | .long | .wideLong => true
  | .undefined => purpose = .picture
  | kind => kind.isPlace

end Kind

inductive Tag where
  | width
  | height
  | bits
  | compression
  | colors
  | strips
  | count
  | stripRows
  | stripSizes
  | horizontalResolution
  | verticalResolution
  | planes
  | resolutionUnit
  | prediction
  | tileWidth
  | tileHeight
  | tiles
  | tileSizes
  | extras
  | format
deriving DecidableEq, Repr

def Tag.code : Tag → Nat
  | .width => 256
  | .height => 257
  | .bits => 258
  | .compression => 259
  | .colors => 262
  | .strips => 273
  | .count => 277
  | .stripRows => 278
  | .stripSizes => 279
  | .horizontalResolution => 282
  | .verticalResolution => 283
  | .planes => 284
  | .resolutionUnit => 296
  | .prediction => 317
  | .tileWidth => 322
  | .tileHeight => 323
  | .tiles => 324
  | .tileSizes => 325
  | .extras => 338
  | .format => 339

structure Form where
  /-- Whether the lowest byte comes first. -/
  little : Bool
  /-- Whether counts and places take eight bytes, and not four. -/
  wide : Bool
deriving DecidableEq, Repr

namespace Form

def placeWidth (form : Form) : Nat := if form.wide then 8 else 4

def scan : Scan Form := fun bytes place =>
  let version (little : Bool) : Scan Form := do
    let version ← Scan.number little 2
    if version = 43 then
      Scan.require ((← Scan.number little 2) = 8)
      Scan.require ((← Scan.number little 2) = 0)
      return ⟨little, true⟩
    else
      Scan.require (version = 42)
      return ⟨little, false⟩
  match (bytes.extract place (place + 2)).toList with
  | [0x49, 0x49] => version true bytes (place + 2)
  | [0x4d, 0x4d] => version false bytes (place + 2)
  | _ => .error .broken

end Form

structure Entry where
  kind : Kind
  count : Nat
  field : List UInt8
deriving DecidableEq, Repr

namespace Entry

/-- A tag with its entry. The entry of a kind that is not known is passed over; it is as short as
in a narrow file. -/
def scan (form : Form) : Scan (Option (Nat × Entry)) := do
  let tag ← Scan.number form.little 2
  match Kind.ofCode? (← Scan.number form.little 2) with
  | none =>
    let _ ← Scan.take 8
    return none
  | some kind =>
    let count ← Scan.number form.little form.placeWidth
    return some (tag, ⟨kind, count, ← Scan.take form.placeWidth⟩)

def maxCount : Nat := Nat.pow 2 23

def maxLetters : Nat := Nat.pow 2 28

def isInside (form : Form) (entry : Entry) : Bool :=
  entry.kind.size * entry.count ≤ form.placeWidth

def content (form : Form) (entry : Entry) : Scan (List UInt8) := do
  let size := entry.kind.size * entry.count
  if entry.isInside form then return entry.field.take size
  else
    Scan.require (size < Nat.pow 2 64 &&
      entry.count ≤ (if entry.kind = .ascii then maxLetters else maxCount))
    Scan.seek (numberOf form.little entry.field)
    Scan.take size

def parts (form : Form) (entry : Entry) (content : List UInt8) : List Nat :=
  (numbersOf form.little entry.kind.width (entry.count * entry.kind.parts) content.toArray).toList

/-- Whether the values are natural numbers. Where values are read, single bytes are numbers only in
the field. -/
def isNatural (purpose : Purpose) (form : Form) (entry : Entry) : Bool :=
  entry.kind.isNatural purpose &&
    (purpose = .picture || entry.kind ≠ .byte || entry.isInside form)

/-- The codes of letters. In the field they are plain, with a zero at the end and maybe at the
front, and outside it they go up to the first zero. -/
def letters? (isInside : Bool) (content : List UInt8) : Option (List Nat) :=
  if isInside then
    if content.all (· < 128) && content.getLast? = some 0 then
      let trimmed := (content.reverse.dropWhile (· = 0)).reverse.dropWhile (· = 0)
      some (trimmed.map UInt8.toNat)
    else none
  else
    (String.fromUTF8? ⟨(content.takeWhile (· ≠ 0)).toArray⟩).map fun text =>
      text.toList.map Char.toNat

def values (purpose : Purpose) (form : Form) (entry : Entry) : Scan (List Nat) := do
  let content ← entry.content form
  if entry.count = 0 then return []
  else if entry.kind = .ascii then
    match letters? (entry.isInside form) content with
    | some codes => return codes
    | none => Scan.fail .broken
  else
    Scan.require (entry.isNatural purpose form || (entry.kind = .rational && entry.count = 1))
    return entry.parts form content

/-- The only value, which is to be a number. A short number is to be no place. -/
def value (purpose : Purpose) (form : Form) (short : Bool) (entry : Entry) : Scan Nat := do
  let content ← entry.content form
  Scan.require (entry.count = 1 && entry.isNatural purpose form &&
    !(short && entry.kind.isPlace))
  match entry.parts form content with
  | value :: _ => return value
  | [] => Scan.fail .broken

end Entry

structure Directory where
  purpose : Purpose
  form : Form
  entries : List (Nat × Entry)

namespace Directory

def scanEntries (form : Form) : Nat → List (Nat × Entry) → Scan (List (Nat × Entry))
  | 0, before => pure before
  | count + 1, before => do
    match ← Entry.scan form with
    | none => scanEntries form count before
    | some entry => scanEntries form count (entry :: before)

def scan (purpose : Purpose) : Scan Directory := do
  let form ← Form.scan
  let place ← Scan.number form.little form.placeWidth
  Scan.seek place
  let count ← Scan.number form.little (if form.wide then 8 else 2)
  let entries ← scanEntries form count []
  let next ← Scan.number form.little form.placeWidth
  Scan.require (next = 0 || next ≠ place)
  return ⟨purpose, form, entries⟩

def has (directory : Directory) (tag : Tag) : Bool :=
  (directory.entries.lookup tag.code).isSome

def numbers? (directory : Directory) (tag : Tag) (bits : Nat) : Scan (Option (List Nat)) := do
  match directory.entries.lookup tag.code with
  | none => return none
  | some entry =>
    let values ← entry.values directory.purpose directory.form
    Scan.require (values.all (· < Nat.pow 2 bits))
    return some values

def number? (directory : Directory) (tag : Tag) (bits : Nat) : Scan (Option Nat) := do
  match directory.entries.lookup tag.code with
  | none => return none
  | some entry =>
    let value ← entry.value directory.purpose directory.form (bits ≤ 16)
    Scan.require (value < Nat.pow 2 bits)
    return some value

def number (directory : Directory) (tag : Tag) (bits : Nat) : Scan Nat := do
  match ← directory.number? tag bits with
  | some value => return value
  | none => Scan.fail .broken

end Directory

end RenderVerdict.Tiff
