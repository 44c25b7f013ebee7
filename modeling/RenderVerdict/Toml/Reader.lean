import RenderVerdict.Toml.Scalar

/-! Reading TOML documents. -/
namespace RenderVerdict.Toml

open Reader

def maxDepth : Nat := 79

def isKeyCharacter (c : Char) : Bool := c.isAlphanum || c == '-' || c == '_'

def keyPart : Reader String := do
  blanks
  let part ← match ← peek with
    | some '"' => do let _ ← next; lineString '"' true
    | some '\'' => do let _ ← next; lineString '\'' false
    | _ => String.ofList <$> takeWhile1 isKeyCharacter
  blanks
  pure part

def key : Reader (List String × String) := do
  let first ← keyPart
  let more ← collect do
    if ← accept ['.'] then some <$> keyPart else pure none
  let parts := first :: more
  if parts.length ≤ maxDepth then pure (parts.dropLast, parts.getLastD first) else failure

def assignment (value : Reader Value) : Reader ((List String × String) × Value) := do
  let key ← key
  char '='
  blanks
  return (key, ← value)

def arrayRest (value : Reader Value) : Reader (List Value) :=
  collect do
    blankLines
    if ← accept [']'] then pure none
    else
      let item ← value
      blankLines
      let more ← accept [',']
      if more || (← peek) == some ']' then pure (some item) else failure

def inlineRest (value : Reader Value) : Reader (List ((List String × String) × Value)) := do
  blanks
  if ← accept ['\x7d'] then return []
  let first ← assignment value
  let rest ← collect do
    blanks
    if ← accept ['\x7d'] then pure none
    else
      char ','
      some <$> assignment value
  return first :: rest

def assignAll (assignments : List ((List String × String) × Value)) : Option Table :=
  assignments.foldlM (fun table entry => table.assign entry.1.1 entry.1.2 entry.2) Table.empty

def value (depth : Nat) : Reader Value := do
  match ← peek with
  | some '"' | some '\'' => .string <$> string
  | some 't' => do literal ['t', 'r', 'u', 'e']; pure (.boolean true)
  | some 'f' => do literal ['f', 'a', 'l', 's', 'e']; pure (.boolean false)
  | some '[' =>
    match depth with
    | 0 => failure
    | depth + 1 => do let _ ← next; .array <$> arrayRest (value depth)
  | some '\x7b' =>
    match depth with
    | 0 => failure
    | depth + 1 => do
      let _ ← next
      match assignAll (← inlineRest (value depth)) with
      | some table => pure (.table table.fields)
      | none => failure
  | _ => numberOrDatetime

inductive Line where
  | blank
  | assignment (path : List String) (key : String) (value : Value)
  | header (path : List String) (key : String)
  | elementHeader (path : List String) (key : String)

def line : Reader (Option Line) := do
  blanks
  match ← peek with
  | none => pure none
  | some '#' | some '\n' | some '\r' => do lineEnd; pure (some .blank)
  | some '[' => do
    let _ ← next
    let element ← accept ['[']
    let (path, key) ← key
    char ']'
    if element then char ']'
    lineEnd
    pure (some (if element then .elementHeader path key else .header path key))
  | _ => do
    let ((path, key), value) ← assignment (value maxDepth)
    lineEnd
    pure (some (.assignment path key value))

/-- The document read so far: all of it, and the path of the table that assignments go to. -/
structure Draft where
  root : Table
  current : List String

def Draft.extend (draft : Draft) : Line → Option Draft
  | .blank => some draft
  | .assignment path key value => do
    let root ← draft.root.modify false (Table.assign path key value) draft.current
    return { draft with root }
  | .header path key => do
    return ⟨← draft.root.modify false (Table.openTable key) path, path ++ [key]⟩
  | .elementHeader path key => do
    return ⟨← draft.root.modify false (Table.openElement key) path, path ++ [key]⟩

def read? (text : String) : Option (List (String × Value)) := do
  let lines ← readAll (do let _ ← accept ['\ufeff']; collect line) text
  let draft ← lines.foldlM Draft.extend ⟨Table.empty, []⟩
  return draft.root.fields

end RenderVerdict.Toml
