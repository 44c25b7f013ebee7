import RenderVerdict.Image.Comparison
import RenderVerdict.Scene.Schema
import RenderVerdict.Toml.Reader

/-! Settings: the schema of documents and the tolerances of pictures, read from TOML. What a text
does not set keeps its standard value. -/
namespace RenderVerdict

structure Settings where
  schema : Schema
  tolerances : Tolerances
deriving Inhabited

namespace Toml.Value

/-- The key under which a date stands where a table is expected. -/
def dateKey : String := "$__toml_private_datetime"

def fields? : Value → Option (List (String × Value))
  | .table fields => some fields
  | .datetime text => some [(dateKey, .string text)]
  | _ => none

/-- A field of a record, which is a table with names or an array in the order of the fields.
Without such a field the default holds, and what is no record is refused. -/
def fieldOr {α : Type} (record : Value) (position : Nat) (name : String)
    (decode : Value → Option α) (default : Option α) : Option α :=
  match record with
  | .array items =>
    match items[position]? with
    | some value => decode value
    | none => default
  | record => do
    match (← record.fields?).lookup name with
    | some value => decode value
    | none => default

def toText : Value → Option String
  | .string text => some text
  | _ => none

def toTexts : Value → Option (List String)
  | .array items => items.mapM toText
  | _ => none

def toTextTable (value : Value) : Option (List (String × String)) := do
  let entries ← (← value.fields?).mapM fun (name, value) => do return (name, ← value.toText)
  return Fields.ofList entries

def toIntBetween (least bound : Int) : Value → Option Int
  | .integer value => if least ≤ value ∧ value < bound then some value else none
  | _ => none

def toDouble : Value → Option Double
  | .float value => some value
  | .integer value => some (Binary.nearest value)
  | _ => none

end Toml.Value

namespace Settings

open Toml (Value)

def standard : Settings := ⟨Schema.standard, Tolerances.standard⟩

def schemaOf (value : Value) : Option Schema := do
  let standard := Schema.standard
  return {
    references := ←
      value.fieldOr 0 "reference_fields" Value.toTextTable (some standard.references)
    identity := ← value.fieldOr 1 "identity_fields"
      (fun names => Fields.names <$> names.toTexts) (some standard.identity)
    payload := ← value.fieldOr 2 "payload_collection" Value.toText (some standard.payload)
    scalarSections := ←
      value.fieldOr 3 "scalar_sections" Value.toTexts (some standard.scalarSections)
    places := ← value.fieldOr 4 "precision"
      (fun places => Int.toNat <$> places.toIntBetween 0 (Nat.pow 2 32)) (some standard.places) }

def labelOf (value : Value) : Option Int32 :=
  Int32.ofInt <$> value.toIntBetween (-Nat.pow 2 31) (Nat.pow 2 31)

def remapOf (value : Value) : Option LabelRemap := do
  return {
    source := ← value.fieldOr 0 "from" labelOf none
    target := ← value.fieldOr 1 "to" labelOf none }

def tolerancesOf (value : Value) : Option Tolerances := do
  let standard := Tolerances.standard
  return {
    color := ← value.fieldOr 0 "color" Value.toDouble (some standard.color)
    depth := ← value.fieldOr 1 "depth" Value.toDouble (some standard.depth)
    label := ← value.fieldOr 2 "label" Value.toDouble (some standard.label)
    invalidFraction := ←
      value.fieldOr 3 "invalid_fraction" Value.toDouble (some standard.invalidFraction)
    remap := ← value.fieldOr 4 "label_remap" (fun remap => some <$> remapOf remap)
      (some standard.remap) }

def ofFields (fields : List (String × Value)) : Option Settings := do
  let value := Value.table fields
  return {
    schema := ← value.fieldOr 0 "schema" schemaOf (some Schema.standard)
    tolerances := ← value.fieldOr 1 "image" tolerancesOf (some Tolerances.standard) }

end Settings

def Schema.maxPlaces : Nat := 15

def Schema.validate (schema : Schema) : Except SettingsFault Unit :=
  if Schema.maxPlaces < schema.places then .error (.tooManyPlaces schema.places)
  else
    match schema.references.find? fun entry => entry.1 ∈ schema.identity with
    | some entry => .error (.referenceAndIdentity entry.1)
    | none => .ok ()

def requireNonNegative (name : String) (value : Double) : Except SettingsFault Unit :=
  if value.isNaN || value.lt Binary.zero then .error (.negativeTolerance name value) else .ok ()

def requireFraction (value : Double) : Except SettingsFault Unit :=
  if Binary.zero.lt value && !(Binary.nearest 1).lt value then .ok ()
  else .error (.fractionOutOfRange value)

def Tolerances.validate (tolerances : Tolerances) : Except SettingsFault Unit := do
  requireNonNegative "color" tolerances.color
  requireNonNegative "depth" tolerances.depth
  requireNonNegative "label" tolerances.label
  requireFraction tolerances.invalidFraction

namespace Settings

def validate (settings : Settings) : Except SettingsFault Unit := do
  settings.schema.validate
  settings.tolerances.validate

def read (text : String) : Except Fault Settings :=
  match Toml.read? text >>= ofFields with
  | none => .error (.settings .unreadable)
  | some settings =>
    match settings.validate with
    | .ok () => .ok settings
    | .error cause => .error (.settings cause)

end Settings

end RenderVerdict
