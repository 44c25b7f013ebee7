import RenderVerdict.Json.Basic
import RenderVerdict.Scene.Fields

/-! The tree of a scene document. An array is tagged by what it holds when the tree is built. -/
namespace RenderVerdict

inductive Scalar where
  | null
  | bool (value : Bool)
  | number (value : Double)
  | string (text : String)
deriving DecidableEq

/-- A node of a scene document. An array of numbers only, also an empty one, is `numbers`; one of
strings only is `strings`; any other is `mixed`. -/
inductive Node where
  | object (fields : List (String × Node))
  | numbers (values : List Double)
  | strings (values : List String)
  | mixed (items : List Node)
  | scalar (value : Scalar)
deriving Inhabited

namespace Scalar

def same : Scalar → Scalar → Bool
  | .number a, .number b => a.eq b
  | a, b => decide (a = b)

def toJson : Scalar → Json
  | .null => .null
  | .bool value => .bool value
  | .number value => Json.ofDouble value
  | .string text => .str text

end Scalar

namespace Node

def number? : Node → Option Double
  | .scalar (.number value) => some value
  | _ => none

def string? : Node → Option String
  | .scalar (.string text) => some text
  | _ => none

def ofElements (items : List Node) : Node :=
  match items.mapM number? with
  | some values => .numbers values
  | none =>
    match items.mapM string? with
    | some values => .strings values
    | none => .mixed items

mutual

def ofJson : Json → Node
  | .null => .scalar .null
  | .bool value => .scalar (.bool value)
  | .int value => .scalar (.number (Binary.nearest value))
  | .real value => .scalar (.number value)
  | .str text => .scalar (.string text)
  | .arr items => ofElements (ofItems items)
  | .obj fields => .object (Fields.ofList (ofFields fields))

def ofItems : List Json → List Node
  | [] => []
  | item :: rest => ofJson item :: ofItems rest

def ofFields : List (String × Json) → List (String × Node)
  | [] => []
  | (name, value) :: rest => (name, ofJson value) :: ofFields rest

end

mutual

def toJson : Node → Json
  | .object fields => .obj (toFields fields)
  | .numbers values => .arr (values.map Json.ofDouble)
  | .strings values => .arr (values.map Json.str)
  | .mixed items => .arr (toItems items)
  | .scalar value => value.toJson

def toItems : List Node → List Json
  | [] => []
  | item :: rest => toJson item :: toItems rest

def toFields : List (String × Node) → List (String × Json)
  | [] => []
  | (name, value) :: rest => (name, toJson value) :: toFields rest

end

mutual

def same : Node → Node → Bool
  | .object a, .object b => sameFields a b
  | .numbers a, .numbers b => a.isEqv b Binary.eq
  | .strings a, .strings b => decide (a = b)
  | .mixed a, .mixed b => sameItems a b
  | .scalar a, .scalar b => a.same b
  | _, _ => false

def sameItems : List Node → List Node → Bool
  | [], [] => true
  | a :: as, b :: bs => same a b && sameItems as bs
  | _, _ => false

def sameFields : List (String × Node) → List (String × Node) → Bool
  | [], [] => true
  | (n, a) :: as, (m, b) :: bs => decide (n = m) && same a b && sameFields as bs
  | _, _ => false

end

def index? (node : Node) : Option Nat := do
  let value ← (← node.number?).toInt?
  if 0 ≤ value ∧ value < Nat.pow 2 32 then some value.toNat else none

def length? : Node → Option Nat
  | .numbers values => some values.length
  | .strings values => some values.length
  | .mixed items => some items.length
  | _ => none

def element? (node : Node) (index : Nat) : Option Node :=
  match node with
  | .numbers values => values[index]?.map fun value => .scalar (.number value)
  | .strings values => values[index]?.map fun text => .scalar (.string text)
  | .mixed items => items[index]?
  | _ => none

end Node

end RenderVerdict
