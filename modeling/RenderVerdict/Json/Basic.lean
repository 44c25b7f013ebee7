import RenderVerdict.Number.Binary

/-! JSON values. -/
namespace RenderVerdict

/-- A JSON value. Integers are kept apart from other numbers, and an object keeps its fields in
the order in which they are written. -/
inductive Json where
  | null
  | bool (value : Bool)
  | int (value : Int)
  | real (value : Double)
  | str (text : String)
  | arr (items : List Json)
  | obj (fields : List (String × Json))
deriving Inhabited

/-- Induction on the elements of arrays and the values of fields. -/
theorem Json.nested_induction {motive : Json → Prop} (null : motive .null)
    (bool : ∀ value, motive (.bool value)) (int : ∀ value, motive (.int value))
    (real : ∀ value, motive (.real value)) (str : ∀ text, motive (.str text))
    (arr : ∀ items, (∀ item ∈ items, motive item) → motive (.arr items))
    (obj : ∀ fields, (∀ field ∈ fields, motive field.2) → motive (.obj fields)) (json : Json) :
    motive json := by
  match json with
  | .null => exact null
  | .bool value => exact bool value
  | .int value => exact int value
  | .real value => exact real value
  | .str text => exact str text
  | .arr items =>
    exact arr items fun item hm => nested_induction null bool int real str arr obj item
  | .obj fields =>
    exact obj fields fun field hm => nested_induction null bool int real str arr obj field.2
termination_by sizeOf json
decreasing_by
  · have := List.sizeOf_lt_of_mem hm
    simp only [Json.arr.sizeOf_spec]
    omega
  · have := List.sizeOf_lt_of_mem hm
    have : sizeOf field.2 < sizeOf field := by
      cases field
      simp only [Prod.mk.sizeOf_spec]
      omega
    simp only [Json.obj.sizeOf_spec]
    omega

/-- The JSON form of a number: an integer if it is whole and below `2 ^ 53` in magnitude, and
`null` if it is not finite. -/
def Json.ofDouble (x : Double) : Json :=
  match x.toInt? with
  | some n => if n.natAbs < Nat.pow 2 53 then .int n else .real x
  | none => if x.isFinite then .real x else .null

end RenderVerdict
