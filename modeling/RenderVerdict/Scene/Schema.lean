import RenderVerdict.Scene.Fields

/-! Which fields of a scene document carry meaning and how they link its collections. -/
namespace RenderVerdict

structure Schema where
  /-- The collection that the whole number under a field of this name points into. -/
  references : List (String × String)
  /-- Names of the fields that are dropped wherever they stand. -/
  identity : List String
  /-- The section of raw data that takes no part in a comparison. -/
  payload : String
  /-- The sections that are compared as they are. -/
  scalarSections : List String
  /-- Decimal places kept in arrays of numbers. -/
  places : Nat
deriving DecidableEq, Repr

namespace Schema

def standard : Schema where
  references := Fields.ofList [("bufferView", "bufferViews"), ("camera", "cameras"),
    ("index", "textures"), ("indices", "accessors"), ("material", "materials"),
    ("mesh", "meshes"), ("sampler", "samplers"), ("source", "images"),
    ("POSITION", "accessors"), ("TEXCOORD_0", "accessors")]
  identity := ["buffer", "name"]
  payload := "buffers"
  scalarSections := ["scene", "scenes", "asset"]
  places := 12

instance : Inhabited Schema := ⟨standard⟩

def collection? (schema : Schema) (field : String) : Option String :=
  Fields.find? field schema.references

end Schema

end RenderVerdict
