import RenderVerdict.Proofs.Scene.Fields
import RenderVerdict.Proofs.Scene.Trees

/-! Documents made from JSON values with finite numbers: their trees are canonical everywhere. -/
namespace RenderVerdict

mutual

def Json.allFinite : Json → Bool
  | .int value => (Binary.nearest value : Double).isFinite
  | .real value => value.isFinite
  | .arr items => Json.allFiniteItems items
  | .obj fields => Json.allFiniteFields fields
  | _ => true

def Json.allFiniteItems : List Json → Bool
  | [] => true
  | item :: rest => item.allFinite && Json.allFiniteItems rest

def Json.allFiniteFields : List (String × Json) → Bool
  | [] => true
  | (_, value) :: rest => value.allFinite && Json.allFiniteFields rest

end

namespace Json

theorem allFinite_of_mem_items {items : List Json} {item : Json} (h : allFiniteItems items)
    (hm : item ∈ items) : item.allFinite := by
  induction items with
  | nil => cases hm
  | cons first rest ih =>
    obtain ⟨hfirst, hrest⟩ := (Bool.and_eq_true _ _).mp h
    rcases List.mem_cons.mp hm with rfl | hm
    · exact hfirst
    · exact ih hrest hm

theorem allFinite_of_mem_fields {fields : List (String × Json)} {field : String × Json}
    (h : allFiniteFields fields) (hm : field ∈ fields) : field.2.allFinite := by
  induction fields with
  | nil => cases hm
  | cons first rest ih =>
    obtain ⟨hfirst, hrest⟩ := (Bool.and_eq_true _ _).mp h
    rcases List.mem_cons.mp hm with rfl | hm
    · exact hfirst
    · exact ih hrest hm

end Json

namespace Node

theorem ofItems_eq_map (items : List Json) : ofItems items = items.map ofJson := by
  induction items with
  | nil => rfl
  | cons item rest ih => rw [ofItems, ih, List.map_cons]

theorem ofFields_eq_map (fields : List (String × Json)) :
    ofFields fields = fields.map fun field => (field.1, ofJson field.2) := by
  induction fields with
  | nil => rfl
  | cons first rest ih => rw [ofFields, ih, List.map_cons]

/-- The tree of a JSON value with finite numbers is canonical everywhere. -/
theorem everywhere_ofJson {json : Json} (h : json.allFinite) :
    (ofJson json).Everywhere Canonical := by
  induction json using Json.nested_induction with
  | null => exact .of_leaf trivial rfl
  | bool _ => exact .of_leaf trivial rfl
  | int _ => exact .of_leaf h rfl
  | real _ => exact .of_leaf h rfl
  | str _ => exact .of_leaf trivial rfl
  | arr items ih =>
    rw [ofJson, ofItems_eq_map]
    refine everywhere_ofElements fun child hm => ?_
    obtain ⟨item, hi, rfl⟩ := List.mem_map.mp hm
    exact ih item hi (Json.allFinite_of_mem_items h hi)
  | obj fields ih =>
    rw [ofJson, ofFields_eq_map]
    refine .intro trivial fun child hm => ?_
    obtain ⟨field, hf, rfl⟩ := List.mem_map.mp hm
    obtain ⟨entry, he, rfl⟩ := List.mem_map.mp (Fields.mem_ofList hf)
    exact ih entry he (Json.allFinite_of_mem_fields h he)

end Node

namespace Document

/-- A document as all documents come about: made from a JSON value, whose numbers are finite. -/
def Parsed (document : Document) : Prop :=
  ∃ json : Json, json.allFinite ∧ ofJson json = .ok document

def Canonical (document : Document) : Prop :=
  ∀ name node, document.find? name = some node → node.Everywhere Node.Canonical

theorem Parsed.canonical {document : Document} (h : document.Parsed) : document.Canonical := by
  obtain ⟨json, hj, hd⟩ := h
  have hc := Node.everywhere_ofJson hj
  unfold ofJson at hd
  split at hd
  · next sections hs =>
    cases hd
    rw [hs] at hc
    intro name node hf
    exact hc.field (Fields.mem_of_find? hf)
  · cases hd

end Document

end RenderVerdict
