import RenderVerdict.Proofs.Scene.Rendering
import RenderVerdict.Proofs.Scene.Stripped

/-! Trees keep what a JSON value says: which values are equal, whatever the order of their fields
and the way their numbers are written, and the elements of arrays, whatever their tag. -/
namespace RenderVerdict

namespace Json

def number? : Json → Option Double
  | .int value => some (Binary.nearest value)
  | .real value => some value
  | _ => none

def field? (name : String) (fields : List (String × Json)) : Option Json :=
  Fields.find? name fields.reverse

theorem mem_of_field? {name : String} {value : Json} {fields : List (String × Json)}
    (h : field? name fields = some value) : (name, value) ∈ fields :=
  List.mem_reverse.mp (Fields.mem_of_find? h)

/-- Values that say the same: numbers have equal 64-bit values, arrays equal lengths and equivalent
elements, and objects equal sets of names with equivalent values. -/
inductive Equivalent : Json → Json → Prop
  | null : Equivalent .null .null
  | bool {value} : Equivalent (.bool value) (.bool value)
  | number {u v x y} : u.number? = some x → v.number? = some y → x.eq y → Equivalent u v
  | str {text} : Equivalent (.str text) (.str text)
  | arr {items others} : items.length = others.length →
      (∀ (i : Nat) u v, items[i]? = some u → others[i]? = some v → Equivalent u v) →
      Equivalent (.arr items) (.arr others)
  | obj {fields others} :
      (∀ name, (field? name fields).isSome = (field? name others).isSome) →
      (∀ name u v, field? name fields = some u → field? name others = some v → Equivalent u v) →
      Equivalent (.obj fields) (.obj others)

end Json

namespace Node

/-- What is the same as a number is a number. -/
theorem number?_ne_none_of_same {value : Double} {node : Node}
    (h : (scalar (.number value)).same node) : node.number? ≠ none := by
  cases node with
  | scalar other => cases other with
    | number _ => exact nofun
    | _ => cases h
  | _ => cases h

theorem string?_ne_none_of_same {text : String} {node : Node}
    (h : (scalar (.string text)).same node) : node.string? ≠ none := by
  cases node with
  | scalar other => cases other with
    | string _ => exact nofun
    | _ => simp [same, Scalar.same] at h
  | _ => cases h

variable {items : List Node} {values : List Double} {texts : List String}

theorem not_forall₂_numbers (h : ∃ item ∈ items, item.number? = none) :
    ¬ List.Forall₂ (fun a b => same a b) (values.map fun value => scalar (.number value))
      items := by
  obtain ⟨item, hm, hn⟩ := h
  intro hs
  obtain ⟨number, hnumber, hsame⟩ := exists_of_mem_right hs hm
  obtain ⟨value, -, rfl⟩ := List.mem_map.mp hnumber
  exact number?_ne_none_of_same hsame hn

theorem not_forall₂_strings (h : ∃ item ∈ items, item.string? = none) :
    ¬ List.Forall₂ (fun a b => same a b) (texts.map fun text => scalar (.string text))
      items := by
  obtain ⟨item, hm, hn⟩ := h
  intro hs
  obtain ⟨string, hstring, hsame⟩ := exists_of_mem_right hs hm
  obtain ⟨text, -, rfl⟩ := List.mem_map.mp hstring
  exact string?_ne_none_of_same hsame hn

/-- Arrays are the same if their elements are, whatever their tags. -/
theorem same_ofElements_iff {as bs : List Node} :
    (ofElements as).same (ofElements bs) ↔ List.Forall₂ (fun a b => a.same b) as bs := by
  have hsymm : ∀ {xs ys : List Node}, List.Forall₂ (fun a b => same a b) xs ys →
      List.Forall₂ (fun a b => same a b) ys xs := fun h => h.flip.imp fun _ _ => same_symm
  -- Arrays of two tags are not the same, and neither are all of their elements.
  obtain ⟨xs, rfl, ha⟩ | ⟨hxs, ⟨xs, rfl, ha⟩ | ⟨hxs', ha⟩⟩ := ofElements_cases as <;>
    obtain ⟨ys, rfl, hb⟩ | ⟨hys, ⟨ys, rfl, hb⟩ | ⟨hys', hb⟩⟩ := ofElements_cases bs <;> rw [ha, hb]
  · rw [same_numbers_iff, List.forall₂_map_left_iff, List.forall₂_map_right_iff]
    rfl
  · exact iff_of_false nofun (not_forall₂_numbers hys)
  · exact iff_of_false nofun (not_forall₂_numbers hys)
  · exact iff_of_false nofun fun h => not_forall₂_numbers hxs (hsymm h)
  · simp [same, Scalar.same, List.forall₂_map_left_iff, List.forall₂_map_right_iff]
  · exact iff_of_false nofun (not_forall₂_strings hys')
  · exact iff_of_false nofun fun h => not_forall₂_numbers hxs (hsymm h)
  · exact iff_of_false nofun fun h => not_forall₂_strings hxs' (hsymm h)
  · exact sameItems_iff

theorem ofJson_arr (items : List Json) : ofJson (.arr items) = ofElements (items.map ofJson) := by
  rw [ofJson, ofItems_eq_map]

theorem ofJson_of_number? {json : Json} {value : Double} (h : json.number? = some value) :
    ofJson json = .scalar (.number value) := by
  cases json with
  | int _ => cases h; rfl
  | real _ => cases h; rfl
  | _ => cases h

/-- The fields that an object is read to. -/
theorem find?_ofJson (name : String) (fields : List (String × Json)) :
    Fields.find? name (Fields.ofList (ofFields fields)) = (Json.field? name fields).map ofJson := by
  rw [Fields.find?_ofList, ofFields_eq_map, ← List.map_reverse, Fields.find?_map]
  rfl

theorem same_ofJson_obj_iff {fields others : List (String × Json)} :
    (ofJson (.obj fields)).same (ofJson (.obj others)) ↔
      (∀ name, (Json.field? name fields).isSome = (Json.field? name others).isSome) ∧
      ∀ name u v, Json.field? name fields = some u → Json.field? name others = some v →
        (ofJson u).same (ofJson v) := by
  rw [ofJson, ofJson, same, sameFields_iff (Fields.ascending_ofList _) (Fields.ascending_ofList _)]
  simp only [find?_ofJson, Option.isSome_map, Option.map_eq_some_iff]
  refine and_congr_right fun _ => ⟨?_, ?_⟩
  · intro h name u v hu hv
    exact h name _ _ ⟨u, hu, rfl⟩ ⟨v, hv, rfl⟩
  · rintro h name _ _ ⟨u, hu, rfl⟩ ⟨v, hv, rfl⟩
    exact h name u v hu hv

theorem same_ofJson_arr_iff {items others : List Json} :
    (ofJson (.arr items)).same (ofJson (.arr others)) ↔ items.length = others.length ∧
      ∀ (i : Nat) u v, items[i]? = some u → others[i]? = some v → (ofJson u).same (ofJson v) := by
  rw [ofJson_arr, ofJson_arr, same_ofElements_iff, List.forall₂_map_left_iff,
    List.forall₂_map_right_iff, List.forall₂_iff_get]
  refine and_congr_right fun _ => ⟨?_, ?_⟩
  · intro h i u v hu hv
    obtain ⟨hi, rfl⟩ := List.getElem?_eq_some_iff.mp hu
    obtain ⟨hi', rfl⟩ := List.getElem?_eq_some_iff.mp hv
    exact h i hi hi'
  · intro h i hi hi'
    exact h i _ _ (List.getElem?_eq_getElem hi) (List.getElem?_eq_getElem hi')

/-- Equivalent values are read to the same tree. -/
theorem same_of_equivalent {u v : Json} (h : u.Equivalent v) : (ofJson u).same (ofJson v) := by
  induction h with
  | null => rfl
  | bool => simp [ofJson, same, Scalar.same]
  | number hu hv heq =>
    rw [ofJson_of_number? hu, ofJson_of_number? hv]
    exact heq
  | str => simp [ofJson, same, Scalar.same]
  | arr hlength _ ih => exact same_ofJson_arr_iff.mpr ⟨hlength, ih⟩
  | obj hnames _ ih => exact same_ofJson_obj_iff.mpr ⟨hnames, ih⟩

/-- An array is the same as arrays only. -/
theorem not_same_ofElements {items : List Node} {node : Node} (h : node.length? = none) :
    ¬ (ofElements items).same node ∧ ¬ node.same (ofElements items) := by
  obtain ⟨values, rfl, ho⟩ | ⟨-, ⟨texts, rfl, ho⟩ | ⟨-, ho⟩⟩ := ofElements_cases items <;>
    rw [ho] <;> cases node <;> simp_all [same, length?]

theorem kind_eq_of_same_ofJson {u v : Json} (h : (ofJson u).same (ofJson v)) : u.kind = v.kind := by
  cases u with
  | arr items =>
    rw [ofJson_arr] at h
    cases v with
    | arr others => rfl
    | _ => exact absurd h (not_same_ofElements rfl).1
  | _ => cases v with
    | arr others =>
      rw [ofJson_arr] at h
      exact absurd h (not_same_ofElements rfl).2
    | _ => first | rfl | cases h

/-- Trees are equal just when the values they are read from are equivalent. -/
theorem same_ofJson_iff {u v : Json} : (ofJson u).same (ofJson v) ↔ u.Equivalent v := by
  refine ⟨fun h => ?_, same_of_equivalent⟩
  have hk := kind_eq_of_same_ofJson h
  induction u using Json.nested_induction generalizing v with
  | null => cases v with
    | null => exact .null
    | _ => cases hk
  | bool value => cases v with
    | bool other =>
      cases of_decide_eq_true h
      exact .bool
    | _ => cases hk
  | int value => cases v with
    | int other => exact .number rfl rfl h
    | real other => exact .number rfl rfl h
    | _ => cases hk
  | real value => cases v with
    | int other => exact .number rfl rfl h
    | real other => exact .number rfl rfl h
    | _ => cases hk
  | str text => cases v with
    | str other =>
      cases of_decide_eq_true h
      exact .str
    | _ => cases hk
  | arr items ih => cases v with
    | arr others =>
      obtain ⟨hlength, hitems⟩ := same_ofJson_arr_iff.mp h
      refine .arr hlength fun i a b ha hb => ?_
      have hab := hitems i a b ha hb
      exact ih a (List.mem_of_getElem? ha) hab (kind_eq_of_same_ofJson hab)
    | _ => cases hk
  | obj fields ih => cases v with
    | obj others =>
      obtain ⟨hnames, hvalues⟩ := same_ofJson_obj_iff.mp h
      refine .obj hnames fun name a b ha hb => ?_
      have hab := hvalues name a b ha hb
      exact ih (name, a) (Json.mem_of_field? ha) hab (kind_eq_of_same_ofJson hab)
    | _ => cases hk

/-- A finite number is written as a number with the same value. -/
theorem equivalent_ofDouble {x : Double} {u : Json} (hx : x.isFinite) (hu : u.number? = some x) :
    (Json.ofDouble x).Equivalent u := by
  rcases Json.ofDouble_cases hx with ⟨n, h, hn, hlt⟩ | h
  · obtain ⟨hf, hz⟩ := Binary.nearest_intCast hlt
    rw [h]
    refine .number rfl hu ?_
    rw [Binary.eq_finite_iff hf hx, hz, hn]
  · rw [h]
    exact .number rfl hu (Binary.eq_self (Binary.not_isNaN_of_isFinite hx))

/-- A value with finite numbers is written back as an equivalent value. -/
theorem equivalent_toJson_ofJson {u : Json} (hu : u.allFinite) : (ofJson u).toJson.Equivalent u := by
  induction u using Json.nested_induction with
  | null => exact .null
  | bool value => exact .bool
  | int value => exact equivalent_ofDouble hu rfl
  | real value => exact equivalent_ofDouble hu rfl
  | str text => exact .str
  | arr items ih =>
    rw [ofJson_arr, toJson_ofElements, List.map_map]
    refine .arr (List.length_map _) fun i a b ha hb => ?_
    rw [List.getElem?_map, hb] at ha
    cases ha
    have hm := List.mem_of_getElem? hb
    exact ih b hm (Json.allFinite_of_mem_items hu hm)
  | obj fields ih =>
    have hfield : ∀ name, Json.field? name (toFields (Fields.ofList (ofFields fields))) =
        (Json.field? name fields).map fun value => (ofJson value).toJson := by
      intro name
      rw [Json.field?, toFields_eq_map, ← List.map_reverse, Fields.find?_map,
        Fields.find?_reverse (Fields.ascending_ofList _), find?_ofJson, Option.map_map]
      rfl
    rw [ofJson, toJson]
    refine .obj (fun name => by rw [hfield, Option.isSome_map]) fun name a b ha hb => ?_
    rw [hfield, hb] at ha
    cases ha
    have hm := Json.mem_of_field? hb
    exact ih (name, b) hm (Json.allFinite_of_mem_fields hu hm)

/-- Trees are faithful to values with finite numbers: just the equivalent ones are read to the same
tree, what is written back is equivalent to what was read and is read to the same tree again, and an
array keeps its length and its elements whatever it is tagged as. -/
theorem ofJson_faithful {u : Json} (hu : u.allFinite) :
    (∀ v, (ofJson u).same (ofJson v) ↔ u.Equivalent v) ∧
    (ofJson u).toJson.Equivalent u ∧
    (ofJson (ofJson u).toJson).same (ofJson u) ∧
    ∀ items, u = .arr items → (ofJson u).length? = some items.length ∧
      ∀ i : Nat, (ofJson u).element? i = items[i]?.map ofJson := by
  refine ⟨fun v => same_ofJson_iff, equivalent_toJson_ofJson hu,
    same_of_equivalent (equivalent_toJson_ofJson hu), ?_⟩
  rintro items rfl
  rw [ofJson_arr, length?_ofElements, List.length_map]
  refine ⟨rfl, fun i => ?_⟩
  rw [element?_ofElements, List.getElem?_map]

def plain : Json := .obj [("a", .arr [.int 0, .int 1]), ("b", .arr [])]

def exported : Json :=
  .obj [("b", .arr []),
    ("a", .arr [.real (Binary.round true 0 1), .real (Binary.round false 1 1)])]

theorem ofJson_faithful_plain : plain.allFinite ∧ plain.Equivalent exported ∧
    (ofJson plain).toJson.Equivalent plain := by
  have hfinite : plain.allFinite := by decide +kernel
  have hsame : (ofJson plain).same (ofJson exported) := by decide +kernel
  obtain ⟨hequivalent, hwritten, -⟩ := ofJson_faithful hfinite
  exact ⟨hfinite, (hequivalent exported).mp hsame, hwritten⟩

end Node

end RenderVerdict
