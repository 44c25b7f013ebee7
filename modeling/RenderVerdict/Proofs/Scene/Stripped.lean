import RenderVerdict.Proofs.Scene.Resolution
import RenderVerdict.Proofs.Scene.Parsed

/-! Trees without the identity fields of their objects. Stripping a tree changes neither the tags of
its arrays nor which nodes are indices, and may as well be done before it is read. -/
namespace RenderVerdict

namespace Node

mutual

def stripped (identity : List String) : Node → Node
  | .object fields => .object (strippedFields identity fields)
  | .mixed items => .mixed (strippedItems identity items)
  | node => node

def strippedItems (identity : List String) : List Node → List Node
  | [] => []
  | item :: rest => stripped identity item :: strippedItems identity rest

def strippedFields (identity : List String) : List (String × Node) → List (String × Node)
  | [] => []
  | (name, value) :: rest =>
    if name ∈ identity then strippedFields identity rest
    else (name, stripped identity value) :: strippedFields identity rest

end

variable {identity : List String} {node other : Node}

theorem strippedItems_eq_map (items : List Node) :
    strippedItems identity items = items.map (stripped identity) := by
  induction items with
  | nil => rfl
  | cons item rest ih => rw [strippedItems, ih, List.map_cons]

theorem strippedFields_of_mem {name : String} {value : Node} {rest : List (String × Node)}
    (hn : name ∈ identity) :
    strippedFields identity ((name, value) :: rest) = strippedFields identity rest := by
  rw [strippedFields, if_pos hn]

theorem strippedFields_of_not_mem {name : String} {value : Node} {rest : List (String × Node)}
    (hn : name ∉ identity) : strippedFields identity ((name, value) :: rest) =
      (name, value.stripped identity) :: strippedFields identity rest := by
  rw [strippedFields, if_neg hn]

/-- Only a leaf is stripped to a leaf. -/
theorem stripped_eq_scalar_iff {value : Scalar} :
    node.stripped identity = .scalar value ↔ node = .scalar value := by
  cases node <;> simp [stripped]

theorem stripped_eq_numbers_iff {values : List Double} :
    node.stripped identity = .numbers values ↔ node = .numbers values := by
  cases node <;> simp [stripped]

theorem stripped_eq_strings_iff {values : List String} :
    node.stripped identity = .strings values ↔ node = .strings values := by
  cases node <;> simp [stripped]

theorem exists_of_stripped_eq_object {fields : List (String × Node)}
    (h : node.stripped identity = .object fields) :
    ∃ kept, node = .object kept ∧ strippedFields identity kept = fields := by
  cases node <;> simp_all [stripped]

theorem exists_of_stripped_eq_mixed {items : List Node}
    (h : node.stripped identity = .mixed items) :
    ∃ kept, node = .mixed kept ∧ kept.map (stripped identity) = items := by
  cases node <;> simp_all [stripped, strippedItems_eq_map]

/-- Nodes that are the same when stripped are the same index, if any. -/
theorem IsIndex.of_stripped {index : Nat} (h : node.IsIndex index)
    (hs : node.stripped identity = other.stripped identity) : other.IsIndex index := by
  obtain ⟨value, rfl, hv⟩ := h
  exact ⟨value, stripped_eq_scalar_iff.mp hs.symm, hv⟩

/-- The elements of a stripped array are the array's elements, stripped. -/
theorem element?_stripped (node : Node) (index : Nat) :
    (node.stripped identity).element? index = (node.element? index).map (stripped identity) := by
  cases node with
  | object fields => rfl
  | numbers values => cases h : values[index]? <;> simp [stripped, element?, h]
  | strings values => cases h : values[index]? <;> simp [stripped, element?, h]
  | mixed items => simp [stripped, element?, strippedItems_eq_map]
  | scalar value => rfl

/-- What is left when fields are stripped starts with a field that is no identity field; the fields
before it all are. -/
theorem exists_of_strippedFields_eq_cons {fields rest : List (String × Node)} {name : String}
    {value : Node} (h : strippedFields identity fields = (name, value) :: rest) :
    ∃ before kept after, fields = before ++ (name, kept) :: after ∧
      (∀ field ∈ before, field.1 ∈ identity) ∧ kept.stripped identity = value ∧
      strippedFields identity after = rest := by
  induction fields with
  | nil => cases h
  | cons first fields ih =>
    obtain ⟨key, held⟩ := first
    by_cases hk : key ∈ identity
    · rw [strippedFields_of_mem hk] at h
      obtain ⟨before, kept, after, rfl, hbefore, hkept, hafter⟩ := ih h
      exact ⟨(key, held) :: before, kept, after, rfl,
        List.forall_mem_cons.mpr ⟨hk, hbefore⟩, hkept, hafter⟩
    · rw [strippedFields_of_not_mem hk] at h
      cases h
      exact ⟨[], held, fields, rfl, nofun, rfl, rfl⟩

mutual

theorem stripped_stripped (identity : List String) (node : Node) :
    (node.stripped identity).stripped identity = node.stripped identity := by
  match node with
  | .object fields => exact congrArg object (strippedFields_strippedFields identity fields)
  | .numbers _ => rfl
  | .strings _ => rfl
  | .mixed items => exact congrArg mixed (strippedItems_strippedItems identity items)
  | .scalar _ => rfl

theorem strippedItems_strippedItems (identity : List String) (items : List Node) :
    strippedItems identity (strippedItems identity items) = strippedItems identity items := by
  match items with
  | [] => rfl
  | item :: rest =>
    exact congrArg₂ List.cons (stripped_stripped identity item)
      (strippedItems_strippedItems identity rest)

theorem strippedFields_strippedFields (identity : List String) (fields : List (String × Node)) :
    strippedFields identity (strippedFields identity fields) = strippedFields identity fields := by
  match fields with
  | [] => rfl
  | (name, value) :: rest =>
    have ih := strippedFields_strippedFields identity rest
    by_cases hn : name ∈ identity
    · rw [strippedFields_of_mem hn, ih]
    · rw [strippedFields_of_not_mem hn, strippedFields_of_not_mem hn, ih,
        stripped_stripped identity value]

end

theorem mem_of_strippedFields_eq_nil {fields : List (String × Node)}
    (h : strippedFields identity fields = []) : ∀ field ∈ fields, field.1 ∈ identity := by
  induction fields with
  | nil => exact nofun
  | cons first rest ih =>
    obtain ⟨key, held⟩ := first
    by_cases hk : key ∈ identity
    · rw [strippedFields_of_mem hk] at h
      exact List.forall_mem_cons.mpr ⟨hk, ih h⟩
    · rw [strippedFields_of_not_mem hk] at h
      cases h

theorem strippedFields_eq_map (fields : List (String × Node)) : strippedFields identity fields =
    (fields.filter fun field => decide (field.1 ∉ identity)).map fun field =>
      (field.1, field.2.stripped identity) := by
  induction fields with
  | nil => rfl
  | cons first rest ih =>
    obtain ⟨name, value⟩ := first
    by_cases hn : name ∈ identity
    · rw [strippedFields_of_mem hn, ih]
      simp [hn]
    · rw [strippedFields_of_not_mem hn, ih]
      simp [hn]

theorem number?_stripped (node : Node) : (node.stripped identity).number? = node.number? := by
  cases node <;> rfl

theorem string?_stripped (node : Node) : (node.stripped identity).string? = node.string? := by
  cases node <;> rfl

/-- Stripping the elements of an array leaves it its tag. -/
theorem stripped_ofElements (items : List Node) :
    (ofElements items).stripped identity = ofElements (items.map (stripped identity)) := by
  have hnumbers : (items.map (stripped identity)).mapM number? = items.mapM number? := by
    rw [List.mapM_map]
    exact congrArg items.mapM (funext number?_stripped)
  have hstrings : (items.map (stripped identity)).mapM string? = items.mapM string? := by
    rw [List.mapM_map]
    exact congrArg items.mapM (funext string?_stripped)
  unfold ofElements
  rw [hnumbers, hstrings]
  cases items.mapM number? with
  | some values => rfl
  | none => cases items.mapM string? with
    | some values => rfl
    | none => exact congrArg mixed (strippedItems_eq_map items)

end Node

namespace Json

mutual

def stripped (identity : List String) : Json → Json
  | .arr items => .arr (strippedItems identity items)
  | .obj fields => .obj (strippedFields identity fields)
  | json => json

def strippedItems (identity : List String) : List Json → List Json
  | [] => []
  | item :: rest => stripped identity item :: strippedItems identity rest

def strippedFields (identity : List String) : List (String × Json) → List (String × Json)
  | [] => []
  | (name, value) :: rest =>
    if name ∈ identity then strippedFields identity rest
    else (name, stripped identity value) :: strippedFields identity rest

end

end Json

namespace Node

variable {identity : List String}

mutual

/-- Stripping a tree after it is read is reading what was stripped before. -/
theorem stripped_ofJson (identity : List String) (json : Json) :
    (ofJson json).stripped identity = ofJson (json.stripped identity) := by
  match json with
  | .null => rfl
  | .bool _ => rfl
  | .int _ => rfl
  | .real _ => rfl
  | .str _ => rfl
  | .arr items =>
    rw [Json.stripped, ofJson, ofJson, stripped_ofElements, map_stripped_ofItems identity items]
  | .obj fields =>
    have hkept := Fields.filter_ofList (p := fun name => decide (name ∉ identity)) (ofFields fields)
    rw [Json.stripped, ofJson, ofJson, stripped, strippedFields_eq_map, hkept, ← Fields.ofList_map,
      ← strippedFields_eq_map, strippedFields_ofFields identity fields]

theorem map_stripped_ofItems (identity : List String) (items : List Json) :
    (ofItems items).map (stripped identity) = ofItems (Json.strippedItems identity items) := by
  match items with
  | [] => rfl
  | item :: rest =>
    rw [Json.strippedItems, ofItems, ofItems, List.map_cons, stripped_ofJson identity item,
      map_stripped_ofItems identity rest]

theorem strippedFields_ofFields (identity : List String) (fields : List (String × Json)) :
    strippedFields identity (ofFields fields) = ofFields (Json.strippedFields identity fields) := by
  match fields with
  | [] => rfl
  | (name, value) :: rest =>
    have ih := strippedFields_ofFields identity rest
    by_cases hn : name ∈ identity
    · rw [Json.strippedFields, if_pos hn, ofFields, strippedFields_of_mem hn, ih]
    · rw [Json.strippedFields, if_neg hn, ofFields, ofFields, strippedFields_of_not_mem hn, ih,
        stripped_ofJson identity value]

end

end Node

end RenderVerdict
