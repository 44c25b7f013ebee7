import RenderVerdict.Proofs.Outcome
import RenderVerdict.Scene.Document

/-! Trees whose nodes all have a property, and the property of trees read from JSON: numbers are
finite, and an array has the first tag that its elements allow. -/
namespace RenderVerdict

namespace Node

def children : Node → List Node
  | .object fields => fields.map (·.2)
  | .mixed items => items
  | _ => []

inductive Everywhere (p : Node → Prop) : Node → Prop
  | intro {node} : p node → (∀ child ∈ node.children, Everywhere p child) → Everywhere p node

/-- Numbers are finite, and an array is tagged as numbers if all its elements are, else as strings
if all its elements are. -/
def Canonical : Node → Prop
  | .object _ => True
  | .numbers values => ∀ value ∈ values, value.isFinite
  | .strings values => values ≠ []
  | .mixed items => (∃ item ∈ items, item.number? = none) ∧ ∃ item ∈ items, item.string? = none
  | .scalar (.number value) => value.isFinite
  | .scalar _ => True

variable {p q : Node → Prop} {node : Node}

theorem Everywhere.of_leaf (h : p node) (hc : node.children = []) : node.Everywhere p :=
  .intro h fun _ hm => absurd (hc ▸ hm) List.not_mem_nil

theorem Everywhere.here (h : node.Everywhere p) : p node := by
  cases h with | intro hp _ => exact hp

theorem Everywhere.child (h : node.Everywhere p) {child : Node} (hm : child ∈ node.children) :
    child.Everywhere p := by
  cases h with | intro _ hc => exact hc child hm

theorem Everywhere.field {fields : List (String × Node)} (h : (object fields).Everywhere p)
    {field : String × Node} (hm : field ∈ fields) : field.2.Everywhere p :=
  h.child (List.mem_map_of_mem hm)

theorem Everywhere.item {items : List Node} (h : (mixed items).Everywhere p) {item : Node}
    (hm : item ∈ items) : item.Everywhere p :=
  h.child hm

theorem Everywhere.mono (h : node.Everywhere p) (hpq : ∀ other, p other → q other) :
    node.Everywhere q := by
  induction h with
  | intro hp _ ih => exact .intro (hpq _ hp) ih

theorem number?_eq_some_iff {value : Double} :
    node.number? = some value ↔ node = .scalar (.number value) := by
  constructor
  · intro h
    unfold number? at h
    split at h
    · cases h; rfl
    · cases h
  · rintro rfl
    rfl

theorem string?_eq_some_iff {text : String} :
    node.string? = some text ↔ node = .scalar (.string text) := by
  constructor
  · intro h
    unfold string? at h
    split at h
    · cases h; rfl
    · cases h
  · rintro rfl
    rfl

/-- An element of a canonical array is canonical. -/
theorem Everywhere.element? (h : node.Everywhere Canonical) {index : Nat} {item : Node}
    (hi : node.element? index = some item) : item.Everywhere Canonical := by
  cases node with
  | numbers values =>
    obtain ⟨value, hv, rfl⟩ := Option.map_eq_some_iff.mp hi
    exact .of_leaf (h.here value (List.mem_of_getElem? hv)) rfl
  | strings values =>
    obtain ⟨text, _, rfl⟩ := Option.map_eq_some_iff.mp hi
    exact .of_leaf trivial rfl
  | mixed items => exact h.item (List.mem_of_getElem? hi)
  | object fields => cases hi
  | scalar value => cases hi

/-- An array is tagged as one of numbers if it holds numbers only, else as one of strings if it
holds strings only, else as mixed. -/
theorem ofElements_cases (items : List Node) :
    (∃ values : List Double, items = values.map (fun value => .scalar (.number value)) ∧
      ofElements items = .numbers values) ∨
    (∃ item ∈ items, item.number? = none) ∧
      ((∃ texts : List String, items = texts.map (fun text => .scalar (.string text)) ∧
        ofElements items = .strings texts) ∨
      (∃ item ∈ items, item.string? = none) ∧ ofElements items = .mixed items) := by
  unfold ofElements
  cases hn : items.mapM number? with
  | some values =>
    exact .inl ⟨values, eq_map_of_mapM (fun _ _ => number?_eq_some_iff.mp) hn, rfl⟩
  | none =>
    refine .inr ⟨exists_of_mapM_eq_none hn, ?_⟩
    cases hs : items.mapM string? with
    | some texts =>
      exact .inl ⟨texts, eq_map_of_mapM (fun _ _ => string?_eq_some_iff.mp) hs, rfl⟩
    | none => exact .inr ⟨exists_of_mapM_eq_none hs, rfl⟩

theorem length?_ofElements (items : List Node) : (ofElements items).length? = some items.length := by
  obtain ⟨values, rfl, h⟩ | ⟨-, ⟨texts, rfl, h⟩ | ⟨-, h⟩⟩ := ofElements_cases items
  · simp [h, length?]
  · simp [h, length?]
  · rw [h, length?]

theorem element?_ofElements (items : List Node) (index : Nat) :
    (ofElements items).element? index = items[index]? := by
  obtain ⟨values, rfl, h⟩ | ⟨-, ⟨texts, rfl, h⟩ | ⟨-, h⟩⟩ := ofElements_cases items
  · rw [h, element?, List.getElem?_map]
  · rw [h, element?, List.getElem?_map]
  · rw [h, element?]

/-- Elements make a canonical array. -/
theorem everywhere_ofElements {items : List Node}
    (h : ∀ item ∈ items, item.Everywhere Canonical) : (ofElements items).Everywhere Canonical := by
  obtain ⟨values, rfl, ho⟩ | ⟨hn, ⟨texts, rfl, ho⟩ | ⟨hs, ho⟩⟩ := ofElements_cases items <;> rw [ho]
  · exact .of_leaf (fun value hm => (h _ (List.mem_map_of_mem hm)).here) rfl
  · refine .of_leaf ?_ rfl
    rintro rfl
    obtain ⟨item, hm, -⟩ := hn
    cases hm
  · exact .intro ⟨hn, hs⟩ h

end Node

theorem Node.isSome_length?_of_element? {node item : Node} {index : Nat}
    (h : node.element? index = some item) : ∃ length, node.length? = some length := by
  cases node with
  | numbers values => exact ⟨_, rfl⟩
  | strings values => exact ⟨_, rfl⟩
  | mixed items => exact ⟨_, rfl⟩
  | object fields => cases h
  | scalar value => cases h

theorem Document.lookup_eq_ok_iff {document : Document} {entry : Entry} {target : Node} :
    document.lookup entry = .ok target ↔
      ∃ items, document.find? entry.collection = some items ∧
        items.element? entry.index = some target := by
  unfold lookup
  constructor
  · intro h
    split at h
    · cases h
    · next items hi =>
      split at h
      · cases h
      · split at h
        · cases h
        · next node hn =>
          cases h
          exact ⟨items, hi, hn⟩
  · rintro ⟨items, hi, ht⟩
    obtain ⟨length, hl⟩ := Node.isSome_length?_of_element? ht
    simp only [hi, hl, ht]

end RenderVerdict
