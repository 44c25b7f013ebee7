import RenderVerdict.Fault
import RenderVerdict.Json.Reader
import RenderVerdict.Scene.Node

/-! Scene documents: named sections, some of which are collections that others refer into. -/
namespace RenderVerdict

structure Entry where
  collection : String
  index : Nat
deriving DecidableEq, Repr

structure Document where
  sections : List (String × Node)
deriving Inhabited

namespace Document

def ofJson (json : Json) : Except Fault Document :=
  match Node.ofJson json with
  | .object sections => .ok ⟨sections⟩
  | _ => .error (.malformed .rootNotObject)

def read (path text : String) : Except Fault Document :=
  match Json.read? text with
  | some json => ofJson json
  | none => .error (.notJson path)

def find? (document : Document) (name : String) : Option Node :=
  Fields.find? name document.sections

def lookup (document : Document) (entry : Entry) : Except Malformed Node :=
  match document.find? entry.collection with
  | none => .error (.missingCollection entry.collection)
  | some items =>
    match items.length? with
    | none => .error (.notAnArray entry.collection)
    | some length =>
      match items.element? entry.index with
      | none => .error (.indexOutOfRange entry.index entry.collection length)
      | some node => .ok node

def entries (document : Document) : List Entry :=
  document.sections.flatMap fun (name, node) =>
    (List.range (node.length?.getD 0)).map fun index => ⟨name, index⟩

def toJson (document : Document) : Json := (Node.object document.sections).toJson

end Document

namespace Node

theorem lt_length_of_element? {node item : Node} {index : Nat}
    (h : node.element? index = some item) : index < node.length?.getD 0 := by
  cases node <;> simp only [element?, length?, Option.map_eq_some_iff, Option.getD_some,
    reduceCtorEq] at h ⊢
  · obtain ⟨value, found, -⟩ := h
    exact (List.getElem?_eq_some_iff.mp found).1
  · obtain ⟨text, found, -⟩ := h
    exact (List.getElem?_eq_some_iff.mp found).1
  · exact (List.getElem?_eq_some_iff.mp h).1

end Node

namespace Document

/-- An entry that can be looked up is an entry of the document. -/
theorem mem_entries_of_lookup {document : Document} {entry : Entry} {node : Node}
    (h : document.lookup entry = .ok node) : entry ∈ document.entries := by
  unfold lookup at h
  split at h
  · cases h
  · rename_i items found
    split at h
    · cases h
    · split at h
      · cases h
      · rename_i item inside
        have member : (entry.collection, items) ∈ document.sections := by
          unfold find? Fields.find? at found
          obtain ⟨before, after, split, -⟩ := List.lookup_eq_some_iff.mp found
          simp [split]
        exact List.mem_flatMap.mpr ⟨_, member, List.mem_map.mpr
          ⟨entry.index, List.mem_range.mpr (Node.lt_length_of_element? inside), rfl⟩⟩

def unvisited (document : Document) (chain : List Entry) : Nat :=
  (document.entries.filter (· ∉ chain)).length

/-- Putting a new entry of the document on the chain leaves fewer. -/
theorem unvisited_cons_lt {document : Document} {chain : List Entry} {entry : Entry}
    (member : entry ∈ document.entries) (new : entry ∉ chain) :
    document.unvisited (entry :: chain) < document.unvisited chain := by
  have fewer : document.entries.filter (· ∉ entry :: chain) =
      (document.entries.filter (· ∉ chain)).filter (· ≠ entry) := by
    rw [List.filter_filter]
    congr 1
    funext other
    simp [not_or, Bool.decide_and]
  unfold unvisited
  rw [fewer]
  refine Nat.lt_of_le_of_ne (List.length_filter_le ..) fun same => ?_
  have all := List.length_filter_eq_length_iff.mp same entry
    (List.mem_filter.mpr ⟨member, by simpa using new⟩)
  simp at all

end Document

end RenderVerdict
