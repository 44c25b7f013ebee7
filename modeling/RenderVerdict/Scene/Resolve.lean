import RenderVerdict.Number.Decimal
import RenderVerdict.Scene.Document
import RenderVerdict.Scene.Schema

/-! Resolution: a subtree rebuilt so that it no longer depends on the order in which a document
lists its collections. Identity fields are dropped, references are replaced by the entries they
point at, and arrays of numbers are rounded. -/
namespace RenderVerdict.Schema

mutual

/-- Resolves a node. The chain holds the entries that are being inlined: to meet one of them again
is a cycle, and any other reference leaves fewer entries to meet. -/
def resolveNode (schema : Schema) (document : Document) (chain : List Entry) (node : Node) :
    Except Stop Node :=
  match node with
  | .object fields => do return .object (← schema.resolveFields document chain fields)
  | .numbers values =>
    match values.mapM (Binary.toPlaces? schema.places) with
    | some rounded => .ok (.numbers rounded)
    | none => .error .tooManyPlaces
  | .strings values => .ok (.strings values)
  | .mixed items => do return .mixed (← schema.resolveItems document chain items)
  | .scalar value => .ok (.scalar value)
termination_by (document.unvisited chain, sizeOf node)

def resolveItems (schema : Schema) (document : Document) (chain : List Entry)
    (items : List Node) : Except Stop (List Node) :=
  match items with
  | [] => .ok []
  | item :: rest => do
    let resolved ← schema.resolveNode document chain item
    return resolved :: (← schema.resolveItems document chain rest)
termination_by (document.unvisited chain, sizeOf items)

def resolveFields (schema : Schema) (document : Document) (chain : List Entry)
    (fields : List (String × Node)) : Except Stop (List (String × Node)) :=
  match fields with
  | [] => .ok []
  | (name, value) :: rest =>
    if name ∈ schema.identity then schema.resolveFields document chain rest
    else do
      let resolved ← match schema.collection? name with
        | some collection => schema.inline document chain name collection value
        | none => schema.resolveNode document chain value
      return (name, resolved) :: (← schema.resolveFields document chain rest)
termination_by (document.unvisited chain, sizeOf fields)

def inline (schema : Schema) (document : Document) (chain : List Entry)
    (field collection : String) (value : Node) : Except Stop Node :=
  match value.index? with
  | none => .error (.fault (.malformed (.notAnIndex field collection value.toJson)))
  | some index =>
    if _visited : ⟨collection, index⟩ ∈ chain then
      .error (.fault (.referenceCycle collection index))
    else
      match _found : document.lookup ⟨collection, index⟩ with
      | .error cause => .error (.fault (.malformed cause))
      | .ok target => schema.resolveNode document (⟨collection, index⟩ :: chain) target
termination_by (document.unvisited chain, sizeOf value)
decreasing_by
  exact Prod.Lex.left _ _
    (Document.unvisited_cons_lt (Document.mem_entries_of_lookup _found) _visited)

end

def resolve (schema : Schema) (document : Document) (subtree : Node) : Except Stop Node :=
  schema.resolveNode document [] subtree

end RenderVerdict.Schema
