import RenderVerdict.Scene.Resolve

/-! The normal form of a scene document: what its nodes are once nothing in them depends on how
the document was exported. -/
namespace RenderVerdict

structure NormalDocument where
  /-- The sections other than the payload and the nodes, as they were. -/
  context : Document
  nodes : List Node
deriving Inhabited

namespace NormalDocument

def find? (document : NormalDocument) (name : String) : Option Node :=
  document.context.find? name

def toJson (document : NormalDocument) : Json :=
  .obj (Fields.insert "nodes" (.arr (document.nodes.map Node.toJson))
    (Node.toFields document.context.sections))

end NormalDocument

namespace Schema

/-- Resolves the nodes of a document. References into the payload or into the nodes lead
nowhere. -/
def normalize (schema : Schema) (document : Document) : Except Stop NormalDocument := do
  let sections := Fields.erase schema.payload document.sections
  let context : Document := ⟨Fields.erase "nodes" sections⟩
  let nodes ← match Fields.find? "nodes" sections with
    | some (.mixed items) => .ok items
    | some (.numbers []) => .ok []
    | some _ => .error (.fault (.malformed .nodesNotObjects))
    | none => .error (.fault (.malformed .nodesMissing))
  return ⟨context, ← nodes.mapM (schema.resolve context)⟩

end Schema

end RenderVerdict
