import RenderVerdict.Proofs.Number.Places
import RenderVerdict.Proofs.Scene.Cycle
import RenderVerdict.Proofs.Scene.Parsed
import RenderVerdict.Scene.Normal

/-! What normalization makes of a document: the unfoldings of its nodes. Unfolding keeps trees
canonical. -/
namespace RenderVerdict

variable {schema : Schema} {document : Document}

theorem unfoldsItems_iff {items outs : List Node} :
    UnfoldsItems schema document items outs ↔
      List.Forall₂ (Unfolds schema document) items outs := by
  constructor
  · intro h
    induction items generalizing outs with
    | nil => cases h; exact .nil
    | cons item rest ih => cases h with | cons hi hr => exact .cons hi (ih hr)
  · intro h
    induction h with
    | nil => exact .nil
    | cons hi _ ih => exact .cons hi ih

/-- Only a leaf unfolds to a leaf. -/
theorem Unfolds.scalar_iff {node out : Node} (h : Unfolds schema document node out)
    {value : Scalar} : out = .scalar value ↔ node = .scalar value := by
  cases h <;> simp

theorem Unfolds.number?_eq {node out : Node} (h : Unfolds schema document node out) :
    out.number? = node.number? := by
  apply Option.ext
  intro value
  rw [Node.number?_eq_some_iff, Node.number?_eq_some_iff, h.scalar_iff]

theorem Unfolds.string?_eq {node out : Node} (h : Unfolds schema document node out) :
    out.string? = node.string? := by
  apply Option.ext
  intro text
  rw [Node.string?_eq_some_iff, Node.string?_eq_some_iff, h.scalar_iff]

/-- Values stay finite when they are rounded. -/
theorem isFinite_of_mem_rounded {places : Nat} {values rounded : List Double}
    (h : values.mapM (Binary.toPlaces? places) = some rounded)
    (hv : ∀ value ∈ values, value.isFinite) : ∀ value ∈ rounded, value.isFinite := by
  intro value hm
  obtain ⟨x, hx, hr⟩ := exists_of_mem_right (mapM_eq_some_iff.mp h) hm
  rw [Binary.eq_toPlaces_of_toPlaces? hr]
  exact Binary.isFinite_toPlaces places (hv x hx)

theorem carries_canonical (hd : document.Canonical) :
    Carries schema document (Node.Everywhere Node.Canonical) Node.Canonical where
  child h hm := h.child hm
  target ht := by
    obtain ⟨items, hi, he⟩ := Document.lookup_eq_ok_iff.mp ht
    exact (hd _ _ hi).element? he
  made hn h := by
    cases h with
    | object _ => trivial
    | numbers hr => exact isFinite_of_mem_rounded hr hn.here
    | strings => exact hn.here
    | mixed hi =>
      -- The elements that keep the array from another tag are kept from it still.
      obtain ⟨⟨item, hm, hnumber⟩, ⟨other, ho, hstring⟩⟩ := hn.here
      obtain ⟨out, hout, hu⟩ := exists_of_mem_left (unfoldsItems_iff.mp hi) hm
      obtain ⟨out', hout', hu'⟩ := exists_of_mem_left (unfoldsItems_iff.mp hi) ho
      exact ⟨⟨out, hout, hu.number?_eq.trans hnumber⟩, ⟨out', hout', hu'.string?_eq.trans hstring⟩⟩
    | scalar => exact hn.here

/-- What a canonical tree unfolds to is canonical. -/
theorem Unfolds.canonical {node out : Node} (h : Unfolds schema document node out)
    (hd : document.Canonical) (hn : node.Everywhere Node.Canonical) :
    out.Everywhere Node.Canonical :=
  h.everywhere (carries_canonical hd) hn

namespace Schema

def contextOf (schema : Schema) (document : Document) : Document :=
  ⟨Fields.erase "nodes" (Fields.erase schema.payload document.sections)⟩

def nodesOf? (schema : Schema) (document : Document) : Option (List Node) :=
  match Fields.find? "nodes" (Fields.erase schema.payload document.sections) with
  | some (.mixed items) => some items
  | some (.numbers []) => some []
  | _ => none

theorem find?_contextOf {name : String} : (schema.contextOf document).find? name =
    if name = "nodes" ∨ name = schema.payload then none else document.find? name := by
  unfold contextOf Document.find?
  rw [Fields.find?_erase, Fields.find?_erase]
  by_cases hn : name = "nodes" <;> simp [hn]

variable {normal : NormalDocument}

private theorem resolved_eq_ok_iff (schema : Schema) (context : Document) (nodes : List Node) :
    (do return ⟨context, ← nodes.mapM (schema.resolve context)⟩) = Except.ok normal ↔
      normal.context = context ∧ List.Forall₂ (Unfolds schema context) nodes normal.nodes := by
  rw [bind_eq_ok_iff]
  simp only [mapM_eq_ok_iff, resolve_eq_ok_iff, pure_eq_ok_iff]
  constructor
  · rintro ⟨outs, ho, rfl⟩
    exact ⟨rfl, ho⟩
  · rintro ⟨rfl, ho⟩
    exact ⟨normal.nodes, ho, rfl⟩

/-- A document is normalized when it has nodes and each of them has an unfolding. -/
theorem normalize_eq_ok_iff :
    schema.normalize document = .ok normal ↔
      ∃ nodes, schema.nodesOf? document = some nodes ∧
        normal.context = schema.contextOf document ∧
        List.Forall₂ (Unfolds schema (schema.contextOf document)) nodes normal.nodes := by
  dsimp only [normalize, nodesOf?]
  cases Fields.find? "nodes" (Fields.erase schema.payload document.sections) with
  | none => simp [bind_eq_ok_iff]
  | some node => cases node with
    | mixed items => exact (resolved_eq_ok_iff schema _ items).trans (by simp [contextOf])
    | numbers values => cases values with
      | nil => exact (resolved_eq_ok_iff schema _ []).trans (by simp [contextOf])
      | cons value values => simp [bind_eq_ok_iff]
    | _ => simp [bind_eq_ok_iff]

theorem canonical_contextOf (h : document.Canonical) : (schema.contextOf document).Canonical := by
  intro name node hf
  rw [find?_contextOf] at hf
  split at hf
  · cases hf
  · exact h name node hf

theorem nodesOf?_cases {nodes : List Node} : schema.nodesOf? document = some nodes ↔
    "nodes" ≠ schema.payload ∧ (document.find? "nodes" = some (.mixed nodes) ∨
      document.find? "nodes" = some (.numbers []) ∧ nodes = []) := by
  unfold nodesOf?
  rw [Fields.find?_erase]
  by_cases hp : "nodes" = schema.payload
  · simp [hp]
  · rw [if_neg hp]
    have hfind : Fields.find? "nodes" document.sections = document.find? "nodes" := rfl
    rw [hfind]
    cases document.find? "nodes" with
    | none => simp
    | some node => cases node with
      | mixed items => simp [hp]
      | numbers values => cases values <;> simp [hp, eq_comm]
      | _ => simp

theorem canonical_nodesOf {nodes : List Node} (h : document.Canonical)
    (hn : schema.nodesOf? document = some nodes) :
    ∀ node ∈ nodes, node.Everywhere Node.Canonical := by
  obtain ⟨-, hn | ⟨-, rfl⟩⟩ := nodesOf?_cases.mp hn
  · exact fun node hm => (h "nodes" _ hn).item hm
  · exact fun _ hm => absurd hm List.not_mem_nil

/-- The normal form of a canonical document is canonical. -/
theorem canonical_normalize (h : document.Canonical) (hn : schema.normalize document = .ok normal) :
    normal.context.Canonical ∧ ∀ node ∈ normal.nodes, node.Everywhere Node.Canonical := by
  obtain ⟨nodes, hnodes, hc, hu⟩ := normalize_eq_ok_iff.mp hn
  have hcontext : (schema.contextOf document).Canonical := canonical_contextOf h
  refine ⟨hc ▸ hcontext, fun out hm => ?_⟩
  obtain ⟨node, hm, hu⟩ := exists_of_mem_right hu hm
  exact hu.canonical hcontext (canonical_nodesOf h hnodes node hm)

end Schema

end RenderVerdict
