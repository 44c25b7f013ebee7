import RenderVerdict.Proofs.Scene.Normalization

/-! What resolution puts in the place of a reference: the resolved entry that the index there
pointed at, for every reference field of every object that resolution makes. A bare number is left
only where that entry is itself a bare number. -/
namespace RenderVerdict

namespace Node

inductive Occurs (root : Node) : Node → Prop
  | here : Occurs root root
  | child {node child : Node} : Occurs root node → child ∈ node.children → Occurs root child

end Node

/-- A node stands in a subtree or in an entry of the document. -/
def Source (document : Document) (subtree node : Node) : Prop :=
  subtree.Occurs node ∨ ∃ entry target, document.lookup entry = .ok target ∧ target.Occurs node

/-- The value of a field has been replaced: the field held the index of an entry of the collection,
the value is what that entry resolves to, and it is a bare number only if the entry is. -/
def Schema.Replaces (schema : Schema) (document : Document) (collection : String)
    (original value : Node) : Prop :=
  ∃ index target, original.IsIndex index ∧ document.lookup ⟨collection, index⟩ = .ok target ∧
    schema.resolve document target = .ok value ∧ value.number? = target.number?

def Schema.Replaced (schema : Schema) (document : Document) (subtree : Node) : Node → Prop
  | .object outs => ∃ fields, Source document subtree (.object fields) ∧
      schema.resolve document (.object fields) = .ok (.object outs) ∧
      ∀ name value collection, (name, value) ∈ outs → schema.collection? name = some collection →
        ∃ original, (name, original) ∈ fields ∧
          schema.Replaces document collection original value
  | _ => True

variable {schema : Schema} {document : Document} {subtree : Node}

/-- A reference field of an unfolded object holds what an entry unfolds to. -/
theorem UnfoldsFields.replaces {fields outs : List (String × Node)}
    (h : UnfoldsFields schema document fields outs) {name collection : String} {value : Node}
    (hm : (name, value) ∈ outs) (hc : schema.collection? name = some collection) :
    ∃ original, (name, original) ∈ fields ∧
      schema.Replaces document collection original value := by
  match h with
  | .nil => cases hm
  | .dropped _ hr =>
    obtain ⟨original, ho, hv⟩ := hr.replaces hm hc
    exact ⟨original, List.mem_cons_of_mem _ ho, hv⟩
  | .kept _ hnone _ hr =>
    rcases List.mem_cons.mp hm with he | hm
    · cases he
      rw [hnone] at hc
      cases hc
    · obtain ⟨original, ho, hv⟩ := hr.replaces hm hc
      exact ⟨original, List.mem_cons_of_mem _ ho, hv⟩
  | .inlined _ hc' hi hf he hv hr =>
    rcases List.mem_cons.mp hm with heq | hm
    · cases heq
      obtain rfl := Option.some.inj (hc'.symm.trans hc)
      exact ⟨_, List.mem_cons_self, _, _, hi, Document.lookup_eq_ok_iff.mpr ⟨_, hf, he⟩,
        Schema.resolve_eq_ok_iff.mpr hv, hv.number?_eq⟩
    · obtain ⟨original, ho, hv⟩ := hr.replaces hm hc
      exact ⟨original, List.mem_cons_of_mem _ ho, hv⟩

theorem carries_replaced :
    Carries schema document (Source document subtree) (schema.Replaced document subtree) where
  child h hm := h.imp (fun h => h.child hm) fun ⟨entry, target, ht, h⟩ =>
    ⟨entry, target, ht, h.child hm⟩
  target ht := .inr ⟨_, _, ht, .here⟩
  made hs h := by
    cases h with
    | object hf =>
      exact ⟨_, hs, Schema.resolve_eq_ok_iff.mpr (.object hf), fun _ _ _ hm hc => hf.replaces hm hc⟩
    | numbers _ => trivial
    | strings => trivial
    | mixed _ => trivial
    | scalar => trivial

namespace Schema

/-- An object with a reference only resolves to one with what the entry resolves to. -/
theorem resolve_reference {name collection : String} {index : Nat} {target out : Node}
    (hn : name ∉ schema.identity) (hc : schema.collection? name = some collection)
    (hi : index < 2 ^ 32) (ht : document.lookup ⟨collection, index⟩ = .ok target)
    (ho : schema.resolveNode document [⟨collection, index⟩] target = .ok out) :
    schema.resolve document (.object [(name, .ofIndex index)]) = .ok (.object [(name, out)]) := by
  rw [resolve, resolveNode_object, resolveFields_inlined hn hc,
    inline_new (Node.isIndex_ofIndex hi) List.not_mem_nil ht, ho, resolveFields_nil]
  rfl

/-- Every object at any depth of what resolution makes is what an object of the subtree or of an
entry resolves to, and each of its reference fields holds what the entry resolves to whose index
stood there. -/
theorem references_replaced {out : Node} (h : schema.resolve document subtree = .ok out) :
    out.Everywhere (schema.Replaced document subtree) :=
  (resolve_eq_ok_iff.mp h).everywhere carries_replaced (.inl .here)

def cameraDocument : Document := ⟨[("cameras", .mixed [.object []])]⟩

theorem references_replaced_camera :
    standard.resolve cameraDocument (.object [("camera", .ofIndex 0)]) =
        .ok (.object [("camera", .object [])]) ∧
      (Node.object [("camera", .object [])]).Everywhere
        (standard.Replaced cameraDocument (.object [("camera", .ofIndex 0)])) := by
  have h : standard.resolve cameraDocument (.object [("camera", .ofIndex 0)]) =
      .ok (.object [("camera", .object [])]) := by
    have hcamera : standard.collection? "camera" = some "cameras" := by decide
    refine resolve_reference (by decide) hcamera (by decide) rfl ?_
    rw [resolveNode_object, resolveFields_nil]
    rfl
  exact ⟨h, references_replaced h⟩

def numberedMeshes : Document := ⟨[("meshes", .numbers [Binary.nearest 7])]⟩

/-- A reference to a number leaves a number under a reference field. -/
theorem resolve_numberedMeshes :
    standard.collection? "mesh" = some "meshes" ∧
      standard.resolve numberedMeshes (.object [("mesh", .ofIndex 0)]) =
        .ok (.object [("mesh", .scalar (.number (Binary.nearest 7)))]) := by
  have hmesh : standard.collection? "mesh" = some "meshes" := by decide
  exact ⟨hmesh, resolve_reference (by decide) hmesh (by decide) rfl resolveNode_scalar⟩

end Schema

end RenderVerdict
