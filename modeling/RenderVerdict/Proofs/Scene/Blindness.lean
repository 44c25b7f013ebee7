import RenderVerdict.Proofs.Scene.Normalization
import RenderVerdict.Proofs.Scene.Stripped

/-! Normalization looks neither at the payload nor at what stands in identity fields: documents that
are the same without them have the same normal nodes, or none of them has any. -/
namespace RenderVerdict

variable {schema : Schema} {document other : Document}

theorem UnfoldsFields.after_dropped {before rest outs : List (String × Node)}
    (hb : ∀ field ∈ before, field.1 ∈ schema.identity)
    (h : UnfoldsFields schema document rest outs) :
    UnfoldsFields schema document (before ++ rest) outs := by
  induction before with
  | nil => exact h
  | cons field before ih =>
    obtain ⟨hf, hb⟩ := List.forall_mem_cons.mp hb
    exact .dropped hf (ih hb)

def Document.SameStripped (identity : List String) (document other : Document) : Prop :=
  ∀ name, (document.find? name).map (Node.stripped identity) =
    (other.find? name).map (Node.stripped identity)

/-- An entry that can be looked up in one document can be looked up in the other. -/
theorem Document.SameStripped.lookup {identity : List String} {collection : String} {index : Nat}
    {items target : Node} (h : document.SameStripped identity other)
    (hi : document.find? collection = some items) (ht : items.element? index = some target) :
    ∃ items' target', other.find? collection = some items' ∧
      items'.element? index = some target' ∧
      target.stripped identity = target'.stripped identity := by
  have hs := h collection
  rw [hi] at hs
  obtain ⟨items', hi', hs⟩ := Option.map_eq_some_iff.mp hs.symm
  have he : (items'.stripped identity).element? index =
      (items'.element? index).map (Node.stripped identity) := items'.element?_stripped index
  rw [hs, Node.element?_stripped, ht] at he
  obtain ⟨target', ht', hs'⟩ := Option.map_eq_some_iff.mp he.symm
  exact ⟨items', target', hi', ht', hs'.symm⟩

mutual

/-- A node unfolds to what any node unfolds to that is the same when stripped. -/
theorem Unfolds.of_stripped {node held out : Node} (h : Unfolds schema document node out)
    (hd : document.SameStripped schema.identity other)
    (hs : node.stripped schema.identity = held.stripped schema.identity) :
    Unfolds schema other held out := by
  match h with
  | .object hf =>
    obtain ⟨fields, rfl, hfields⟩ := Node.exists_of_stripped_eq_object hs.symm
    exact .object (hf.of_stripped hd hfields.symm)
  | .numbers hr =>
    obtain rfl := Node.stripped_eq_numbers_iff.mp hs.symm
    exact .numbers hr
  | .strings =>
    obtain rfl := Node.stripped_eq_strings_iff.mp hs.symm
    exact .strings
  | .mixed hi =>
    obtain ⟨items, rfl, hitems⟩ := Node.exists_of_stripped_eq_mixed hs.symm
    rw [Node.strippedItems_eq_map] at hitems
    exact .mixed (hi.of_stripped hd hitems.symm)
  | .scalar =>
    obtain rfl := Node.stripped_eq_scalar_iff.mp hs.symm
    exact .scalar

theorem UnfoldsItems.of_stripped {items held outs : List Node}
    (h : UnfoldsItems schema document items outs)
    (hd : document.SameStripped schema.identity other)
    (hs : items.map (Node.stripped schema.identity) = held.map (Node.stripped schema.identity)) :
    UnfoldsItems schema other held outs := by
  match h with
  | .nil =>
    obtain rfl := List.map_eq_nil_iff.mp hs.symm
    exact .nil
  | .cons hi hrest =>
    obtain ⟨item, rest, rfl, hs, hr⟩ := List.map_eq_cons_iff.mp hs.symm
    exact .cons (hi.of_stripped hd hs.symm) (hrest.of_stripped hd hr.symm)

theorem UnfoldsFields.of_stripped {fields held outs : List (String × Node)}
    (h : UnfoldsFields schema document fields outs)
    (hd : document.SameStripped schema.identity other)
    (hs : Node.strippedFields schema.identity fields =
      Node.strippedFields schema.identity held) :
    UnfoldsFields schema other held outs := by
  match h with
  | .nil =>
    have hall := Node.mem_of_strippedFields_eq_nil hs.symm
    rw [← List.append_nil held]
    exact .after_dropped hall .nil
  | .dropped hn hrest =>
    rw [Node.strippedFields_of_mem hn] at hs
    exact hrest.of_stripped hd hs
  | .kept hn hc hv hrest =>
    rw [Node.strippedFields_of_not_mem hn] at hs
    obtain ⟨before, kept, after, rfl, hb, hk, ha⟩ :=
      Node.exists_of_strippedFields_eq_cons hs.symm
    exact .after_dropped hb
      (.kept hn hc (hv.of_stripped hd hk.symm) (hrest.of_stripped hd ha.symm))
  | .inlined hn hc hi hd' he hv hrest =>
    rw [Node.strippedFields_of_not_mem hn] at hs
    obtain ⟨before, kept, after, rfl, hb, hk, ha⟩ :=
      Node.exists_of_strippedFields_eq_cons hs.symm
    -- The index is the same, and the entry that it points at is the same when stripped.
    obtain ⟨items, target, hitems, ht, hs⟩ := hd.lookup hd' he
    exact .after_dropped hb (.inlined hn hc (hi.of_stripped hk.symm) hitems ht
      (hv.of_stripped hd hs) (hrest.of_stripped hd ha.symm))

end

namespace Schema

/-- Two documents have the same sections, but for the payload and for what stands in identity
fields. -/
def Agree (schema : Schema) (document other : Document) : Prop :=
  ∀ name, name ≠ schema.payload →
    (document.find? name).map (Node.stripped schema.identity) =
      (other.find? name).map (Node.stripped schema.identity)

theorem Agree.symm (h : schema.Agree document other) : schema.Agree other document :=
  fun name hn => (h name hn).symm

theorem Agree.contexts (h : schema.Agree document other) :
    (schema.contextOf document).SameStripped schema.identity (schema.contextOf other) := by
  intro name
  rw [find?_contextOf, find?_contextOf]
  split
  · rfl
  · next hn => exact h name (not_or.mp hn).2

/-- Documents that agree have the same nodes to normalize, but for identity fields. -/
theorem Agree.nodesOf? {nodes : List Node} (h : schema.Agree document other)
    (hn : schema.nodesOf? document = some nodes) :
    ∃ held, schema.nodesOf? other = some held ∧
      nodes.map (Node.stripped schema.identity) = held.map (Node.stripped schema.identity) := by
  by_cases hp : "nodes" = schema.payload
  · simp [Schema.nodesOf?, Fields.find?_erase, hp] at hn
  have hs : (Fields.find? "nodes" document.sections).map (Node.stripped schema.identity) =
    (Fields.find? "nodes" other.sections).map (Node.stripped schema.identity) := h "nodes" hp
  unfold Schema.nodesOf? at hn ⊢
  rw [Fields.find?_erase, if_neg hp] at hn ⊢
  split at hn
  · next items hi =>
    cases hn
    rw [hi] at hs
    obtain ⟨held, hheld, hs⟩ := Option.map_eq_some_iff.mp hs.symm
    obtain ⟨kept, rfl, hk⟩ := Node.exists_of_stripped_eq_mixed hs
    rw [Node.strippedItems_eq_map] at hk
    exact ⟨kept, by rw [hheld], hk.symm⟩
  · next hi =>
    cases hn
    rw [hi] at hs
    obtain ⟨held, hheld, hs⟩ := Option.map_eq_some_iff.mp hs.symm
    obtain rfl := Node.stripped_eq_numbers_iff.mp hs
    exact ⟨[], by rw [hheld], rfl⟩
  · cases hn

theorem Agree.normalize {normal : NormalDocument} (h : schema.Agree document other)
    (hn : schema.normalize document = .ok normal) :
    ∃ moved, schema.normalize other = .ok moved ∧ moved.nodes = normal.nodes := by
  obtain ⟨nodes, hnodes, -, hu⟩ := normalize_eq_ok_iff.mp hn
  obtain ⟨held, hheld, hs⟩ := h.nodesOf? hnodes
  have hitems := (unfoldsItems_iff.mpr hu).of_stripped h.contexts hs
  exact ⟨⟨schema.contextOf other, normal.nodes⟩,
    normalize_eq_ok_iff.mpr ⟨held, hheld, rfl, unfoldsItems_iff.mp hitems⟩, rfl⟩

def stripped (schema : Schema) (document : Document) : Document :=
  ⟨(Fields.erase schema.payload document.sections).map fun entry =>
    (entry.1, entry.2.stripped schema.identity)⟩

theorem agree_stripped (schema : Schema) (document : Document) :
    schema.Agree document (schema.stripped document) := by
  intro name hn
  unfold stripped Document.find?
  rw [Fields.find?_map, Fields.find?_erase, if_neg hn, Option.map_map]
  cases Fields.find? name document.sections with
  | none => rfl
  | some node => exact congrArg some (node.stripped_stripped schema.identity).symm

/-- Documents that agree but for the payload and identity fields both have a normal form or neither
has, with the same nodes; so what only stands there, such as a reference that leads nowhere or in a
circle, never keeps a document from having one. -/
theorem normalize_blind (h : schema.Agree document other) :
    ((∃ normal, schema.normalize document = .ok normal) ↔
      ∃ normal, schema.normalize other = .ok normal) ∧
    (∀ normal moved, schema.normalize document = .ok normal →
      schema.normalize other = .ok moved → moved.nodes = normal.nodes) ∧
    ∀ normal, schema.normalize (schema.stripped document) = .ok normal →
      ∃ full, schema.normalize document = .ok full ∧ full.nodes = normal.nodes := by
  refine ⟨⟨?_, ?_⟩, ?_, ?_⟩
  · rintro ⟨normal, hn⟩
    obtain ⟨moved, hm, -⟩ := h.normalize hn
    exact ⟨moved, hm⟩
  · rintro ⟨moved, hm⟩
    obtain ⟨normal, hn, -⟩ := h.symm.normalize hm
    exact ⟨normal, hn⟩
  · intro normal moved hn hm
    obtain ⟨moved', hm', hs⟩ := h.normalize hn
    obtain rfl := Except.ok.inj (hm.symm.trans hm')
    exact hs
  · intro normal hn
    exact (agree_stripped schema document).symm.normalize hn

/-- Documents agree when the values that they are read from do. -/
theorem agree_of_json {fields others : List (String × Json)}
    (hd : Document.ofJson (.obj fields) = .ok document)
    (ho : Document.ofJson (.obj others) = .ok other)
    (h : ∀ name, name ≠ schema.payload →
      (Fields.find? name (Fields.ofList fields)).map (Json.stripped schema.identity) =
        (Fields.find? name (Fields.ofList others)).map (Json.stripped schema.identity)) :
    schema.Agree document other := by
  have hsections : ∀ (name : String) (entries : List (String × Json)),
      (Fields.find? name (Fields.ofList (Node.ofFields entries))).map
          (Node.stripped schema.identity) =
        ((Fields.find? name (Fields.ofList entries)).map (Json.stripped schema.identity)).map
          Node.ofJson := by
    intro name entries
    rw [Node.ofFields_eq_map, Fields.ofList_map, Fields.find?_map, Option.map_map, Option.map_map]
    exact congrArg (Option.map · _) (funext (Node.stripped_ofJson schema.identity))
  cases hd
  cases ho
  intro name hn
  calc _ = _ := hsections name fields
    _ = _ := congrArg (Option.map Node.ofJson) (h name hn)
    _ = _ := (hsections name others).symm

def namedMeshJson (mesh node : Json) (payload : List (String × Json)) : List (String × Json) :=
  ("nodes", .arr [.obj [("mesh", .int 0), ("name", node)]]) ::
    ("meshes", .arr [.obj [("mode", .str "wire"), ("name", mesh)]]) :: payload

def namedMesh (mesh node : Json) (payload : List (String × Json)) : Document :=
  ⟨Fields.ofList (Node.ofFields (namedMeshJson mesh node payload))⟩

def wireNode : Node := .object [("mesh", .object [("mode", .scalar (.string "wire"))])]

theorem normalize_namedMesh :
    standard.normalize (namedMesh (.str "cube") (.str "first") []) =
      .ok ⟨standard.contextOf (namedMesh (.str "cube") (.str "first") []), [wireNode]⟩ := by
  have hdropped : "name" ∈ standard.identity := by decide
  have hkept : "mesh" ∉ standard.identity := by decide
  have hmode : "mode" ∉ standard.identity := by decide
  have hmesh : standard.collection? "mesh" = some "meshes" := by decide
  have hindex : (Node.ofIndex 0).IsIndex 0 := Node.isIndex_ofIndex (by decide)
  have hwire : UnfoldsFields standard
      (standard.contextOf (namedMesh (.str "cube") (.str "first") []))
      [("mode", .scalar (.string "wire")), ("name", .scalar (.string "cube"))]
      [("mode", .scalar (.string "wire"))] :=
    .kept hmode (by decide) .scalar (.dropped hdropped .nil)
  exact normalize_eq_ok_iff.mpr ⟨_, by rfl, rfl, .cons (.object (.inlined hkept hmesh hindex
    (by rfl) rfl (.object hwire) (.dropped hdropped .nil))) .nil⟩

/-- A payload, a reference that leads nowhere and one in a circle change nothing where they
stand. -/
theorem normalize_blind_namedMesh :
    standard.Agree (namedMesh (.str "cube") (.str "first") [])
      (namedMesh (.obj [("mesh", .int 0)]) (.obj [("mesh", .int 7)]) [("buffers", .null)]) ∧
    ∃ normal, standard.normalize (namedMesh (.obj [("mesh", .int 0)]) (.obj [("mesh", .int 7)])
      [("buffers", .null)]) = .ok normal ∧ normal.nodes = [wireNode] := by
  have hagree : standard.Agree (namedMesh (.str "cube") (.str "first") [])
      (namedMesh (.obj [("mesh", .int 0)]) (.obj [("mesh", .int 7)]) [("buffers", .null)]) := by
    refine agree_of_json (by rfl) (by rfl) fun name hn => ?_
    have hplain : Fields.ofList (namedMeshJson (.str "cube") (.str "first") []) = [
        ("meshes", .arr [.obj [("mode", .str "wire"), ("name", .str "cube")]]),
        ("nodes", .arr [.obj [("mesh", .int 0), ("name", .str "first")]])] := by rfl
    have hmarked : Fields.ofList (namedMeshJson (.obj [("mesh", .int 0)]) (.obj [("mesh", .int 7)])
        [("buffers", .null)]) = [("buffers", .null),
        ("meshes", .arr [.obj [("mode", .str "wire"), ("name", .obj [("mesh", .int 0)])]]),
        ("nodes", .arr [.obj [("mesh", .int 0), ("name", .obj [("mesh", .int 7)])]])] := by rfl
    rw [hplain, hmarked, Fields.find?_cons, Fields.find?_cons, Fields.find?_cons,
      Fields.find?_cons, Fields.find?_cons, if_neg (show name ≠ "buffers" from hn)]
    split
    · rfl
    · split <;> rfl
  obtain ⟨hiff, hsame, -⟩ := normalize_blind hagree
  obtain ⟨normal, hn⟩ := hiff.mp ⟨_, normalize_namedMesh⟩
  exact ⟨hagree, normal, hn, hsame _ _ normalize_namedMesh hn⟩

end Schema

end RenderVerdict
