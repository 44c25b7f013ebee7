import RenderVerdict.Proofs.Scene.Completeness
import RenderVerdict.Proofs.Scene.Faithfulness

/-! What is taken for the nodes of a document: every array that is not tagged as one of numbers or
of strings. That its elements are objects is not asked for. -/
namespace RenderVerdict

/-- A value that is taken for the nodes: an array that is empty, or that has an element which is no
number and one which is no string. -/
def Json.TakenForNodes : Json → Prop
  | .arr items => items = [] ∨
    (∃ item ∈ items, item.kind ≠ .number) ∧ ∃ item ∈ items, item.kind ≠ .string
  | _ => False

theorem Json.takenForNodes_of_objects {items : List Json}
    (h : ∀ item ∈ items, item.kind = .object) : (Json.arr items).TakenForNodes := by
  cases items with
  | nil => exact .inl rfl
  | cons first rest =>
    have hfirst : first.kind = .object := h first List.mem_cons_self
    refine .inr ⟨⟨first, List.mem_cons_self, ?_⟩, ⟨first, List.mem_cons_self, ?_⟩⟩ <;> simp [hfirst]

namespace Node

def IsObject (node : Node) : Prop := ∃ fields, node = .object fields

theorem ofElements_eq_mixed_iff {items nodes : List Node} : ofElements items = .mixed nodes ↔
    (∃ item ∈ items, item.number? = none) ∧ (∃ item ∈ items, item.string? = none) ∧
      nodes = items := by
  obtain ⟨values, rfl, h⟩ | ⟨hnumber, ⟨texts, rfl, h⟩ | ⟨hstring, h⟩⟩ := ofElements_cases items
  · simp [h, number?]
  · simp [h, string?]
  · rw [h, mixed.injEq, eq_comm]
    simp only [hnumber, hstring, true_and]

theorem ofElements_eq_nil_iff {items : List Node} : ofElements items = .numbers [] ↔ items = [] := by
  constructor
  · intro h
    have hlength := length?_ofElements items
    rw [h] at hlength
    exact List.length_eq_zero_iff.mp (Option.some.inj hlength).symm
  · rintro rfl
    rfl

/-- The tree of an array is an array of some tag. -/
theorem ofJson_arr_cases (items : List Json) :
    (∃ values, ofJson (.arr items) = .numbers values) ∨
      (∃ texts, ofJson (.arr items) = .strings texts) ∨
      ofJson (.arr items) = .mixed (items.map ofJson) := by
  rw [ofJson_arr]
  obtain ⟨values, -, h⟩ | ⟨-, ⟨texts, -, h⟩ | ⟨-, h⟩⟩ := ofElements_cases (items.map ofJson)
  · exact .inl ⟨values, h⟩
  · exact .inr (.inl ⟨texts, h⟩)
  · exact .inr (.inr h)

theorem number?_ofJson_eq_none_iff {json : Json} :
    (ofJson json).number? = none ↔ json.kind ≠ .number := by
  cases json with
  | arr items =>
    rcases ofJson_arr_cases items with ⟨_, h⟩ | ⟨_, h⟩ | h <;> simp [h, number?, Json.kind]
  | _ => simp [ofJson, number?, Json.kind]

theorem string?_ofJson_eq_none_iff {json : Json} :
    (ofJson json).string? = none ↔ json.kind ≠ .string := by
  cases json with
  | arr items =>
    rcases ofJson_arr_cases items with ⟨_, h⟩ | ⟨_, h⟩ | h <;> simp [h, string?, Json.kind]
  | _ => simp [ofJson, string?, Json.kind]

theorem isObject_ofJson_iff {json : Json} : (ofJson json).IsObject ↔ json.kind = .object := by
  cases json with
  | arr items =>
    rcases ofJson_arr_cases items with ⟨_, h⟩ | ⟨_, h⟩ | h <;> simp [h, IsObject, Json.kind]
  | _ => simp [ofJson, IsObject, Json.kind]

/-- A value is taken for the nodes when its tree is a mixed or an empty array. -/
theorem takenForNodes_iff {json : Json} {nodes : List Node} :
    (ofJson json = .mixed nodes ∨ ofJson json = .numbers [] ∧ nodes = []) ↔
      ∃ items, json = .arr items ∧ json.TakenForNodes ∧ nodes = items.map ofJson := by
  cases json with
  | arr items =>
    simp only [ofJson_arr, ofElements_eq_mixed_iff, ofElements_eq_nil_iff, List.map_eq_nil_iff,
      List.mem_map, exists_exists_and_eq_and, number?_ofJson_eq_none_iff,
      string?_ofJson_eq_none_iff, Json.arr.injEq, exists_eq_left', Json.TakenForNodes]
    constructor
    · rintro (⟨hnumber, hstring, rfl⟩ | ⟨rfl, rfl⟩)
      · exact ⟨.inr ⟨hnumber, hstring⟩, rfl⟩
      · exact ⟨.inl rfl, rfl⟩
    · rintro ⟨rfl | ⟨hnumber, hstring⟩, rfl⟩
      · exact .inr ⟨rfl, rfl⟩
      · exact .inl ⟨hnumber, hstring, rfl⟩
  | _ => simp [ofJson, Json.TakenForNodes]

end Node

/-- A node unfolds to an object when it is one. -/
theorem Unfolds.isObject_iff {schema : Schema} {document : Document} {node out : Node}
    (h : Unfolds schema document node out) : out.IsObject ↔ node.IsObject := by
  cases h <;> simp [Node.IsObject]

/-- The documents that are read from objects. -/
theorem Document.ofJson_eq_ok_iff {json : Json} {document : Document} :
    ofJson json = .ok document ↔
      ∃ fields, json = .obj fields ∧ document = ⟨Fields.ofList (Node.ofFields fields)⟩ := by
  unfold ofJson
  cases json with
  | obj fields => simp [Node.ofJson, eq_comm]
  | arr items =>
    rcases Node.ofJson_arr_cases items with ⟨_, h⟩ | ⟨_, h⟩ | h <;> simp [h]
  | _ => simp [Node.ofJson]

namespace Schema

variable {schema : Schema} {document : Document} {nodes : List Node}

def nodesFault (schema : Schema) (document : Document) : Malformed :=
  if "nodes" = schema.payload ∨ document.find? "nodes" = none then .nodesMissing
  else .nodesNotObjects

theorem normalize_without_nodes (h : schema.nodesOf? document = none) :
    schema.normalize document = .error (.fault (.malformed (schema.nodesFault document))) := by
  unfold nodesOf? at h
  unfold normalize nodesFault Document.find?
  dsimp only
  rw [Fields.find?_erase] at h ⊢
  by_cases hpayload : "nodes" = schema.payload
  · rw [if_pos hpayload, if_pos (.inl hpayload)]
    rfl
  · rw [if_neg hpayload] at h ⊢
    cases hfound : Fields.find? "nodes" document.sections with
    | none =>
      rw [if_pos (.inr rfl)]
      rfl
    | some node =>
      rw [hfound] at h
      rw [if_neg (by simp [hpayload])]
      cases node with
      | mixed items => cases h
      | numbers values => cases values with
        | nil => cases h
        | cons value values => rfl
      | _ => rfl

/-- Once there are nodes, nothing but a reference in one of them is at fault. -/
theorem normalize_with_nodes (h : schema.nodesOf? document = some nodes) {cause : Malformed}
    (hcause : ¬ (Fault.malformed cause).OfReference) :
    schema.normalize document ≠ .error (.fault (.malformed cause)) := by
  have hresolve : ∀ items : List Node, items.mapM (schema.resolve (schema.contextOf document)) ≠
      .error (.fault (.malformed cause)) := by
    refine fun items => mapM_ne_error fun node => ?_
    refine (resolution_avoids (fun hstop => ?_) (fun fault hfault hstop => ?_) _).1 [] node
    · cases hstop
    · obtain rfl := Stop.fault.inj hstop
      exact hcause hfault
  unfold nodesOf? at h
  unfold normalize
  dsimp only
  split at h
  · next items hfound =>
    rw [hfound]
    exact bind_ne_error ok_ne_error fun _ => bind_ne_error (hresolve _) fun _ => ok_ne_error
  · next hfound =>
    rw [hfound]
    exact bind_ne_error ok_ne_error fun _ => bind_ne_error (hresolve _) fun _ => ok_ne_error
  · cases h

theorem normalize_eq_nodesFault_iff {cause : Malformed}
    (hcause : ¬ (Fault.malformed cause).OfReference) :
    schema.normalize document = .error (.fault (.malformed cause)) ↔
      schema.nodesOf? document = none ∧ schema.nodesFault document = cause := by
  cases h : schema.nodesOf? document with
  | none => simp [normalize_without_nodes h]
  | some nodes => simp [normalize_with_nodes h hcause]

theorem normalize_eq_nodesMissing_iff :
    schema.normalize document = .error (.fault (.malformed .nodesMissing)) ↔
      "nodes" = schema.payload ∨ document.find? "nodes" = none := by
  rw [normalize_eq_nodesFault_iff fun h => h.ne_malformed.1 rfl, nodesFault]
  constructor
  · rintro ⟨-, h⟩
    by_contra hfound
    rw [if_neg hfound] at h
    cases h
  · intro h
    refine ⟨Option.eq_none_iff_forall_ne_some.mpr fun nodes hnodes => ?_, if_pos h⟩
    obtain ⟨hpayload, hfound⟩ := nodesOf?_cases.mp hnodes
    simp_all

theorem normalize_eq_nodesNotObjects_iff :
    schema.normalize document = .error (.fault (.malformed .nodesNotObjects)) ↔
      "nodes" ≠ schema.payload ∧ (∃ node, document.find? "nodes" = some node) ∧
        schema.nodesOf? document = none := by
  rw [normalize_eq_nodesFault_iff fun h => h.ne_malformed.2.1 rfl, nodesFault]
  by_cases hpayload : "nodes" = schema.payload
  · simp [hpayload]
  · cases document.find? "nodes" <;> simp [hpayload]

theorem nodesOf?_ofList {fields : List (String × Json)} :
    schema.nodesOf? ⟨Fields.ofList (Node.ofFields fields)⟩ = some nodes ↔
    "nodes" ≠ schema.payload ∧ ∃ items, Json.field? "nodes" fields = some (.arr items) ∧
      (Json.arr items).TakenForNodes ∧ nodes = items.map Node.ofJson := by
  rw [nodesOf?_cases, Document.find?, Node.find?_ofJson]
  refine and_congr_right fun _ => ?_
  cases Json.field? "nodes" fields with
  | none => simp
  | some value =>
    simp only [Option.map_some, Option.some.injEq, Node.takenForNodes_iff]
    constructor
    · rintro ⟨items, rfl, h⟩
      exact ⟨items, rfl, h⟩
    · rintro ⟨items, rfl, h⟩
      exact ⟨items, rfl, h⟩

/-- A value that is not taken for the nodes leaves the document without any. -/
theorem nodesOf?_eq_none_iff {fields : List (String × Json)} {value : Json}
    (hpayload : "nodes" ≠ schema.payload) (hvalue : Json.field? "nodes" fields = some value) :
    schema.nodesOf? ⟨Fields.ofList (Node.ofFields fields)⟩ = none ↔ ¬ value.TakenForNodes := by
  rw [Option.eq_none_iff_forall_ne_some]
  constructor
  · intro hnone htaken
    cases value with
    | arr items => exact hnone _ (nodesOf?_ofList.mpr ⟨hpayload, items, hvalue, htaken, rfl⟩)
    | _ => exact htaken
  · intro htaken nodes hnodes
    obtain ⟨-, items, hitems, h, -⟩ := nodesOf?_ofList.mp hnodes
    obtain rfl := Option.some.inj (hvalue.symm.trans hitems)
    exact htaken h

/-- A document is refused for its nodes as a whole if it has none, or if what it has is no array or
an array of numbers only or of strings only. Everything else is taken for the nodes, lists of objects
among it, and in what becomes of it the objects are where they were. -/
theorem normalize_takes (schema : Schema) {json : Json} {document : Document}
    (h : Document.ofJson json = .ok document) :
    ∃ fields, json = .obj fields ∧
      (schema.normalize document = .error (.fault (.malformed .nodesMissing)) ↔
        "nodes" = schema.payload ∨ Json.field? "nodes" fields = none) ∧
      (schema.normalize document = .error (.fault (.malformed .nodesNotObjects)) ↔
        "nodes" ≠ schema.payload ∧
          ∃ value, Json.field? "nodes" fields = some value ∧ ¬ value.TakenForNodes) ∧
      (∀ items, Json.field? "nodes" fields = some (.arr items) →
        (∀ item ∈ items, item.kind = .object) →
        schema.normalize document ≠ .error (.fault (.malformed .nodesNotObjects))) ∧
      ∀ normal, schema.normalize document = .ok normal → "nodes" ≠ schema.payload ∧
        ∃ items, Json.field? "nodes" fields = some (.arr items) ∧ (Json.arr items).TakenForNodes ∧
          List.Forall₂ (fun item out => item.kind = .object ↔ out.IsObject) items normal.nodes := by
  obtain ⟨fields, rfl, rfl⟩ := Document.ofJson_eq_ok_iff.mp h
  have hfind := Node.find?_ofJson "nodes" fields
  have hrefused : schema.normalize ⟨Fields.ofList (Node.ofFields fields)⟩ =
      .error (.fault (.malformed .nodesNotObjects)) ↔ "nodes" ≠ schema.payload ∧
        ∃ value, Json.field? "nodes" fields = some value ∧ ¬ value.TakenForNodes := by
    rw [normalize_eq_nodesNotObjects_iff, Document.find?, hfind]
    refine and_congr_right fun hpayload => ?_
    cases hvalue : Json.field? "nodes" fields with
    | none => simp
    | some value => simp [nodesOf?_eq_none_iff hpayload hvalue]
  refine ⟨fields, rfl, ?_, hrefused, ?_, ?_⟩
  · rw [normalize_eq_nodesMissing_iff, Document.find?, hfind, Option.map_eq_none_iff]
  · intro items hitems hobjects h
    obtain ⟨-, value, hvalue, htaken⟩ := hrefused.mp h
    obtain rfl := Option.some.inj (hitems.symm.trans hvalue)
    exact htaken (Json.takenForNodes_of_objects hobjects)
  · intro normal hnormal
    obtain ⟨nodes, hnodes, -, hunfolds⟩ := normalize_eq_ok_iff.mp hnormal
    obtain ⟨hpayload, items, hitems, htaken, rfl⟩ := nodesOf?_ofList.mp hnodes
    refine ⟨hpayload, items, hitems, htaken, ?_⟩
    rw [List.forall₂_map_left_iff] at hunfolds
    exact hunfolds.imp fun item out hout => by rw [hout.isObject_iff, Node.isObject_ofJson_iff]

theorem normalize_takes_names :
    Document.ofJson (.obj [("nodes", .arr [.str "root"])]) = .ok ⟨[("nodes", .strings ["root"])]⟩ ∧
      standard.normalize ⟨[("nodes", .strings ["root"])]⟩ =
        .error (.fault (.malformed .nodesNotObjects)) := by
  have h : Document.ofJson (.obj [("nodes", .arr [.str "root"])]) =
      .ok ⟨[("nodes", .strings ["root"])]⟩ := by rfl
  obtain ⟨_, hfields, -, hrefused, -, -⟩ := normalize_takes standard h
  obtain rfl := Json.obj.inj hfields
  refine ⟨h, hrefused.mpr ⟨by decide, _, rfl, ?_⟩⟩
  simp [Json.TakenForNodes, Json.kind]

def numberedNode : Document :=
  ⟨[("nodes", .mixed [.object [], .scalar (.number (Binary.nearest 1))])]⟩

/-- A number among objects is taken for a node, and stays one. -/
theorem normalize_numberedNode :
    Document.ofJson (.obj [("nodes", .arr [.obj [], .int 1])]) = .ok numberedNode ∧
      standard.normalize numberedNode =
        .ok ⟨⟨[]⟩, [.object [], .scalar (.number (Binary.nearest 1))]⟩ ∧
      ¬ (Node.scalar (.number (Binary.nearest 1))).IsObject :=
  ⟨by rfl, normalize_eq_ok_iff.mpr ⟨_, by rfl, by rfl, .cons (.object .nil) (.cons .scalar .nil)⟩,
    by simp [Node.IsObject]⟩

end Schema

end RenderVerdict
