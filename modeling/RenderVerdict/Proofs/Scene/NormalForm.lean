import RenderVerdict.Proofs.Scene.Settling

/-! The normal form of trees: what resolution makes has no identity fields, its arrays are tagged as
those are that are read, and to resolve it again, with no references to follow, changes nothing. -/
namespace RenderVerdict

namespace Schema

def withoutReferences (schema : Schema) : Schema := { schema with references := [] }

def Anonymous (schema : Schema) : Node → Prop
  | .object fields => ∀ field ∈ fields, field.1 ∉ schema.identity
  | _ => True

def Rounded (schema : Schema) : Node → Prop
  | .numbers values => ∀ value ∈ values, value.toPlaces schema.places = value
  | _ => True

/-- A node that resolution leaves as it is, but for its references. -/
structure Settled (schema : Schema) (node : Node) : Prop where
  anonymous : schema.Anonymous node
  rounded : schema.Rounded node

end Schema

variable {schema : Schema} {document : Document}

theorem UnfoldsFields.anonymous {fields outs : List (String × Node)}
    (h : UnfoldsFields schema document fields outs) : ∀ out ∈ outs, out.1 ∉ schema.identity := by
  match h with
  | .nil => exact fun _ hm => absurd hm List.not_mem_nil
  | .dropped _ hr => exact hr.anonymous
  | .kept hn _ _ hr => exact List.forall_mem_cons.mpr ⟨hn, hr.anonymous⟩
  | .inlined hn _ _ _ _ _ hr => exact List.forall_mem_cons.mpr ⟨hn, hr.anonymous⟩

/-- Whatever a node is made of is settled: rounding a second time changes nothing. -/
theorem carries_settled (hplaces : schema.places ≤ 15) :
    Carries schema document (fun _ => True) schema.Settled where
  child _ _ := trivial
  target _ := trivial
  made _ h := by
    cases h with
    | object hf => exact ⟨hf.anonymous, trivial⟩
    | numbers hr =>
      refine ⟨trivial, fun value hm => ?_⟩
      obtain ⟨x, -, hx⟩ := exists_of_mem_right (mapM_eq_some_iff.mp hr) hm
      rw [Binary.eq_toPlaces_of_toPlaces? hx]
      exact Binary.toPlaces_toPlaces hplaces x
    | strings => exact ⟨trivial, trivial⟩
    | mixed _ => exact ⟨trivial, trivial⟩
    | scalar => exact ⟨trivial, trivial⟩

mutual

/-- A settled tree unfolds to itself in any document when there are no references to follow. -/
theorem Unfolds.self (hplaces : schema.places ≤ Binary.maxPlaces) (document : Document)
    {node : Node} (h : node.Everywhere schema.Settled) :
    Unfolds schema.withoutReferences document node node := by
  cases node with
  | object fields =>
    exact .object (UnfoldsFields.self hplaces document h.here.anonymous fun _ hm => h.field hm)
  | numbers values =>
    refine .numbers (mapM_eq_some_iff.mpr (List.forall₂_same.mpr fun value hm => ?_))
    exact (Binary.toPlaces?_of_le hplaces value).trans (congrArg some (h.here.rounded value hm))
  | strings values => exact .strings
  | mixed items => exact .mixed (UnfoldsItems.self hplaces document fun _ hm => h.item hm)
  | scalar value => exact .scalar

theorem UnfoldsItems.self (hplaces : schema.places ≤ Binary.maxPlaces) (document : Document)
    {items : List Node} (h : ∀ item ∈ items, item.Everywhere schema.Settled) :
    UnfoldsItems schema.withoutReferences document items items := by
  match items with
  | [] => exact .nil
  | item :: rest =>
    obtain ⟨hi, hr⟩ := List.forall_mem_cons.mp h
    exact .cons (Unfolds.self hplaces document hi) (UnfoldsItems.self hplaces document hr)

theorem UnfoldsFields.self (hplaces : schema.places ≤ Binary.maxPlaces) (document : Document)
    {fields : List (String × Node)} (hn : ∀ field ∈ fields, field.1 ∉ schema.identity)
    (h : ∀ field ∈ fields, field.2.Everywhere schema.Settled) :
    UnfoldsFields schema.withoutReferences document fields fields := by
  match fields with
  | [] => exact .nil
  | (name, value) :: rest =>
    obtain ⟨hfirst, hnames⟩ := List.forall_mem_cons.mp hn
    obtain ⟨hv, hr⟩ := List.forall_mem_cons.mp h
    exact .kept hfirst rfl (Unfolds.self hplaces document hv)
      (UnfoldsFields.self hplaces document hnames hr)

end

namespace Schema

/-- Resolved trees are in normal form: they have no identity fields and the tags of trees that are
read, and nothing is left to be resolved but references. -/
theorem resolve_normal_form {json : Json} {out : Node} (hplaces : schema.places ≤ 15)
    (hd : document.Parsed) (hj : json.allFinite)
    (h : schema.resolve document (.ofJson json) = .ok out) :
    out.Everywhere schema.Anonymous ∧ out.Everywhere Node.Canonical ∧
      ∀ other, schema.withoutReferences.resolve other out = .ok out := by
  have hunfolds := resolve_eq_ok_iff.mp h
  have hsettled := hunfolds.everywhere (carries_settled hplaces) trivial
  refine ⟨hsettled.mono fun _ hs => hs.anonymous,
    hunfolds.canonical hd.canonical (Node.everywhere_ofJson hj), fun other => ?_⟩
  exact resolve_eq_ok_iff.mpr (.self (hplaces.trans (by decide)) other hsettled)

def third : Double := Binary.round false 1 3

def thirdMesh : Document :=
  ⟨[("meshes", .mixed [.object [("name", .scalar (.string "cube")), ("size", .numbers [third])]])]⟩

theorem parsed_thirdMesh : thirdMesh.Parsed :=
  ⟨.obj [("meshes", .arr [.obj [("name", .str "cube"), ("size", .arr [.real third])]])],
    by decide +kernel, by rfl⟩

def thirdNode : Node := .object [("mesh", .object [("size", .numbers [third.toPlaces 12])])]

theorem resolve_normal_form_thirdMesh :
    standard.resolve thirdMesh (.ofJson (.obj [("mesh", .int 0)])) = .ok thirdNode ∧
      thirdNode.Everywhere standard.Anonymous ∧ thirdNode.Everywhere Node.Canonical ∧
      ∀ other, standard.withoutReferences.resolve other thirdNode = .ok thirdNode := by
  have hname : "name" ∈ standard.identity := by decide
  have hsize : "size" ∉ standard.identity := by decide
  have hmesh : "mesh" ∉ standard.identity := by decide
  have hmeshes : standard.collection? "mesh" = some "meshes" := by decide
  have hindex : (Node.ofIndex 0).IsIndex 0 := Node.isIndex_ofIndex (by decide)
  have hrounded : [third].mapM (Binary.toPlaces? standard.places) = some [third.toPlaces 12] := by
    rw [List.mapM_cons, Binary.toPlaces?_of_le (by decide)]
    rfl
  have h : standard.resolve thirdMesh (.ofJson (.obj [("mesh", .int 0)])) = .ok thirdNode :=
    resolve_eq_ok_iff.mpr (.object (.inlined hmesh hmeshes hindex (by rfl) rfl
      (.object (.dropped hname (.kept hsize (by decide) (.numbers hrounded) .nil))) .nil))
  exact ⟨h, resolve_normal_form (by decide) parsed_thirdMesh (by decide +kernel) h⟩

end Schema

end RenderVerdict
