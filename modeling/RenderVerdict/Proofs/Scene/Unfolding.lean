import RenderVerdict.Proofs.Scene.Resolution

/-! Unfolding as a relation without a chain: a subtree has an unfolding when its references can be
replaced in finitely many steps. Resolution finds nothing else. -/
namespace RenderVerdict

variable {schema : Schema} {document : Document}

mutual

/-- A node unfolds to another: identity fields are left out, references are replaced by unfoldings
of the entries they point at, and arrays of numbers are rounded. -/
inductive Unfolds (schema : Schema) (document : Document) : Node → Node → Prop
  | object {fields outs} : UnfoldsFields schema document fields outs →
      Unfolds schema document (.object fields) (.object outs)
  | numbers {values rounded} : values.mapM (Binary.toPlaces? schema.places) = some rounded →
      Unfolds schema document (.numbers values) (.numbers rounded)
  | strings {values} : Unfolds schema document (.strings values) (.strings values)
  | mixed {items outs} : UnfoldsItems schema document items outs →
      Unfolds schema document (.mixed items) (.mixed outs)
  | scalar {value} : Unfolds schema document (.scalar value) (.scalar value)

inductive UnfoldsItems (schema : Schema) (document : Document) : List Node → List Node → Prop
  | nil : UnfoldsItems schema document [] []
  | cons {item out rest outs} : Unfolds schema document item out →
      UnfoldsItems schema document rest outs →
      UnfoldsItems schema document (item :: rest) (out :: outs)

inductive UnfoldsFields (schema : Schema) (document : Document) :
    List (String × Node) → List (String × Node) → Prop
  | nil : UnfoldsFields schema document [] []
  | dropped {name value rest outs} : name ∈ schema.identity →
      UnfoldsFields schema document rest outs →
      UnfoldsFields schema document ((name, value) :: rest) outs
  | kept {name value out rest outs} : name ∉ schema.identity → schema.collection? name = none →
      Unfolds schema document value out → UnfoldsFields schema document rest outs →
      UnfoldsFields schema document ((name, value) :: rest) ((name, out) :: outs)
  | inlined {name value collection index items target out rest outs} : name ∉ schema.identity →
      schema.collection? name = some collection → value.IsIndex index →
      document.find? collection = some items → items.element? index = some target →
      Unfolds schema document target out → UnfoldsFields schema document rest outs →
      UnfoldsFields schema document ((name, value) :: rest) ((name, out) :: outs)

end

mutual

/-- A node has at most one unfolding. -/
theorem Unfolds.unique {node out other : Node} (h : Unfolds schema document node out)
    (k : Unfolds schema document node other) : out = other := by
  match h with
  | .object hf => cases k with | object kf => rw [hf.unique kf]
  | .numbers hr => cases k with | numbers kr => rw [Option.some.inj (hr.symm.trans kr)]
  | .strings => cases k; rfl
  | .mixed hi => cases k with | mixed ki => rw [hi.unique ki]
  | .scalar => cases k; rfl

theorem UnfoldsItems.unique {items outs others : List Node}
    (h : UnfoldsItems schema document items outs)
    (k : UnfoldsItems schema document items others) : outs = others := by
  match h with
  | .nil => cases k; rfl
  | .cons hi hr => cases k with | cons ki kr => rw [hi.unique ki, hr.unique kr]

theorem UnfoldsFields.unique {fields outs others : List (String × Node)}
    (h : UnfoldsFields schema document fields outs)
    (k : UnfoldsFields schema document fields others) : outs = others := by
  match h with
  | .nil => cases k; rfl
  | .dropped hn hr =>
    cases k with
    | dropped _ kr => exact hr.unique kr
    | kept kn => exact absurd hn kn
    | inlined kn => exact absurd hn kn
  | .kept hn hc hv hr =>
    cases k with
    | dropped kn => exact absurd kn hn
    | kept _ _ kv kr => rw [hv.unique kv, hr.unique kr]
    | inlined _ kc => rw [hc] at kc; cases kc
  | .inlined hn hc hi hd he hv hr =>
    cases k with
    | dropped kn => exact absurd kn hn
    | kept _ kc => rw [hc] at kc; cases kc
    | inlined _ kc ki kd ke kv kr =>
      obtain rfl := Option.some.inj (hc.symm.trans kc)
      obtain rfl := hi.unique ki
      obtain rfl := Option.some.inj (hd.symm.trans kd)
      obtain rfl := Option.some.inj (he.symm.trans ke)
      rw [hv.unique kv, hr.unique kr]

end

/-- What is made of sources has a property. Sources are closed under what unfolding looks at: the
nodes below a source and all entries of the document are sources too. -/
structure Carries (schema : Schema) (document : Document) (source made : Node → Prop) : Prop where
  child {node child : Node} : source node → child ∈ node.children → source child
  target {entry : Entry} {target : Node} : document.lookup entry = .ok target → source target
  made {node out : Node} : source node → Unfolds schema document node out → made out

section Carries

variable {source made : Node → Prop}

mutual

/-- What a source unfolds to has the property everywhere. -/
theorem Unfolds.everywhere (hc : Carries schema document source made) {node out : Node}
    (h : Unfolds schema document node out) (hs : source node) : out.Everywhere made := by
  match h with
  | .object hf =>
    refine .intro (hc.made hs (.object hf)) fun child hm => ?_
    obtain ⟨field, ho, rfl⟩ := List.mem_map.mp hm
    exact hf.everywhere hc (fun field hm => hc.child hs (List.mem_map_of_mem hm)) field ho
  | .numbers hr => exact .of_leaf (hc.made hs (.numbers hr)) rfl
  | .strings => exact .of_leaf (hc.made hs .strings) rfl
  | .mixed hi =>
    exact .intro (hc.made hs (.mixed hi)) (hi.everywhere hc fun item hm => hc.child hs hm)
  | .scalar => exact .of_leaf (hc.made hs .scalar) rfl

theorem UnfoldsItems.everywhere (hc : Carries schema document source made)
    {items outs : List Node} (h : UnfoldsItems schema document items outs)
    (hs : ∀ item ∈ items, source item) : ∀ out ∈ outs, out.Everywhere made := by
  match h with
  | .nil => exact fun _ hm => absurd hm List.not_mem_nil
  | .cons hfirst hrest =>
    obtain ⟨hi, hr⟩ := List.forall_mem_cons.mp hs
    exact List.forall_mem_cons.mpr ⟨hfirst.everywhere hc hi, hrest.everywhere hc hr⟩

theorem UnfoldsFields.everywhere (hc : Carries schema document source made)
    {fields outs : List (String × Node)} (h : UnfoldsFields schema document fields outs)
    (hs : ∀ field ∈ fields, source field.2) : ∀ out ∈ outs, out.2.Everywhere made := by
  match h with
  | .nil => exact fun _ hm => absurd hm List.not_mem_nil
  | .dropped _ hrest => exact hrest.everywhere hc (List.forall_mem_cons.mp hs).2
  | .kept _ _ hv hrest =>
    obtain ⟨hf, hr⟩ := List.forall_mem_cons.mp hs
    exact List.forall_mem_cons.mpr ⟨hv.everywhere hc hf, hrest.everywhere hc hr⟩
  | .inlined _ _ _ hd he hv hrest =>
    have ht : document.lookup ⟨_, _⟩ = .ok _ := Document.lookup_eq_ok_iff.mpr ⟨_, hd, he⟩
    exact List.forall_mem_cons.mpr ⟨hv.everywhere hc (hc.target ht),
      hrest.everywhere hc (List.forall_mem_cons.mp hs).2⟩

end

end Carries

namespace Schema

/-- What resolution finds is an unfolding, whatever chain it started with. -/
private theorem resolution_unfolds (schema : Schema) (document : Document) :
    (∀ chain node out, schema.resolveNode document chain node = .ok out →
      Unfolds schema document node out) ∧
    (∀ chain items outs, schema.resolveItems document chain items = .ok outs →
      UnfoldsItems schema document items outs) ∧
    (∀ chain fields outs, schema.resolveFields document chain fields = .ok outs →
      UnfoldsFields schema document fields outs) := by
  apply resolution_induction schema document
  case object =>
    intro chain fields ih out h
    rw [resolveNode_object] at h
    obtain ⟨outs, hf, ho⟩ := bind_eq_ok_iff.mp h
    obtain rfl := pure_eq_ok_iff.mp ho
    exact .object (ih outs hf)
  case numbers =>
    intro chain values out h
    obtain ⟨rounded, hr, rfl⟩ := resolveNode_numbers_eq_ok_iff.mp h
    exact .numbers hr
  case strings =>
    intro chain values out h
    rw [resolveNode_strings] at h
    cases h
    exact .strings
  case mixed =>
    intro chain items ih out h
    rw [resolveNode_mixed] at h
    obtain ⟨outs, hi, ho⟩ := bind_eq_ok_iff.mp h
    obtain rfl := pure_eq_ok_iff.mp ho
    exact .mixed (ih outs hi)
  case scalar =>
    intro chain value out h
    rw [resolveNode_scalar] at h
    cases h
    exact .scalar
  case noItems =>
    intro chain outs h
    rw [resolveItems_nil] at h
    cases h
    exact .nil
  case item =>
    intro chain item rest ihi ihr outs h
    rw [resolveItems_cons] at h
    obtain ⟨out, hi, h⟩ := bind_eq_ok_iff.mp h
    obtain ⟨others, hr, ho⟩ := bind_eq_ok_iff.mp h
    obtain rfl := pure_eq_ok_iff.mp ho
    exact .cons (ihi out hi) (ihr others hr)
  case noFields =>
    intro chain outs h
    rw [resolveFields_nil] at h
    cases h
    exact .nil
  case dropped =>
    intro chain name value rest hn ih outs h
    rw [resolveFields_dropped hn] at h
    exact .dropped hn (ih outs h)
  case kept =>
    intro chain name value rest hn hc ihv ihr outs h
    rw [resolveFields_kept hn hc] at h
    obtain ⟨out, hv, h⟩ := bind_eq_ok_iff.mp h
    obtain ⟨others, hr, ho⟩ := bind_eq_ok_iff.mp h
    obtain rfl := pure_eq_ok_iff.mp ho
    exact .kept hn hc (ihv out hv) (ihr others hr)
  case inlined =>
    intro chain name value rest collection hn hc iht ihr outs h
    rw [resolveFields_inlined hn hc] at h
    obtain ⟨out, hv, h⟩ := bind_eq_ok_iff.mp h
    obtain ⟨others, hr, ho⟩ := bind_eq_ok_iff.mp h
    obtain rfl := pure_eq_ok_iff.mp ho
    obtain ⟨index, target, hi, hnew, ht, hv⟩ := inline_eq_ok_iff.mp hv
    obtain ⟨items, hd, he⟩ := Document.lookup_eq_ok_iff.mp ht
    exact .inlined hn hc hi hd he (iht index target hi hnew ht out hv) (ihr others hr)

theorem unfolds_of_resolveNode {chain : List Entry} {node out : Node}
    (h : schema.resolveNode document chain node = .ok out) : Unfolds schema document node out :=
  (resolution_unfolds schema document).1 chain node out h

end Schema

end RenderVerdict
