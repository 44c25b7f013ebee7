import RenderVerdict.Proofs.Number.Whole
import RenderVerdict.Proofs.Scene.Trees
import RenderVerdict.Scene.Resolve

/-! The steps of resolution: what each kind of node and field leads to, and the induction that
follows the calls. -/
namespace RenderVerdict

variable {schema : Schema} {document : Document} {chain : List Entry}

def Node.IsIndex (node : Node) (index : Nat) : Prop :=
  ∃ value : Double, node = .scalar (.number value) ∧ value.isFinite ∧ value.toRat = index ∧
    index < 2 ^ 32

theorem Node.index?_eq_some_iff {node : Node} {index : Nat} :
    node.index? = some index ↔ node.IsIndex index := by
  unfold index? IsIndex
  simp only [Option.bind_eq_bind, Option.bind_eq_some_iff, Option.ite_none_right_eq_some,
    Binary.toInt?_eq_some_iff, Node.number?_eq_some_iff]
  constructor
  · rintro ⟨value, hv, z, ⟨hf, hz⟩, ⟨h0, h1⟩, hi⟩
    obtain ⟨n, rfl⟩ := Int.eq_ofNat_of_zero_le h0
    obtain rfl : n = index := Option.some.inj hi
    exact ⟨value, hv, hf, hz, by exact_mod_cast h1⟩
  · rintro ⟨value, hv, hf, hz, hi⟩
    exact ⟨value, hv, index, ⟨hf, hz⟩, ⟨by omega, by exact_mod_cast hi⟩, rfl⟩

theorem Node.IsIndex.unique {node : Node} {i j : Nat} (hi : node.IsIndex i) (hj : node.IsIndex j) :
    i = j :=
  Option.some.inj ((Node.index?_eq_some_iff.mpr hi).symm.trans (Node.index?_eq_some_iff.mpr hj))

def Node.ofIndex (index : Nat) : Node := .scalar (.number (Binary.nearest index))

theorem Node.isIndex_ofIndex {index : Nat} (h : index < 2 ^ 32) :
    (ofIndex index).IsIndex index := by
  obtain ⟨hf, hz⟩ := Binary.nearest_intCast (n := index) (by omega)
  exact ⟨_, rfl, hf, by exact_mod_cast hz, h⟩

/-- The faults of a reference: it is no index, it leads nowhere, or it leads back. -/
inductive Fault.OfReference : Fault → Prop where
  | noIndex {field collection : String} {found : Json} :
      OfReference (.malformed (.notAnIndex field collection found))
  | missing {document : Document} {entry : Entry} {cause : Malformed}
      (h : document.lookup entry = .error cause) : OfReference (.malformed cause)
  | cycle {collection : String} {index : Nat} : OfReference (.referenceCycle collection index)

/-- A fault of a reference does not tell of a document as a whole. -/
theorem Fault.OfReference.ne_malformed {cause : Malformed} (h : (malformed cause).OfReference) :
    cause ≠ .nodesMissing ∧ cause ≠ .nodesNotObjects ∧
      ∀ side name, cause ≠ .sectionMissing side name := by
  cases h with
  | noIndex => simp
  | missing h =>
    unfold Document.lookup at h
    split at h
    · cases h
      simp
    · split at h
      · cases h
        simp
      · split at h
        · cases h
          simp
        · cases h

namespace Schema

theorem resolveNode_object {fields : List (String × Node)} :
    schema.resolveNode document chain (.object fields) = do
      return .object (← schema.resolveFields document chain fields) := by
  rw [resolveNode]

theorem resolveNode_numbers_eq_ok_iff {values : List Double} {out : Node} :
    schema.resolveNode document chain (.numbers values) = .ok out ↔
      ∃ rounded, values.mapM (Binary.toPlaces? schema.places) = some rounded ∧
        out = .numbers rounded := by
  rw [resolveNode]
  cases values.mapM (Binary.toPlaces? schema.places) with
  | none => simp
  | some rounded => simp [eq_comm]

theorem resolveNode_strings {values : List String} :
    schema.resolveNode document chain (.strings values) = .ok (.strings values) := by
  rw [resolveNode]

theorem resolveNode_mixed {items : List Node} :
    schema.resolveNode document chain (.mixed items) = do
      return .mixed (← schema.resolveItems document chain items) := by
  rw [resolveNode]

theorem resolveNode_scalar {value : Scalar} :
    schema.resolveNode document chain (.scalar value) = .ok (.scalar value) := by
  rw [resolveNode]

theorem resolveItems_nil : schema.resolveItems document chain [] = .ok [] := by
  rw [resolveItems]

theorem resolveItems_cons {item : Node} {rest : List Node} :
    schema.resolveItems document chain (item :: rest) = do
      let out ← schema.resolveNode document chain item
      return out :: (← schema.resolveItems document chain rest) := by
  rw [resolveItems]

theorem resolveFields_nil : schema.resolveFields document chain [] = .ok [] := by
  rw [resolveFields]

variable {name collection : String} {value : Node} {rest : List (String × Node)}

theorem resolveFields_dropped (hn : name ∈ schema.identity) :
    schema.resolveFields document chain ((name, value) :: rest) =
      schema.resolveFields document chain rest := by
  rw [resolveFields, if_pos hn]

theorem resolveFields_kept (hn : name ∉ schema.identity) (hc : schema.collection? name = none) :
    schema.resolveFields document chain ((name, value) :: rest) = do
      let out ← schema.resolveNode document chain value
      return (name, out) :: (← schema.resolveFields document chain rest) := by
  rw [resolveFields, if_neg hn, hc]

theorem resolveFields_inlined (hn : name ∉ schema.identity)
    (hc : schema.collection? name = some collection) :
    schema.resolveFields document chain ((name, value) :: rest) = do
      let out ← schema.inline document chain name collection value
      return (name, out) :: (← schema.resolveFields document chain rest) := by
  rw [resolveFields, if_neg hn, hc]

theorem inline_new {index : Nat} {target : Node} (hi : value.IsIndex index)
    (hnew : ⟨collection, index⟩ ∉ chain) (ht : document.lookup ⟨collection, index⟩ = .ok target) :
    schema.inline document chain name collection value =
      schema.resolveNode document (⟨collection, index⟩ :: chain) target := by
  rw [inline, Node.index?_eq_some_iff.mpr hi]
  simp only [hnew, ↓reduceDIte]
  split
  · next cause hc => rw [ht] at hc; cases hc
  · next other hother => rw [ht] at hother; cases hother; rfl

theorem inline_again {index : Nat} (hi : value.IsIndex index) (h : ⟨collection, index⟩ ∈ chain) :
    schema.inline document chain name collection value =
      .error (.fault (.referenceCycle collection index)) := by
  rw [inline, Node.index?_eq_some_iff.mpr hi]
  simp only [h, ↓reduceDIte]

theorem inline_no_index (hi : value.index? = none) :
    schema.inline document chain name collection value =
      .error (.fault (.malformed (.notAnIndex name collection value.toJson))) := by
  rw [inline, hi]

theorem inline_missing {index : Nat} {cause : Malformed} (hi : value.IsIndex index)
    (hnew : ⟨collection, index⟩ ∉ chain)
    (hc : document.lookup ⟨collection, index⟩ = .error cause) :
    schema.inline document chain name collection value = .error (.fault (.malformed cause)) := by
  rw [inline, Node.index?_eq_some_iff.mpr hi]
  simp only [hnew, ↓reduceDIte]
  split
  · next other ho => rw [hc] at ho; cases ho; rfl
  · next target ht => rw [hc] at ht; cases ht

/-- A reference leads to an entry that is on the chain already, to one that is inlined, or to a
malformed document. -/
theorem inline_cases (schema : Schema) (document : Document) (chain : List Entry)
    (name collection : String) (value : Node) :
    (∃ index, value.IsIndex index ∧ ⟨collection, index⟩ ∈ chain) ∨
    (∃ index target, value.IsIndex index ∧ ⟨collection, index⟩ ∉ chain ∧
      document.lookup ⟨collection, index⟩ = .ok target) ∨
    ∃ cause, Fault.OfReference (.malformed cause) ∧
      schema.inline document chain name collection value =
        .error (.fault (.malformed cause)) := by
  cases hi : value.index? with
  | none => exact .inr (.inr ⟨_, .noIndex, inline_no_index hi⟩)
  | some index =>
    have hi' := Node.index?_eq_some_iff.mp hi
    by_cases hnew : ⟨collection, index⟩ ∈ chain
    · exact .inl ⟨index, hi', hnew⟩
    · cases ht : document.lookup ⟨collection, index⟩ with
      | ok target => exact .inr (.inl ⟨index, target, hi', hnew, ht⟩)
      | error cause => exact .inr (.inr ⟨cause, .missing ht, inline_missing hi' hnew ht⟩)

/-- A reference is inlined when it points at an entry that exists and is not on the chain. -/
theorem inline_eq_ok_iff {out : Node} :
    schema.inline document chain name collection value = .ok out ↔
      ∃ index target, value.IsIndex index ∧ ⟨collection, index⟩ ∉ chain ∧
        document.lookup ⟨collection, index⟩ = .ok target ∧
        schema.resolveNode document (⟨collection, index⟩ :: chain) target = .ok out := by
  constructor
  · intro h
    rcases inline_cases schema document chain name collection value with
      ⟨index, hi, hmem⟩ | ⟨index, target, hi, hnew, ht⟩ | ⟨cause, -, hc⟩
    · rw [inline_again hi hmem] at h
      cases h
    · rw [inline_new hi hnew ht] at h
      exact ⟨index, target, hi, hnew, ht, h⟩
    · rw [hc] at h
      cases h
  · rintro ⟨index, target, hi, hnew, ht, h⟩
    rw [inline_new hi hnew ht]
    exact h

/-- Induction along the calls of a resolution. A reference leads on to the entry that it points
at, with that entry on the chain. -/
theorem resolution_induction (schema : Schema) (document : Document)
    {onNode : List Entry → Node → Prop} {onItems : List Entry → List Node → Prop}
    {onFields : List Entry → List (String × Node) → Prop}
    (object : ∀ chain fields, onFields chain fields → onNode chain (.object fields))
    (numbers : ∀ chain values, onNode chain (.numbers values))
    (strings : ∀ chain values, onNode chain (.strings values))
    (mixed : ∀ chain items, onItems chain items → onNode chain (.mixed items))
    (scalar : ∀ chain value, onNode chain (.scalar value))
    (noItems : ∀ chain, onItems chain [])
    (item : ∀ chain item rest, onNode chain item → onItems chain rest →
      onItems chain (item :: rest))
    (noFields : ∀ chain, onFields chain [])
    (dropped : ∀ chain name value rest, name ∈ schema.identity → onFields chain rest →
      onFields chain ((name, value) :: rest))
    (kept : ∀ chain name value rest, name ∉ schema.identity → schema.collection? name = none →
      onNode chain value → onFields chain rest → onFields chain ((name, value) :: rest))
    (inlined : ∀ chain name value rest collection, name ∉ schema.identity →
      schema.collection? name = some collection →
      (∀ index target, value.IsIndex index → ⟨collection, index⟩ ∉ chain →
        document.lookup ⟨collection, index⟩ = .ok target →
        onNode (⟨collection, index⟩ :: chain) target) →
      onFields chain rest → onFields chain ((name, value) :: rest)) :
    (∀ chain node, onNode chain node) ∧ (∀ chain items, onItems chain items) ∧
      ∀ chain fields, onFields chain fields := by
  have h := resolveNode.mutual_induct schema document onNode onItems onFields
    (fun chain _ collection value => ∀ index target, value.IsIndex index →
      ⟨collection, index⟩ ∉ chain → document.lookup ⟨collection, index⟩ = .ok target →
      onNode (⟨collection, index⟩ :: chain) target)
    object (fun chain values _ _ => numbers chain values)
    (fun chain values _ => numbers chain values) strings mixed scalar noItems item noFields dropped
    (fun chain name value rest hn collection hc hr hv =>
      inlined chain name value rest collection hn hc hv hr)
    (fun chain name value rest hn hc hr hv => kept chain name value rest hn hc hv hr)
    ?noIndex ?again ?missing ?new
  · exact ⟨h.1, h.2.1, h.2.2.1⟩
  case noIndex =>
    intro chain field collection value hnone index target hi
    rw [Node.index?_eq_some_iff.mpr hi] at hnone
    cases hnone
  case again =>
    intro chain field collection value index hi hmem other target hother hnew
    rw [hother.unique (Node.index?_eq_some_iff.mp hi)] at hnew
    exact absurd hmem hnew
  case missing =>
    intro chain field collection value index hi hnew cause hc other target hother _ ht
    rw [hother.unique (Node.index?_eq_some_iff.mp hi), hc] at ht
    cases ht
  case new =>
    intro chain field collection value index hi hnew target ht ih other target' hother _ ht'
    obtain rfl := hother.unique (Node.index?_eq_some_iff.mp hi)
    obtain rfl := Except.ok.inj (ht.symm.trans ht')
    exact ih

end Schema

end RenderVerdict
