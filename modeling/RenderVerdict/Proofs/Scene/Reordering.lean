import RenderVerdict.Proofs.Scene.Comparison

/-! Normalization does not depend on where a document keeps the entries of its collections nor on
the order of its nodes. -/
namespace RenderVerdict

def Schema.target? (schema : Schema) (document : Document) (name : String) (value : Node) :
    Option Entry :=
  if name ∈ schema.identity then none
  else do
    let collection ← schema.collection? name
    let index ← value.index?
    match (schema.contextOf document).lookup ⟨collection, index⟩ with
    | .ok _ => some ⟨collection, index⟩
    | .error _ => none

namespace Node

mutual

/-- The tree with the index in each field that points at an entry of a document replaced: `f` says
for each collection where its entries go. -/
def reindex (schema : Schema) (document : Document) (f : String → Nat → Nat) : Node → Node
  | .object fields => .object (reindexFields schema document f fields)
  | .mixed items => .mixed (reindexItems schema document f items)
  | node => node

def reindexItems (schema : Schema) (document : Document) (f : String → Nat → Nat) :
    List Node → List Node
  | [] => []
  | item :: rest => reindex schema document f item :: reindexItems schema document f rest

def reindexFields (schema : Schema) (document : Document) (f : String → Nat → Nat) :
    List (String × Node) → List (String × Node)
  | [] => []
  | (name, value) :: rest =>
    let moved := match schema.target? document name value with
      | some entry => ofIndex (f entry.collection entry.index)
      | none => reindex schema document f value
    (name, moved) :: reindexFields schema document f rest

end

def elements? : Node → Option (List Node)
  | .numbers values => some (values.map fun value => .scalar (.number value))
  | .strings values => some (values.map fun text => .scalar (.string text))
  | .mixed items => some items
  | _ => none

end Node

def Document.nodes? (document : Document) : Option (List Node) :=
  (document.find? "nodes").bind Node.elements?

/-- Every entry that references can point at stands, reindexed, in the other document where `f`
says. -/
def Relocates (schema : Schema) (f : String → Nat → Nat) (document other : Document) : Prop :=
  ∀ field collection index entry, schema.collection? field = some collection →
    collection ≠ schema.payload → collection ≠ "nodes" →
    document.lookup ⟨collection, index⟩ = .ok entry →
      f collection index < 2 ^ 32 ∧
        other.lookup ⟨collection, f collection index⟩ = .ok (entry.reindex schema document f)

variable {schema : Schema} {document other : Document} {f : String → Nat → Nat}

theorem Schema.lookup_contextOf {collection : String} {index : Nat} {entry : Node} :
    (schema.contextOf document).lookup ⟨collection, index⟩ = .ok entry ↔
      collection ≠ "nodes" ∧ collection ≠ schema.payload ∧
        document.lookup ⟨collection, index⟩ = .ok entry := by
  simp only [Document.lookup_eq_ok_iff, find?_contextOf, Option.ite_none_left_eq_some, not_or]
  constructor
  · rintro ⟨items, ⟨⟨hn, hp⟩, hi⟩, he⟩
    exact ⟨hn, hp, items, hi, he⟩
  · rintro ⟨hn, hp, items, hi, he⟩
    exact ⟨items, ⟨⟨hn, hp⟩, hi⟩, he⟩

theorem Schema.target?_eq_some {name collection : String} {value entry : Node} {index : Nat}
    (hn : name ∉ schema.identity) (hc : schema.collection? name = some collection)
    (hi : value.IsIndex index)
    (ht : (schema.contextOf document).lookup ⟨collection, index⟩ = .ok entry) :
    schema.target? document name value = some ⟨collection, index⟩ := by
  simp [target?, hn, hc, Node.index?_eq_some_iff.mpr hi, ht]

theorem Schema.target?_of_kept {name : String} {value : Node}
    (hc : schema.collection? name = none) : schema.target? document name value = none := by
  simp [target?, hc]

mutual

/-- A reindexed tree unfolds in the other document to what the tree unfolds to in the first. -/
theorem Unfolds.reindex {node out : Node} (h : Unfolds schema (schema.contextOf document) node out)
    (hf : Relocates schema f document other) :
    Unfolds schema (schema.contextOf other) (node.reindex schema document f) out := by
  match h with
  | .object hfields => exact .object (hfields.reindex hf)
  | .numbers hr => exact .numbers hr
  | .strings => exact .strings
  | .mixed hi => exact .mixed (hi.reindex hf)
  | .scalar => exact .scalar

theorem UnfoldsItems.reindex {items outs : List Node}
    (h : UnfoldsItems schema (schema.contextOf document) items outs)
    (hf : Relocates schema f document other) :
    UnfoldsItems schema (schema.contextOf other) (Node.reindexItems schema document f items)
      outs := by
  match h with
  | .nil => exact .nil
  | .cons hi hrest => exact .cons (hi.reindex hf) (hrest.reindex hf)

theorem UnfoldsFields.reindex {fields outs : List (String × Node)}
    (h : UnfoldsFields schema (schema.contextOf document) fields outs)
    (hf : Relocates schema f document other) :
    UnfoldsFields schema (schema.contextOf other) (Node.reindexFields schema document f fields)
      outs := by
  match h with
  | .nil => exact .nil
  | .dropped hn hrest => exact .dropped hn (hrest.reindex hf)
  | .kept hn hc hv hrest =>
    rw [Node.reindexFields, Schema.target?_of_kept hc]
    exact .kept hn hc (hv.reindex hf) (hrest.reindex hf)
  | @UnfoldsFields.inlined _ _ name value collection index items target _ rest _ hn hc hi hd he hv
      hrest =>
    -- The derivation below the entry is one of the entry's own tree: no chains are compared, so it
    -- does not matter which entries `f` sends to one.
    have ht : (schema.contextOf document).lookup ⟨collection, index⟩ = .ok target :=
      Document.lookup_eq_ok_iff.mpr ⟨items, hd, he⟩
    obtain ⟨hnodes, hpayload, hentry⟩ := Schema.lookup_contextOf.mp ht
    obtain ⟨hlt, hmoved⟩ := hf _ _ _ _ hc hpayload hnodes hentry
    obtain ⟨items, hd', he'⟩ := Document.lookup_eq_ok_iff.mp
      (Schema.lookup_contextOf.mpr ⟨hnodes, hpayload, hmoved⟩)
    rw [Node.reindexFields, Schema.target?_eq_some hn hc hi ht]
    exact .inlined hn hc (Node.isIndex_ofIndex hlt) hd' he' (hv.reindex hf) (hrest.reindex hf)

end

theorem Node.number?_reindex (node : Node) :
    (node.reindex schema document f).number? = node.number? := by
  cases node <;> rfl

theorem Node.string?_reindex (node : Node) :
    (node.reindex schema document f).string? = node.string? := by
  cases node <;> rfl

/-- Reindexed elements in any order make an array of the same tag. -/
theorem Node.canonical_of_perm {items others : List Node}
    (h : items = [] ∨ (mixed items).Canonical)
    (hp : others.Perm (items.map (reindex schema document f))) :
    others = [] ∨ (mixed others).Canonical := by
  rcases h with rfl | ⟨⟨item, hm, hnumber⟩, ⟨item', hm', hstring⟩⟩
  · exact .inl hp.eq_nil
  · exact .inr ⟨⟨_, hp.mem_iff.mpr (List.mem_map_of_mem hm), item.number?_reindex.trans hnumber⟩,
      ⟨_, hp.mem_iff.mpr (List.mem_map_of_mem hm'), item'.string?_reindex.trans hstring⟩⟩

/-- A canonical document has nodes to normalize when it has an array of them that holds neither
numbers only nor strings only. -/
theorem Schema.nodesOf?_eq_some_iff {nodes : List Node} (hd : document.Canonical) :
    schema.nodesOf? document = some nodes ↔ schema.payload ≠ "nodes" ∧
      document.nodes? = some nodes ∧ (nodes = [] ∨ (Node.mixed nodes).Canonical) := by
  rw [nodesOf?_cases]
  constructor
  · rintro ⟨hp, hn | ⟨hn, rfl⟩⟩
    · refine ⟨hp.symm, ?_, .inr (hd _ _ hn).here⟩
      rw [Document.nodes?, hn]
      rfl
    · refine ⟨hp.symm, ?_, .inl rfl⟩
      rw [Document.nodes?, hn]
      rfl
  · rintro ⟨hp, hn, htag⟩
    obtain ⟨root, hroot, helements⟩ := Option.bind_eq_some_iff.mp hn
    refine ⟨hp.symm, ?_⟩
    cases root with
    | mixed items =>
      obtain rfl := Option.some.inj helements
      exact .inl hroot
    | numbers values =>
      obtain rfl := Option.some.inj helements
      rcases htag with hnil | ⟨⟨item, hm, hnumber⟩, -⟩
      · obtain rfl := List.map_eq_nil_iff.mp hnil
        exact .inr ⟨hroot, rfl⟩
      · obtain ⟨_, -, rfl⟩ := List.mem_map.mp hm
        cases hnumber
    | strings texts =>
      obtain rfl := Option.some.inj helements
      rcases htag with hnil | ⟨-, ⟨item, hm, hstring⟩⟩
      · exact absurd (List.map_eq_nil_iff.mp hnil) (hd _ _ hroot).here
      · obtain ⟨_, -, rfl⟩ := List.mem_map.mp hm
        cases hstring
    | _ => cases helements

theorem StructureReport.isMatch_swap (report : StructureReport) :
    report.swap.isMatch = report.isMatch := by
  simp [isMatch, swap]

namespace Schema

/-- A document that keeps its entries and nodes in another order normalizes to the same nodes, in
the order of its own, and matches the document when their scalar sections are the same. -/
theorem normalize_reordered {nodes others : List Node} {normal : NormalDocument} {n : Nat}
    {σ : Equiv.Perm (Fin n)} (hd : document.Parsed) (ho : other.Parsed)
    (hnormal : schema.normalize document = .ok normal) (hf : Relocates schema f document other)
    (hnodes : document.nodes? = some nodes) (hothers : other.nodes? = some others)
    (hσ : Reordered σ (nodes.map (Node.reindex schema document f)) others) :
    ∃ moved, schema.normalize other = .ok moved ∧ Reordered σ normal.nodes moved.nodes ∧
      ((∀ name ∈ schema.scalarSections, ∃ a b, moved.find? name = some a ∧
          normal.find? name = some b ∧ a.same b) →
        (∃ report, schema.compare other document = .ok report ∧ report.isMatch) ∧
          ∃ report, schema.compare document other = .ok report ∧ report.isMatch) := by
  obtain ⟨nodes', hnodes', -, hu⟩ := normalize_eq_ok_iff.mp hnormal
  obtain ⟨hp, hnodes'', htag⟩ := (nodesOf?_eq_some_iff hd.canonical).mp hnodes'
  obtain rfl := Option.some.inj (hnodes.symm.trans hnodes'')
  have hu' : List.Forall₂ (Unfolds schema (schema.contextOf other))
      (nodes.map (Node.reindex schema document f)) normal.nodes :=
    List.forall₂_map_left_iff.mpr (hu.imp fun _ _ h => h.reindex hf)
  obtain ⟨outs, houts, hσ'⟩ := hσ.forall₂ hu'
  have hmoved : schema.normalize other = .ok ⟨schema.contextOf other, outs⟩ :=
    normalize_eq_ok_iff.mpr ⟨others, (nodesOf?_eq_some_iff ho.canonical).mpr
      ⟨hp, hothers, Node.canonical_of_perm htag hσ.perm⟩, rfl, houts⟩
  refine ⟨_, hmoved, hσ', fun hsections => ?_⟩
  have hcanonical := (canonical_normalize hd.canonical hnormal).2
  have hmatch : Matches schema ⟨schema.contextOf other, outs⟩ normal :=
    ⟨hsections, normal.nodes, hσ'.perm, List.forall₂_same.mpr fun node hm =>
      Node.same_self (hcanonical node hm)⟩
  obtain ⟨report, hreport, hm⟩ := (compare_matches_iff ho.canonical hmoved hnormal).mpr hmatch
  exact ⟨⟨report, hreport, hm⟩, report.swap, compare_swap hreport, report.isMatch_swap ▸ hm⟩

def twoMeshes (first second : String) : Document :=
  ⟨[("meshes", .strings [first, second]),
    ("nodes", .mixed [.object [("mesh", .ofIndex 0)], .object [("mesh", .ofIndex 1)]]),
    ("scene", .scalar (.string "day"))]⟩

def twoMeshesJson (first second : String) : Json :=
  .obj [("meshes", .arr [.str first, .str second]),
    ("nodes", .arr [.obj [("mesh", .int 0)], .obj [("mesh", .int 1)]]), ("scene", .str "day")]

def meshNode (text : String) : Node := .object [("mesh", .scalar (.string text))]

theorem normalize_twoMeshes (first second : String) :
    brief.normalize (twoMeshes first second) = .ok ⟨brief.contextOf (twoMeshes first second),
      [meshNode first, meshNode second]⟩ := by
  have hkept : "mesh" ∉ brief.identity := by decide
  have hmesh : brief.collection? "mesh" = some "meshes" := by decide
  have h0 : (Node.ofIndex 0).IsIndex 0 := Node.isIndex_ofIndex (by decide)
  have h1 : (Node.ofIndex 1).IsIndex 1 := Node.isIndex_ofIndex (by decide)
  exact normalize_eq_ok_iff.mpr ⟨_, by rfl, rfl,
    .cons (.object (.inlined hkept hmesh h0 (by rfl) rfl .scalar .nil))
      (.cons (.object (.inlined hkept hmesh h1 (by rfl) rfl .scalar .nil)) .nil)⟩

theorem relocates_twoMeshes (first second : String) :
    Relocates brief (fun _ index => 1 - index) (twoMeshes first second)
      (twoMeshes second first) := by
  intro field collection index entry _ _ hn hl
  obtain ⟨items, hi, he⟩ := Document.lookup_eq_ok_iff.mp hl
  refine ⟨(by omega : 1 - index < 2 ^ 32), ?_⟩
  by_cases hm : collection = "meshes"
  · subst hm
    obtain rfl := Option.some.inj hi
    match index, he with
    | 0, he => cases he; rfl
    | 1, he => cases he; rfl
  · by_cases hs : collection = "scene"
    · subst hs
      obtain rfl := Option.some.inj hi
      cases he
    · rw [Document.find?, twoMeshes, Fields.find?_cons, Fields.find?_cons, Fields.find?_cons,
        if_neg hm, if_neg hn, if_neg hs] at hi
      cases hi

theorem reindex_twoMeshes (first second : String) {index : Nat} (h : index < 2) :
    Node.reindex brief (twoMeshes first second) (fun _ index => 1 - index)
      (.object [("mesh", .ofIndex index)]) = .object [("mesh", .ofIndex (1 - index))] := by
  obtain ⟨entry, ht⟩ : ∃ entry, (brief.contextOf (twoMeshes first second)).lookup
      ⟨"meshes", index⟩ = .ok entry := by
    match index, h with
    | 0, _ => exact ⟨_, rfl⟩
    | 1, _ => exact ⟨_, rfl⟩
  have hkept : "mesh" ∉ brief.identity := by decide
  have he := target?_eq_some hkept (by decide) (Node.isIndex_ofIndex (by omega)) ht
  rw [Node.reindex, Node.reindexFields, he]
  rfl

theorem normalize_reordered_twoMeshes :
    Reordered (Equiv.swap 0 1 : Equiv.Perm (Fin 2)) [meshNode "cube", meshNode "ball"]
      [meshNode "ball", meshNode "cube"] ∧
    ∃ report, brief.compare (twoMeshes "ball" "cube") (twoMeshes "cube" "ball") = .ok report ∧
      report.isMatch := by
  have hcube : (twoMeshes "cube" "ball").Parsed :=
    ⟨twoMeshesJson "cube" "ball", by decide +kernel, by rfl⟩
  have hball : (twoMeshes "ball" "cube").Parsed :=
    ⟨twoMeshesJson "ball" "cube", by decide +kernel, by rfl⟩
  have hσ : Reordered (Equiv.swap 0 1 : Equiv.Perm (Fin 2))
      ([.object [("mesh", .ofIndex 0)], .object [("mesh", .ofIndex 1)]].map
        (Node.reindex brief (twoMeshes "cube" "ball") fun _ index => 1 - index))
      [.object [("mesh", .ofIndex 0)], .object [("mesh", .ofIndex 1)]] := by
    refine ⟨fun k => .object [("mesh", .ofIndex (1 - k))], ?_, by rfl⟩
    simp [reindex_twoMeshes, List.ofFn_succ]
  obtain ⟨moved, hm, hσ, h⟩ := normalize_reordered hcube hball (normalize_twoMeshes "cube" "ball")
    (relocates_twoMeshes "cube" "ball") (by rfl) (by rfl) hσ
  obtain rfl := Except.ok.inj ((normalize_twoMeshes "ball" "cube").symm.trans hm)
  refine ⟨hσ, (h ?_).1⟩
  intro name hmem
  obtain rfl := List.mem_singleton.mp hmem
  exact ⟨_, _, by rfl, by rfl, by rfl⟩

end Schema

end RenderVerdict
