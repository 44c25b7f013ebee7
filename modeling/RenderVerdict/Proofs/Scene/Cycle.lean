import Mathlib.Logic.Relation
import RenderVerdict.Proofs.Scene.Unfolding

/-! The graph of references and the cycle check: resolution ends in a cycle only where the graph has
one, and finds every unfolding that exists. -/
namespace RenderVerdict

open Relation

/-- A node refers to an entry: it holds the entry's index in a reference field that no identity
field and no other reference field hides. -/
inductive Refers (schema : Schema) : Node → Entry → Prop
  | index {fields name value collection index} : (name, value) ∈ fields → name ∉ schema.identity →
      schema.collection? name = some collection → value.IsIndex index →
      Refers schema (.object fields) ⟨collection, index⟩
  | field {fields name value entry} : (name, value) ∈ fields → name ∉ schema.identity →
      schema.collection? name = none → Refers schema value entry →
      Refers schema (.object fields) entry
  | item {items item entry} : item ∈ items → Refers schema item entry →
      Refers schema (.mixed items) entry

def Leads (schema : Schema) (document : Document) (entry other : Entry) : Prop :=
  ∃ target, document.lookup entry = .ok target ∧ Refers schema target other

def Reaches (schema : Schema) (document : Document) (node : Node) (entry : Entry) : Prop :=
  ∃ first, Refers schema node first ∧ ReflTransGen (Leads schema document) first entry

def OnCycle (schema : Schema) (document : Document) (entry : Entry) : Prop :=
  TransGen (Leads schema document) entry entry

variable {schema : Schema} {document : Document} {entry : Entry}

theorem Refers.of_rest {field : String × Node} {rest : List (String × Node)}
    (h : Refers schema (.object rest) entry) : Refers schema (.object (field :: rest)) entry := by
  cases h with
  | index hm hn hc hi => exact .index (List.mem_cons_of_mem _ hm) hn hc hi
  | field hm hn hc hv => exact .field (List.mem_cons_of_mem _ hm) hn hc hv

theorem Refers.of_items {item : Node} {rest : List Node} (h : Refers schema (.mixed rest) entry) :
    Refers schema (.mixed (item :: rest)) entry := by
  cases h with
  | item hm hi => exact .item (List.mem_cons_of_mem _ hm) hi

/-- A reference of an object is one of its first field or one of the others. -/
theorem Refers.cons_cases {name : String} {value : Node} {rest : List (String × Node)}
    (h : Refers schema (.object ((name, value) :: rest)) entry) :
    (name ∉ schema.identity ∧ ∃ index, schema.collection? name = some entry.collection ∧
      value.IsIndex index ∧ entry.index = index) ∨
    (name ∉ schema.identity ∧ schema.collection? name = none ∧ Refers schema value entry) ∨
    Refers schema (.object rest) entry := by
  cases h with
  | index hm hn hc hi =>
    rcases List.mem_cons.mp hm with he | hm
    · cases he
      exact .inl ⟨hn, _, hc, hi, rfl⟩
    · exact .inr (.inr (.index hm hn hc hi))
  | field hm hn hc hv =>
    rcases List.mem_cons.mp hm with he | hm
    · cases he
      exact .inr (.inl ⟨hn, hc, hv⟩)
    · exact .inr (.inr (.field hm hn hc hv))

theorem Refers.item_cases {item : Node} {rest : List Node}
    (h : Refers schema (.mixed (item :: rest)) entry) :
    Refers schema item entry ∨ Refers schema (.mixed rest) entry := by
  cases h with
  | item hm hi =>
    rcases List.mem_cons.mp hm with rfl | hm
    · exact .inl hi
    · exact .inr (.item hm hi)

theorem Reaches.mono {node part : Node} (h : Reaches schema document part entry)
    (hp : ∀ other, Refers schema part other → Refers schema node other) :
    Reaches schema document node entry := by
  obtain ⟨first, hr, hpath⟩ := h
  exact ⟨first, hp first hr, hpath⟩

/-- An entry on a cycle leads to an entry on a cycle. -/
theorem OnCycle.leads (h : OnCycle schema document entry) :
    ∃ other, Leads schema document entry other ∧ OnCycle schema document other := by
  obtain ⟨other, hl, hr⟩ := TransGen.head'_iff.mp h
  exact ⟨other, hl, TransGen.tail' hr hl⟩

mutual

/-- What has an unfolding refers to no entry on a cycle. -/
theorem Unfolds.not_onCycle {node out : Node} {entry : Entry}
    (h : Unfolds schema document node out) (hr : Refers schema node entry) :
    ¬ OnCycle schema document entry := by
  match h with
  | .object hf => exact hf.not_onCycle hr
  | .numbers _ => cases hr
  | .strings => cases hr
  | .mixed hi => exact hi.not_onCycle hr
  | .scalar => cases hr

theorem UnfoldsItems.not_onCycle {items outs : List Node} {entry : Entry}
    (h : UnfoldsItems schema document items outs) (hr : Refers schema (.mixed items) entry) :
    ¬ OnCycle schema document entry := by
  match h with
  | .nil => cases hr with | item hm => cases hm
  | .cons hi hrest =>
    rcases hr.item_cases with hr | hr
    · exact hi.not_onCycle hr
    · exact hrest.not_onCycle hr

theorem UnfoldsFields.not_onCycle {fields outs : List (String × Node)} {entry : Entry}
    (h : UnfoldsFields schema document fields outs) (hr : Refers schema (.object fields) entry) :
    ¬ OnCycle schema document entry := by
  match h with
  | .nil => cases hr with
    | index hm => cases hm
    | field hm => cases hm
  | .dropped hn hrest =>
    rcases hr.cons_cases with ⟨kn, _⟩ | ⟨kn, _⟩ | hr
    · exact absurd hn kn
    · exact absurd hn kn
    · exact hrest.not_onCycle hr
  | .kept hn hc hv hrest =>
    rcases hr.cons_cases with ⟨_, _, kc, _⟩ | ⟨_, _, hr⟩ | hr
    · rw [hc] at kc
      cases kc
    · exact hv.not_onCycle hr
    · exact hrest.not_onCycle hr
  | .inlined hn hc hi hd he hv hrest =>
    rcases hr.cons_cases with ⟨_, index, kc, ki, rfl⟩ | ⟨_, kc, _⟩ | hr
    · -- On a cycle through the entry itself, what its target refers to would be on it too.
      intro hcycle
      obtain ⟨other, ⟨target', ht, hr'⟩, hcycle'⟩ := hcycle.leads
      obtain ⟨items, kd, ke⟩ := Document.lookup_eq_ok_iff.mp ht
      rw [hc] at kc
      obtain rfl := Option.some.inj kc
      rw [hi.unique ki] at he
      obtain rfl := Option.some.inj (hd.symm.trans kd)
      obtain rfl := Option.some.inj (he.symm.trans ke)
      exact hv.not_onCycle hr' hcycle'
    · rw [hc] at kc
      cases kc
    · exact hrest.not_onCycle hr

end

/-- Every entry of a chain leads, in one step or more, to all entries that a node refers to. -/
def LeadsTo (schema : Schema) (document : Document) (chain : List Entry) (node : Node) : Prop :=
  ∀ entry ∈ chain, ∀ other, Refers schema node other → TransGen (Leads schema document) entry other

theorem LeadsTo.mono {chain : List Entry} {node part : Node}
    (h : LeadsTo schema document chain node)
    (hp : ∀ other, Refers schema part other → Refers schema node other) :
    LeadsTo schema document chain part :=
  fun entry hm other hr => h entry hm other (hp other hr)

/-- An entry goes on the chain of a node that refers to it: the chain leads to what the entry's
target refers to. -/
theorem LeadsTo.push {chain : List Entry} {node target : Node}
    (h : LeadsTo schema document chain node) (hr : Refers schema node entry)
    (ht : document.lookup entry = .ok target) :
    LeadsTo schema document (entry :: chain) target := by
  intro other hm next hn
  have hl : Leads schema document entry next := ⟨target, ht, hn⟩
  rcases List.mem_cons.mp hm with rfl | hm
  · exact .single hl
  · exact (h other hm entry hr).tail hl

mutual

/-- Resolution finds the unfolding of a node when the chain leads to what the node refers to. -/
theorem Unfolds.resolveNode {chain : List Entry} {node out : Node}
    (h : Unfolds schema document node out) (hchain : LeadsTo schema document chain node) :
    schema.resolveNode document chain node = .ok out := by
  match h with
  | .object hf => rw [Schema.resolveNode_object, hf.resolveFields hchain]; rfl
  | .numbers hr => exact Schema.resolveNode_numbers_eq_ok_iff.mpr ⟨_, hr, rfl⟩
  | .strings => exact Schema.resolveNode_strings
  | .mixed hi => rw [Schema.resolveNode_mixed, hi.resolveItems hchain]; rfl
  | .scalar => exact Schema.resolveNode_scalar

theorem UnfoldsItems.resolveItems {chain : List Entry} {items outs : List Node}
    (h : UnfoldsItems schema document items outs)
    (hchain : LeadsTo schema document chain (.mixed items)) :
    schema.resolveItems document chain items = .ok outs := by
  match h with
  | .nil => exact Schema.resolveItems_nil
  | .cons hi hrest =>
    have hi' := hi.resolveNode (hchain.mono fun _ hr => .item List.mem_cons_self hr)
    have hrest' := hrest.resolveItems (hchain.mono fun _ hr => hr.of_items)
    rw [Schema.resolveItems_cons, hi', hrest']
    rfl

theorem UnfoldsFields.resolveFields {chain : List Entry} {fields outs : List (String × Node)}
    (h : UnfoldsFields schema document fields outs)
    (hchain : LeadsTo schema document chain (.object fields)) :
    schema.resolveFields document chain fields = .ok outs := by
  match h with
  | .nil => exact Schema.resolveFields_nil
  | .dropped hn hrest =>
    rw [Schema.resolveFields_dropped hn]
    exact hrest.resolveFields (hchain.mono fun _ hr => hr.of_rest)
  | .kept hn hc hv hrest =>
    have hv' := hv.resolveNode (hchain.mono fun _ hr => .field List.mem_cons_self hn hc hr)
    have hrest' := hrest.resolveFields (hchain.mono fun _ hr => hr.of_rest)
    rw [Schema.resolveFields_kept hn hc, hv', hrest']
    rfl
  | @UnfoldsFields.inlined _ _ name value collection index items target _ rest _ hn hc hi hd he hv
      hrest =>
    have hr : Refers schema (.object ((name, value) :: rest)) ⟨collection, index⟩ :=
      .index List.mem_cons_self hn hc hi
    have ht : document.lookup ⟨collection, index⟩ = .ok target :=
      Document.lookup_eq_ok_iff.mpr ⟨items, hd, he⟩
    -- The entry is not on the chain, or it would lead to itself.
    have hnew : ⟨collection, index⟩ ∉ chain := fun hm =>
      (UnfoldsFields.inlined hn hc hi hd he hv hrest).not_onCycle hr (hchain _ hm _ hr)
    have hv' := hv.resolveNode (hchain.push hr ht)
    have hrest' := hrest.resolveFields (hchain.mono fun _ hr => hr.of_rest)
    rw [Schema.resolveFields_inlined hn hc, Schema.inline_new hi hnew ht, hv', hrest']
    rfl

end

/-- An entry closes a cycle: it is on the chain or reaches itself. -/
def Closes (schema : Schema) (document : Document) (chain : List Entry) (entry : Entry) : Prop :=
  entry ∈ chain ∨ OnCycle schema document entry

/-- A reference whose target reaches an entry that closes a cycle. -/
theorem Closes.of_target {chain : List Entry} {first : Entry} {target : Node}
    (ht : document.lookup first = .ok target) (hr : Reaches schema document target entry)
    (h : Closes schema document (first :: chain) entry) :
    ReflTransGen (Leads schema document) first entry ∧ Closes schema document chain entry := by
  obtain ⟨next, hn, hp⟩ := hr
  have hl : Leads schema document first next := ⟨target, ht, hn⟩
  refine ⟨.head hl hp, ?_⟩
  rcases h with hm | hcycle
  · rcases List.mem_cons.mp hm with rfl | hm
    · exact .inr (.head' hl hp)
    · exact .inl hm
  · exact .inr hcycle

def cycleThrough (entry : Entry) : Stop :=
  .fault (.referenceCycle entry.collection entry.index)

namespace Schema

theorem inline_eq_cycleThrough {chain : List Entry} {name collection : String} {value : Node}
    (h : schema.inline document chain name collection value = .error (cycleThrough entry)) :
    ∃ index, value.IsIndex index ∧
      (⟨collection, index⟩ = entry ∧ entry ∈ chain ∨ ∃ target, ⟨collection, index⟩ ∉ chain ∧
        document.lookup ⟨collection, index⟩ = .ok target ∧
        schema.resolveNode document (⟨collection, index⟩ :: chain) target =
          .error (cycleThrough entry)) := by
  rcases inline_cases schema document chain name collection value with
    ⟨index, hi, hmem⟩ | ⟨index, target, hi, hnew, ht⟩ | ⟨cause, -, hc⟩
  · rw [inline_again hi hmem] at h
    obtain ⟨c, i⟩ := entry
    cases h
    exact ⟨_, hi, .inl ⟨rfl, hmem⟩⟩
  · rw [inline_new hi hnew ht] at h
    exact ⟨index, hi, .inr ⟨target, hnew, ht, h⟩⟩
  · rw [hc] at h
    cases h

/-- A cycle that resolution reports is reached from the node and closed by the graph or the
chain. -/
private theorem reported_cycle (schema : Schema) (document : Document) :
    (∀ chain node entry, schema.resolveNode document chain node = .error (cycleThrough entry) →
      Reaches schema document node entry ∧ Closes schema document chain entry) ∧
    (∀ chain items entry, schema.resolveItems document chain items = .error (cycleThrough entry) →
      Reaches schema document (.mixed items) entry ∧ Closes schema document chain entry) ∧
    (∀ chain fields entry, schema.resolveFields document chain fields =
        .error (cycleThrough entry) →
      Reaches schema document (.object fields) entry ∧ Closes schema document chain entry) := by
  apply resolution_induction schema document
  case object =>
    intro chain fields ih entry h
    rw [resolveNode_object] at h
    rcases bind_eq_error_iff.mp h with h | ⟨outs, _, h⟩
    · exact ih entry h
    · cases h
  case numbers =>
    intro chain values entry h
    rw [resolveNode] at h
    split at h <;> cases h
  case strings =>
    intro chain values entry h
    rw [resolveNode_strings] at h
    cases h
  case mixed =>
    intro chain items ih entry h
    rw [resolveNode_mixed] at h
    rcases bind_eq_error_iff.mp h with h | ⟨outs, _, h⟩
    · exact ih entry h
    · cases h
  case scalar =>
    intro chain value entry h
    rw [resolveNode_scalar] at h
    cases h
  case noItems =>
    intro chain entry h
    rw [resolveItems_nil] at h
    cases h
  case item =>
    intro chain item rest ihi ihr entry h
    rw [resolveItems_cons] at h
    rcases bind_eq_error_iff.mp h with h | ⟨out, _, h⟩
    · obtain ⟨hreach, hclose⟩ := ihi entry h
      exact ⟨hreach.mono fun _ hr => .item List.mem_cons_self hr, hclose⟩
    · rcases bind_eq_error_iff.mp h with h | ⟨outs, _, h⟩
      · obtain ⟨hreach, hclose⟩ := ihr entry h
        exact ⟨hreach.mono fun _ hr => hr.of_items, hclose⟩
      · cases h
  case noFields =>
    intro chain entry h
    rw [resolveFields_nil] at h
    cases h
  case dropped =>
    intro chain name value rest hn ih entry h
    rw [resolveFields_dropped hn] at h
    obtain ⟨hreach, hclose⟩ := ih entry h
    exact ⟨hreach.mono fun _ hr => hr.of_rest, hclose⟩
  case kept =>
    intro chain name value rest hn hc ihv ihr entry h
    rw [resolveFields_kept hn hc] at h
    rcases bind_eq_error_iff.mp h with h | ⟨out, _, h⟩
    · obtain ⟨hreach, hclose⟩ := ihv entry h
      exact ⟨hreach.mono fun _ hr => .field List.mem_cons_self hn hc hr, hclose⟩
    · rcases bind_eq_error_iff.mp h with h | ⟨outs, _, h⟩
      · obtain ⟨hreach, hclose⟩ := ihr entry h
        exact ⟨hreach.mono fun _ hr => hr.of_rest, hclose⟩
      · cases h
  case inlined =>
    intro chain name value rest collection hn hc iht ihr entry h
    rw [resolveFields_inlined hn hc] at h
    rcases bind_eq_error_iff.mp h with h | ⟨out, _, h⟩
    · obtain ⟨index, hi, ⟨rfl, hm⟩ | ⟨target, hnew, ht, h⟩⟩ := inline_eq_cycleThrough h
      · exact ⟨⟨_, .index List.mem_cons_self hn hc hi, .refl⟩, .inl hm⟩
      · obtain ⟨hreach, hclose⟩ := iht index target hi hnew ht entry h
        obtain ⟨hp, hclose⟩ := hclose.of_target ht hreach
        exact ⟨⟨_, .index List.mem_cons_self hn hc hi, hp⟩, hclose⟩
    · rcases bind_eq_error_iff.mp h with h | ⟨outs, _, h⟩
      · obtain ⟨hreach, hclose⟩ := ihr entry h
        exact ⟨hreach.mono fun _ hr => hr.of_rest, hclose⟩
      · cases h

/-- Resolution succeeds exactly where there is an unfolding. -/
theorem resolve_eq_ok_iff {subtree out : Node} :
    schema.resolve document subtree = .ok out ↔ Unfolds schema document subtree out :=
  ⟨unfolds_of_resolveNode, fun h => h.resolveNode fun _ hm => absurd hm List.not_mem_nil⟩

/-- The cycle check is exact: a subtree is resolved if and only if it has an unfolding, there is at
most one, and a cycle that is reported is one of the graph and within reach. -/
theorem resolve_exact (schema : Schema) (document : Document) (subtree : Node) :
    (∀ out, schema.resolve document subtree = .ok out ↔ Unfolds schema document subtree out) ∧
    (∀ out other, Unfolds schema document subtree out → Unfolds schema document subtree other →
      out = other) ∧
    ∀ collection index,
      schema.resolve document subtree = .error (.fault (.referenceCycle collection index)) →
        Reaches schema document subtree ⟨collection, index⟩ ∧
          OnCycle schema document ⟨collection, index⟩ := by
  refine ⟨fun out => resolve_eq_ok_iff, fun out other h k => h.unique k, ?_⟩
  intro collection index h
  obtain ⟨hreach, hm | hcycle⟩ := (reported_cycle schema document).1 [] subtree ⟨_, _⟩ h
  · cases hm
  · exact ⟨hreach, hcycle⟩

def mutualMeshes : Document :=
  ⟨[("meshes", .mixed [.object [("mesh", .ofIndex 1)], .object [("mesh", .ofIndex 0)]])]⟩

theorem resolve_exact_mutualMeshes :
    standard.resolve mutualMeshes (.object [("name", .ofIndex 7), ("mesh", .ofIndex 0)]) =
        .error (.fault (.referenceCycle "meshes" 0)) ∧
      Reaches standard mutualMeshes (.object [("name", .ofIndex 7), ("mesh", .ofIndex 0)])
        ⟨"meshes", 0⟩ ∧
      OnCycle standard mutualMeshes ⟨"meshes", 0⟩ := by
  have hname : "name" ∈ standard.identity := by decide
  have hkept : "mesh" ∉ standard.identity := by decide
  have hmesh : standard.collection? "mesh" = some "meshes" := by decide
  have h0 : mutualMeshes.lookup ⟨"meshes", 0⟩ = .ok (.object [("mesh", .ofIndex 1)]) := rfl
  have h1 : mutualMeshes.lookup ⟨"meshes", 1⟩ = .ok (.object [("mesh", .ofIndex 0)]) := rfl
  have h : standard.resolve mutualMeshes (.object [("name", .ofIndex 7), ("mesh", .ofIndex 0)]) =
      .error (.fault (.referenceCycle "meshes" 0)) := by
    rw [resolve, resolveNode_object, resolveFields_dropped hname,
      resolveFields_inlined hkept hmesh,
      inline_new (Node.isIndex_ofIndex (by decide)) (by decide) h0, resolveNode_object,
      resolveFields_inlined hkept hmesh,
      inline_new (Node.isIndex_ofIndex (by decide)) (by decide) h1, resolveNode_object,
      resolveFields_inlined hkept hmesh,
      inline_again (Node.isIndex_ofIndex (by decide)) (by decide)]
    rfl
  exact ⟨h, (resolve_exact standard mutualMeshes _).2.2 _ _ h⟩

end Schema

end RenderVerdict
