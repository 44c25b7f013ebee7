import RenderVerdict.Proofs.Scene.Cycle
import RenderVerdict.Proofs.Scene.Parsed
import RenderVerdict.Proofs.Scene.Settling

/-! Resolution as a walk in which all calls share one chain: an entry goes on it before its target
is resolved and comes off it afterwards. The walk is cut off where calls are nested too deeply, and
nothing in its definition says that they are not nested for ever. They are not: with enough calls
allowed the walk ends with what resolution finds and with the chain as it was, and no call starts
with a chain that holds an entry twice. -/
namespace RenderVerdict

structure Trail where
  /-- The entries that are being inlined, the latest first. -/
  chain : List Entry
  /-- The chains that calls have started with, the latest first. -/
  calls : List (List Entry)

namespace Trail

def call (trail : Trail) : Trail := { trail with calls := trail.chain :: trail.calls }

def push (entry : Entry) (trail : Trail) : Trail := { trail with chain := entry :: trail.chain }

/-- The latest entry comes off the chain when the work on it has returned, a result or a fault. A
number with too many places ends the program where it stands. -/
def pop {α : Type} (trail : Trail) : Except Stop α → Trail
  | .error .tooManyPlaces => trail
  | _ => { trail with chain := trail.chain.tail }

theorem pop_of_ne {α : Type} {outcome : Except Stop α} (h : outcome ≠ .error .tooManyPlaces)
    (trail : Trail) : trail.pop outcome = { trail with chain := trail.chain.tail } := by
  match outcome with
  | .ok _ => rfl
  | .error (.fault _) => rfl
  | .error .tooManyPlaces => exact absurd rfl h

end Trail

abbrev Walk := ExceptT Stop (StateT Trail Option)

namespace Schema

section Calls

variable (schema : Schema) (document : Document) (recurse : Node → Walk Node)

def walkReference (field collection : String) (value : Node) : Walk Node :=
  match value.index? with
  | none => throw (.fault (.malformed (.notAnIndex field collection value.toJson)))
  | some index => do
    if ⟨collection, index⟩ ∈ (← get).chain then
      throw (.fault (.referenceCycle collection index))
    else
      match document.lookup ⟨collection, index⟩ with
      | .error cause => throw (.fault (.malformed cause))
      | .ok target => fun trail => do
        let (outcome, after) ← recurse target (trail.push ⟨collection, index⟩)
        return (outcome, after.pop outcome)

def walkFields : List (String × Node) → Walk (List (String × Node))
  | [] => return []
  | (name, value) :: rest =>
    if name ∈ schema.identity then walkFields rest
    else do
      let out ← match schema.collection? name with
        | some collection => walkReference document recurse name collection value
        | none => recurse value
      return (name, out) :: (← walkFields rest)

def walkItems : List Node → Walk (List Node)
  | [] => return []
  | item :: rest => do
    let out ← recurse item
    return out :: (← walkItems rest)

def walkCall (node : Node) : Walk Node := do
  modify Trail.call
  match node with
  | .object fields => return .object (← schema.walkFields document recurse fields)
  | .numbers values =>
    match values.mapM (Binary.toPlaces? schema.places) with
    | some rounded => return .numbers rounded
    | none => throw .tooManyPlaces
  | .strings values => return .strings values
  | .mixed items => return .mixed (← walkItems recurse items)
  | .scalar value => return .scalar value

end Calls

def walk (schema : Schema) (document : Document) : Nat → Node → Walk Node
  | 0, _ => fun _ => none
  | depth + 1, node => schema.walkCall document (schema.walk document depth) node

def collections (schema : Schema) : List String := (schema.references.map (·.2)).dedup

end Schema

def Document.size (document : Document) (collection : String) : Nat :=
  ((document.find? collection).bind Node.length?).getD 0

/-- A chain of distinct entries that exist, all of collections that reference fields point into. -/
structure Chained (schema : Schema) (document : Document) (chain : List Entry) : Prop where
  nodup : chain.Nodup
  found : ∀ entry ∈ chain, ∃ target, document.lookup entry = .ok target
  referenced : ∀ entry ∈ chain, entry.collection ∈ schema.collections

variable {schema : Schema} {document : Document} {chain : List Entry}

theorem Document.index_lt_size {entry : Entry} {target : Node}
    (h : document.lookup entry = .ok target) : entry.index < document.size entry.collection := by
  obtain ⟨items, hi, ht⟩ := lookup_eq_ok_iff.mp h
  rw [size, hi]
  exact Node.lt_length_of_element? ht

namespace Chained

theorem nil : Chained schema document [] :=
  ⟨List.nodup_nil, fun _ hm => absurd hm List.not_mem_nil, fun _ hm => absurd hm List.not_mem_nil⟩

theorem push {entry : Entry} {target : Node} (h : Chained schema document chain)
    (hnew : entry ∉ chain) (ht : document.lookup entry = .ok target)
    (hc : entry.collection ∈ schema.collections) : Chained schema document (entry :: chain) :=
  ⟨List.nodup_cons.mpr ⟨hnew, h.nodup⟩, List.forall_mem_cons.mpr ⟨⟨target, ht⟩, h.found⟩,
    List.forall_mem_cons.mpr ⟨hc, h.referenced⟩⟩

/-- A chain is no longer than all collections that reference fields point into are together. -/
theorem length_le (h : Chained schema document chain) :
    chain.length ≤ (schema.collections.map document.size).sum := by
  let entries : List Entry := schema.collections.flatMap fun collection =>
    (List.range (document.size collection)).map fun index => ⟨collection, index⟩
  have hsubset : chain ⊆ entries := by
    intro entry hm
    obtain ⟨target, ht⟩ := h.found entry hm
    refine List.mem_flatMap.mpr ⟨entry.collection, h.referenced entry hm, ?_⟩
    exact List.mem_map.mpr ⟨entry.index, List.mem_range.mpr (Document.index_lt_size ht), rfl⟩
  have hlength : entries.length = (schema.collections.map document.size).sum := by
    simp [entries, List.length_flatMap]
  rw [← hlength]
  exact (List.subperm_of_subset h.nodup hsubset).length_le

end Chained

/-- Work that ends with an outcome: with the chain as it was, unless the program is stopped, and
after calls that all start with a chain as it should be if the work does. -/
def Ends {α : Type} (schema : Schema) (document : Document) (work : Walk α) (chain : List Entry)
    (outcome : Except Stop α) : Prop :=
  ∀ calls, ∃ after made, work ⟨chain, calls⟩ = some (outcome, ⟨after, made ++ calls⟩) ∧
    (outcome ≠ .error .tooManyPlaces → after = chain) ∧
    (Chained schema document chain → ∀ other ∈ made, Chained schema document other)

namespace Ends

variable {α β : Type} {work : Walk α} {outcome : Except Stop α}

/-- Work that makes no calls and leaves the trail as it is. -/
theorem of_idle (h : ∀ calls, work ⟨chain, calls⟩ = some (outcome, ⟨chain, calls⟩)) :
    Ends schema document work chain outcome :=
  fun calls => ⟨chain, [], h calls, fun _ => rfl, fun _ _ hm => absurd hm List.not_mem_nil⟩

theorem pure (a : α) : Ends schema document (Pure.pure a) chain (.ok a) := of_idle fun _ => rfl

theorem throw (stop : Stop) :
    Ends schema document (MonadExcept.throw stop : Walk α) chain (.error stop) :=
  of_idle fun _ => rfl

/-- Work after work, on the chain as it was. -/
theorem bind {next : α → Walk β} {f : α → Except Stop β}
    (h : Ends schema document work chain outcome)
    (hnext : ∀ a, outcome = .ok a → Ends schema document (next a) chain (f a)) :
    Ends schema document (work >>= next) chain (outcome >>= f) := by
  intro calls
  obtain ⟨after, made, hrun, hafter, hmade⟩ := h calls
  cases outcome with
  | error stop =>
    have hstop : (work >>= next) ⟨chain, calls⟩ = some (.error stop, ⟨after, made ++ calls⟩) := by
      change (work ⟨chain, calls⟩).bind _ = _
      rw [hrun]
      rfl
    exact ⟨after, made, hstop, fun hs => hafter fun he => hs (by cases he; rfl), hmade⟩
  | ok a =>
    obtain rfl := hafter nofun
    obtain ⟨after', made', hrun', hafter', hmade'⟩ := hnext a rfl (made ++ calls)
    have hboth : (work >>= next) ⟨after, calls⟩ =
        some (f a, ⟨after', made' ++ made ++ calls⟩) := by
      change (work ⟨after, calls⟩).bind _ = _
      rw [hrun, List.append_assoc]
      exact hrun'
    refine ⟨after', made' ++ made, hboth, hafter', fun hchain other hm => ?_⟩
    rcases List.mem_append.mp hm with hm | hm
    · exact hmade' hchain other hm
    · exact hmade hchain other hm

/-- A call notes the chain that it starts with. -/
theorem call : Ends schema document (modify Trail.call : Walk PUnit) chain (.ok ⟨⟩) :=
  fun _ => ⟨chain, [chain], rfl, fun _ => rfl, fun h _ hm => List.mem_singleton.mp hm ▸ h⟩

/-- The work on an entry that goes on the chain leaves the chain without it. -/
theorem inlined {entry : Entry} {target : Node}
    (h : Ends schema document work (entry :: chain) outcome) (hnew : entry ∉ chain)
    (ht : document.lookup entry = .ok target) (hc : entry.collection ∈ schema.collections) :
    Ends schema document (fun trail => do
      let (outcome, after) ← work (trail.push entry)
      return (outcome, after.pop outcome)) chain outcome := by
  intro calls
  obtain ⟨after, made, hrun, hafter, hmade⟩ := h calls
  have hmade' : Chained schema document chain → ∀ other ∈ made, Chained schema document other :=
    fun hchain => hmade (hchain.push hnew ht hc)
  have hpopped : (do
      let (outcome, after) ← work ((⟨chain, calls⟩ : Trail).push entry)
      return (outcome, after.pop outcome)) =
        some (outcome, (⟨after, made ++ calls⟩ : Trail).pop outcome) := by
    change (work ⟨entry :: chain, calls⟩).bind _ = _
    rw [hrun]
    rfl
  by_cases hs : outcome = .error .tooManyPlaces
  · subst hs
    exact ⟨after, made, hpopped, fun h => absurd rfl h, hmade'⟩
  · obtain rfl := hafter hs
    rw [Trail.pop_of_ne hs] at hpopped
    exact ⟨chain, made, hpopped, fun _ => rfl, hmade'⟩

end Ends

namespace Schema

theorem mem_collections {name collection : String} (h : schema.collection? name = some collection) :
    collection ∈ schema.collections :=
  List.mem_dedup.mpr (List.mem_map.mpr ⟨_, Fields.mem_of_find? h, rfl⟩)

/-- A reference ends as it does in a resolution, if the call for its target does. -/
theorem walkReference_ends {recurse : Node → Walk Node} {name collection : String} {value : Node}
    (hc : collection ∈ schema.collections)
    (h : ∀ index target, value.IsIndex index → ⟨collection, index⟩ ∉ chain →
      document.lookup ⟨collection, index⟩ = .ok target →
      Ends schema document (recurse target) (⟨collection, index⟩ :: chain)
        (schema.resolveNode document (⟨collection, index⟩ :: chain) target)) :
    Ends schema document (walkReference document recurse name collection value) chain
      (schema.inline document chain name collection value) := by
  cases hi : value.index? with
  | none =>
    rw [walkReference, hi, inline_no_index hi]
    exact .throw _
  | some index =>
    have hi' := Node.index?_eq_some_iff.mp hi
    by_cases hmem : ⟨collection, index⟩ ∈ chain
    · rw [inline_again hi' hmem]
      refine .of_idle fun calls => ?_
      rw [walkReference, hi]
      change (if _ ∈ chain then _ else _ : Walk Node) ⟨chain, calls⟩ = _
      rw [if_pos hmem]
      rfl
    · have hrun : ∀ calls, walkReference document recurse name collection value ⟨chain, calls⟩ =
          (match document.lookup ⟨collection, index⟩ with
            | .error cause => throw (.fault (.malformed cause))
            | .ok target => fun trail => do
              let (outcome, after) ← recurse target (trail.push ⟨collection, index⟩)
              return (outcome, after.pop outcome) : Walk Node) ⟨chain, calls⟩ := by
        intro calls
        rw [walkReference, hi]
        change (if _ ∈ chain then _ else _ : Walk Node) ⟨chain, calls⟩ = _
        rw [if_neg hmem]
      cases ht : document.lookup ⟨collection, index⟩ with
      | error cause =>
        rw [inline_missing hi' hmem ht]
        refine .of_idle fun calls => ?_
        rw [hrun, ht]
        rfl
      | ok target =>
        rw [inline_new hi' hmem ht]
        intro calls
        rw [hrun, ht]
        exact (h index target hi' hmem ht).inlined hmem ht hc calls

end Schema

def Returns {α : Type} (schema : Schema) (document : Document) (work : Nat → Walk α)
    (chain : List Entry) (outcome : Except Stop α) : Prop :=
  ∃ bound, ∀ depth ≥ bound, Ends schema document (work depth) chain outcome

namespace Returns

variable {α β : Type} {work : Nat → Walk α} {outcome : Except Stop α}

theorem of_ends (h : ∀ depth, Ends schema document (work depth) chain outcome) :
    Returns schema document work chain outcome :=
  ⟨0, fun depth _ => h depth⟩

theorem bind {next : Nat → α → Walk β} {f : α → Except Stop β}
    (h : Returns schema document work chain outcome)
    (hnext : ∀ a, Returns schema document (next · a) chain (f a)) :
    Returns schema document (fun depth => work depth >>= next depth) chain (outcome >>= f) := by
  obtain ⟨bound, h⟩ := h
  cases outcome with
  | error stop => exact ⟨bound, fun depth hd => (h depth hd).bind nofun⟩
  | ok a =>
    obtain ⟨bound', hnext⟩ := hnext a
    refine ⟨max bound bound', fun depth hd => (h depth (by omega)).bind fun b hb => ?_⟩
    cases hb
    exact hnext depth (by omega)

/-- A call returns what the work on its node does. -/
theorem call {node : Node} {body : Nat → Walk Node} {outcome : Except Stop Node}
    (hbody : ∀ depth, schema.walkCall document (schema.walk document depth) node = (do
      modify Trail.call
      body depth))
    (h : Returns schema document body chain outcome) :
    Returns schema document (schema.walk document · node) chain outcome := by
  obtain ⟨bound, h⟩ := h
  refine ⟨bound + 1, fun depth hd => ?_⟩
  cases depth with
  | zero => omega
  | succ depth =>
    have hends := Ends.call.bind fun _ _ => h depth (by omega)
    rw [← hbody] at hends
    exact hends

end Returns

namespace Schema

/-- A reference returns what it resolves to, if the call for its target does. -/
theorem walkReference_returns {name collection : String} {value : Node}
    (hc : collection ∈ schema.collections)
    (h : ∀ index target, value.IsIndex index → ⟨collection, index⟩ ∉ chain →
      document.lookup ⟨collection, index⟩ = .ok target →
      Returns schema document (schema.walk document · target) (⟨collection, index⟩ :: chain)
        (schema.resolveNode document (⟨collection, index⟩ :: chain) target)) :
    Returns schema document
      (fun depth => walkReference document (schema.walk document depth) name collection value)
      chain (schema.inline document chain name collection value) := by
  by_cases hnew : ∃ index target, value.IsIndex index ∧ ⟨collection, index⟩ ∉ chain ∧
      document.lookup ⟨collection, index⟩ = .ok target
  · obtain ⟨index, target, hi, hmem, ht⟩ := hnew
    obtain ⟨bound, hbound⟩ := h index target hi hmem ht
    refine ⟨bound, fun depth hd => walkReference_ends hc fun index' target' hi' _ ht' => ?_⟩
    obtain rfl := hi.unique hi'
    obtain rfl := Except.ok.inj (ht.symm.trans ht')
    exact hbound depth hd
  · exact .of_ends fun depth => walkReference_ends hc fun index target hi hmem ht =>
      absurd ⟨index, target, hi, hmem, ht⟩ hnew

/-- Every walk returns what resolution finds. -/
theorem walk_returns (schema : Schema) (document : Document) :
    (∀ chain node, Returns schema document (schema.walk document · node) chain
      (schema.resolveNode document chain node)) ∧
    (∀ chain items, Returns schema document
      (fun depth => walkItems (schema.walk document depth) items) chain
      (schema.resolveItems document chain items)) ∧
    (∀ chain fields, Returns schema document
      (fun depth => schema.walkFields document (schema.walk document depth) fields) chain
      (schema.resolveFields document chain fields)) := by
  apply resolution_induction schema document
  case object =>
    intro chain fields ih
    rw [resolveNode_object]
    exact .call (fun _ => rfl) (ih.bind fun _ => .of_ends fun _ => .pure _)
  case numbers =>
    intro chain values
    rw [resolveNode]
    cases hr : values.mapM (Binary.toPlaces? schema.places) with
    | some rounded => exact .call (fun _ => by rw [walkCall, hr]) (.of_ends fun _ => .pure _)
    | none => exact .call (fun _ => by rw [walkCall, hr]) (.of_ends fun _ => .throw _)
  case strings =>
    intro chain values
    rw [resolveNode_strings]
    exact .call (fun _ => rfl) (.of_ends fun _ => .pure _)
  case mixed =>
    intro chain items ih
    rw [resolveNode_mixed]
    exact .call (fun _ => rfl) (ih.bind fun _ => .of_ends fun _ => .pure _)
  case scalar =>
    intro chain value
    rw [resolveNode_scalar]
    exact .call (fun _ => rfl) (.of_ends fun _ => .pure _)
  case noItems =>
    intro chain
    rw [resolveItems_nil]
    exact .of_ends fun _ => .pure _
  case item =>
    intro chain item rest ihi ihr
    rw [resolveItems_cons]
    exact ihi.bind fun _ => ihr.bind fun _ => .of_ends fun _ => .pure _
  case noFields =>
    intro chain
    rw [resolveFields_nil]
    exact .of_ends fun _ => .pure _
  case dropped =>
    intro chain name value rest hn ih
    rw [resolveFields_dropped hn]
    simpa only [walkFields, if_pos hn] using ih
  case kept =>
    intro chain name value rest hn hc ihv ihr
    rw [resolveFields_kept hn hc]
    simp only [walkFields, if_neg hn, hc]
    exact ihv.bind fun _ => ihr.bind fun _ => .of_ends fun _ => .pure _
  case inlined =>
    intro chain name value rest collection hn hc iht ihr
    rw [resolveFields_inlined hn hc]
    simp only [walkFields, if_neg hn, hc]
    exact (walkReference_returns (mem_collections hc) iht).bind fun _ => ihr.bind fun _ => .of_ends fun _ => .pure _

end Schema

def Walk.Within {α : Type} (work other : Walk α) : Prop :=
  ∀ trail result, work trail = some result → other trail = some result

namespace Walk.Within

variable {α β : Type} {work other : Walk α}

theorem refl (work : Walk α) : work.Within work := fun _ _ h => h

theorem bind {next nextOther : α → Walk β} (h : work.Within other)
    (hnext : ∀ a, (next a).Within (nextOther a)) :
    (work >>= next).Within (other >>= nextOther) := by
  intro trail result hr
  obtain ⟨⟨outcome, after⟩, hw, hr⟩ := Option.bind_eq_some_iff.mp hr
  refine Option.bind_eq_some_iff.mpr ⟨(outcome, after), h trail _ hw, ?_⟩
  cases outcome with
  | error stop => exact hr
  | ok a => exact hnext a after result hr

end Walk.Within

namespace Schema

section Depth

variable {recurse other : Node → Walk Node} (h : ∀ node, (recurse node).Within (other node))
include h

theorem walkReference_within (name collection : String) (value : Node) :
    (walkReference document recurse name collection value).Within
      (walkReference document other name collection value) := by
  unfold walkReference
  cases value.index? with
  | none => exact .refl _
  | some index =>
    refine Walk.Within.bind (.refl _) fun trail => ?_
    by_cases hmem : ⟨collection, index⟩ ∈ trail.chain
    · simp only [if_pos hmem]
      exact .refl _
    · simp only [if_neg hmem]
      cases document.lookup ⟨collection, index⟩ with
      | error cause => exact .refl _
      | ok target =>
        intro trail result hr
        obtain ⟨returned, hw, hr⟩ := Option.bind_eq_some_iff.mp hr
        exact Option.bind_eq_some_iff.mpr ⟨returned, h target _ _ hw, hr⟩

theorem walkFields_within (fields : List (String × Node)) :
    (schema.walkFields document recurse fields).Within
      (schema.walkFields document other fields) := by
  induction fields with
  | nil => exact .refl _
  | cons field rest ih =>
    obtain ⟨name, value⟩ := field
    by_cases hn : name ∈ schema.identity
    · simpa only [walkFields, if_pos hn] using ih
    · simp only [walkFields, if_neg hn]
      cases schema.collection? name with
      | none => exact (h value).bind fun _ => ih.bind fun _ => .refl _
      | some collection =>
        exact (walkReference_within h name collection value).bind fun _ =>
          ih.bind fun _ => .refl _

theorem walkItems_within (items : List Node) :
    (walkItems recurse items).Within (walkItems other items) := by
  induction items with
  | nil => exact .refl _
  | cons item rest ih => exact (h item).bind fun _ => ih.bind fun _ => .refl _

theorem walkCall_within (node : Node) :
    (schema.walkCall document recurse node).Within (schema.walkCall document other node) := by
  refine Walk.Within.bind (.refl _) fun _ => ?_
  cases node with
  | object fields => exact (walkFields_within h fields).bind fun _ => .refl _
  | numbers values => exact .refl _
  | strings values => exact .refl _
  | mixed items => exact (walkItems_within h items).bind fun _ => .refl _
  | scalar value => exact .refl _

end Depth

/-- A walk that ends does not end otherwise where calls may be nested deeper. -/
theorem walk_within {depth deeper : Nat} (h : depth ≤ deeper) (node : Node) :
    (schema.walk document depth node).Within (schema.walk document deeper node) := by
  induction depth generalizing deeper node with
  | zero => exact fun _ _ hr => nomatch hr
  | succ depth ih =>
    cases deeper with
    | zero => omega
    | succ deeper => exact walkCall_within (fun inner => ih (by omega) inner) node

/-- However deep the calls of a walk are, and whatever is on the trail that it starts with: if it
ends, it ends with what resolution finds, and the chain is as it was unless the program is
stopped. -/
theorem walk_ends {depth : Nat} {node : Node} {trail after : Trail}
    {outcome : Except Stop Node}
    (h : schema.walk document depth node trail = some (outcome, after)) :
    outcome = schema.resolveNode document trail.chain node ∧
      (outcome ≠ .error .tooManyPlaces → after.chain = trail.chain) := by
  obtain ⟨bound, hends⟩ := (schema.walk_returns document).1 trail.chain node
  have hdeep := walk_within (Nat.le_max_left depth bound) node trail _ h
  obtain ⟨chain, made, hrun, hchain, -⟩ := hends _ (Nat.le_max_right depth bound) trail.calls
  obtain ⟨rfl, rfl⟩ := Prod.mk.inj (Option.some.inj (hdeep.symm.trans hrun))
  exact ⟨rfl, hchain⟩

/-- Resolution returns on every graph of references, cyclic ones included. No call starts with a
chain that holds an entry twice, one that does not exist, or more entries than the collections
have that reference fields point into, and every call leaves the chain as it found it. -/
theorem resolution_returns (schema : Schema) (document : Document) (subtree : Node) :
    (∃ bound, ∀ depth ≥ bound, ∃ after,
      schema.walk document depth subtree ⟨[], []⟩ =
        some (schema.resolve document subtree, after) ∧
      ∀ chain ∈ after.calls, chain.Nodup ∧
        (∀ entry ∈ chain, ∃ target, document.lookup entry = .ok target) ∧
        chain.length ≤ (schema.collections.map document.size).sum) ∧
    (∀ depth node trail outcome after,
      schema.walk document depth node trail = some (outcome, after) →
      outcome ≠ .error .tooManyPlaces → after.chain = trail.chain) ∧
    (schema.places ≤ Binary.maxPlaces →
      schema.resolve document subtree ≠ .error .tooManyPlaces) := by
  refine ⟨?_, fun _ _ _ _ _ h => (walk_ends h).2, fun h => resolve_settles h document subtree⟩
  obtain ⟨bound, hends⟩ := (schema.walk_returns document).1 [] subtree
  refine ⟨bound, fun depth hd => ?_⟩
  obtain ⟨chain, made, hrun, -, hmade⟩ := hends depth hd []
  refine ⟨_, hrun, fun other hm => ?_⟩
  have hother := hmade .nil other (by simpa using hm)
  exact ⟨hother.nodup, hother.found, hother.length_le⟩

/-- Two meshes that refer to each other: no chain is longer than two entries. -/
theorem resolution_returns_mutualMeshes :
    standard.places ≤ Binary.maxPlaces ∧
      standard.resolve mutualMeshes (.object [("mesh", .ofIndex 0)]) ≠ .error .tooManyPlaces ∧
      ∃ bound, ∀ depth ≥ bound, ∃ after,
        standard.walk mutualMeshes depth (.object [("mesh", .ofIndex 0)]) ⟨[], []⟩ =
          some (standard.resolve mutualMeshes (.object [("mesh", .ofIndex 0)]), after) ∧
        ∀ chain ∈ after.calls, chain.length ≤ 2 := by
  have hplaces : standard.places ≤ Binary.maxPlaces := by decide
  have hsize : (standard.collections.map mutualMeshes.size).sum = 2 := by decide +kernel
  obtain ⟨⟨bound, hbound⟩, -, hsettles⟩ :=
    resolution_returns standard mutualMeshes (.object [("mesh", .ofIndex 0)])
  refine ⟨hplaces, hsettles hplaces, bound, fun depth hd => ?_⟩
  obtain ⟨after, hrun, hcalls⟩ := hbound depth hd
  exact ⟨after, hrun, fun chain hm => hsize ▸ (hcalls chain hm).2.2⟩

/-- A number of an array stops the program if it is to have more places than numbers have. -/
theorem resolve_manyPlaces :
    ({ standard with places := 65536 } : Schema).resolve ⟨[]⟩ (.numbers [Binary.nearest 0]) =
      .error .tooManyPlaces := by
  have hzero : Binary.toPlaces? 65536 (Binary.nearest 0 : Double) = none := by
    unfold Binary.toPlaces?
    rw [if_pos (by decide +kernel)]
  rw [resolve, resolveNode, List.mapM_cons, hzero]
  rfl

end Schema

end RenderVerdict
