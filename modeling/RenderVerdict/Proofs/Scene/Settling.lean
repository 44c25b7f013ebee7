import RenderVerdict.Proofs.Scene.Normalization
import RenderVerdict.Scene.Difference

/-! Comparisons come to an end with a report or a fault: numbers are never to be written with more
decimal places than they can have, as long as the schema asks for no more than that. -/
namespace RenderVerdict

namespace Stop

variable {α : Type}

theorem settle_eq_none_iff {x : Except Stop α} : settle x = none ↔ x = .error .tooManyPlaces := by
  match x with
  | .ok _ => simp [settle]
  | .error (.fault _) => simp [settle]
  | .error .tooManyPlaces => simp [settle]

theorem exists_settle {x : Except Stop α} (h : x ≠ .error .tooManyPlaces) :
    ∃ result, settle x = some result := by
  rw [← Option.ne_none_iff_exists', Ne, settle_eq_none_iff]
  exact h

theorem settle_eq_ok_iff {x : Except Stop α} {value : α} :
    settle x = some (.ok value) ↔ x = .ok value := by
  match x with
  | .ok _ => simp [settle]
  | .error (.fault _) => simp [settle]
  | .error .tooManyPlaces => simp [settle]

theorem settle_eq_error_iff {x : Except Stop α} {fault : Fault} :
    settle x = some (.error fault) ↔ x = .error (.fault fault) := by
  match x with
  | .ok _ => simp [settle]
  | .error (.fault _) => simp [settle]
  | .error .tooManyPlaces => simp [settle]

theorem ofFault_eq_ok_iff {x : Except Fault α} {a : α} :
    (liftM x : Except Stop α) = .ok a ↔ x = .ok a := by
  change ofFault x = .ok a ↔ x = .ok a
  cases x <;> simp [ofFault]

theorem ofFault_eq_fault_iff {x : Except Fault α} {fault : Fault} :
    (liftM x : Except Stop α) = .error (.fault fault) ↔ x = .error fault := by
  change ofFault x = .error (.fault fault) ↔ x = .error fault
  cases x <;> simp [ofFault]

/-- A step that only a fault can end does not end for another reason. -/
theorem ofFault_ne_tooManyPlaces {x : Except Fault α} :
    (liftM x : Except Stop α) ≠ .error .tooManyPlaces := by
  change ofFault x ≠ .error .tooManyPlaces
  cases x <;> simp [ofFault]

end Stop

namespace Schema

variable {schema : Schema} {document : Document}

/-- Resolution ends in no other way than with a result, a fault of a reference, or at a number with
more places than one can have. -/
theorem resolution_avoids {stop : Stop}
    (hplaces : stop = .tooManyPlaces → schema.places ≤ Binary.maxPlaces)
    (hfault : ∀ fault : Fault, fault.OfReference → stop ≠ .fault fault) (document : Document) :
    (∀ chain node, schema.resolveNode document chain node ≠ .error stop) ∧
    (∀ chain items, schema.resolveItems document chain items ≠ .error stop) ∧
    (∀ chain fields, schema.resolveFields document chain fields ≠ .error stop) := by
  apply resolution_induction schema document
  case object =>
    intro chain fields ih
    rw [resolveNode_object]
    exact bind_ne_error ih fun _ => ok_ne_error
  case numbers =>
    intro chain values h
    rw [resolveNode] at h
    split at h
    · cases h
    · next hnone =>
      cases h
      obtain ⟨value, -, hvalue⟩ := exists_of_mapM_eq_none hnone
      rw [Binary.toPlaces?_of_le (hplaces rfl)] at hvalue
      cases hvalue
  case strings =>
    intro chain values
    rw [resolveNode_strings]
    exact ok_ne_error
  case mixed =>
    intro chain items ih
    rw [resolveNode_mixed]
    exact bind_ne_error ih fun _ => ok_ne_error
  case scalar =>
    intro chain value
    rw [resolveNode_scalar]
    exact ok_ne_error
  case noItems =>
    intro chain
    rw [resolveItems_nil]
    exact ok_ne_error
  case item =>
    intro chain item rest ihi ihr
    rw [resolveItems_cons]
    exact bind_ne_error ihi fun _ => bind_ne_error ihr fun _ => ok_ne_error
  case noFields =>
    intro chain
    rw [resolveFields_nil]
    exact ok_ne_error
  case dropped =>
    intro chain name value rest hn ih
    rw [resolveFields_dropped hn]
    exact ih
  case kept =>
    intro chain name value rest hn hc ihv ihr
    rw [resolveFields_kept hn hc]
    exact bind_ne_error ihv fun _ => bind_ne_error ihr fun _ => ok_ne_error
  case inlined =>
    intro chain name value rest collection hn hc iht ihr
    have hinline : schema.inline document chain name collection value ≠ .error stop := by
      rcases inline_cases schema document chain name collection value with
        ⟨index, hi, hmem⟩ | ⟨index, target, hi, hnew, ht⟩ | ⟨cause, hreference, hcause⟩
      · rw [inline_again hi hmem]
        exact fun h => hfault _ .cycle (Except.error.inj h).symm
      · rw [inline_new hi hnew ht]
        exact iht index target hi hnew ht
      · rw [hcause]
        exact fun h => hfault _ hreference (Except.error.inj h).symm
    rw [resolveFields_inlined hn hc]
    exact bind_ne_error hinline fun _ => bind_ne_error ihr fun _ => ok_ne_error

/-- Normalization stops where resolution does, or because there is no array of nodes. -/
theorem normalize_avoids {stop : Stop}
    (hplaces : stop = .tooManyPlaces → schema.places ≤ Binary.maxPlaces)
    (hfault : ∀ fault : Fault, fault.OfReference → stop ≠ .fault fault)
    (hobjects : stop ≠ .fault (.malformed .nodesNotObjects))
    (hmissing : stop ≠ .fault (.malformed .nodesMissing)) (document : Document) :
    schema.normalize document ≠ .error stop := by
  have hnodes : ∀ nodes : List Node,
      nodes.mapM (schema.resolve (schema.contextOf document)) ≠ .error stop :=
    fun nodes => mapM_ne_error fun node => (resolution_avoids hplaces hfault _).1 [] node
  have hfound : ∀ {cause : Malformed}, stop ≠ .fault (.malformed cause) →
      (Except.error (.fault (.malformed cause)) : Except Stop (List Node)) ≠ .error stop :=
    fun hne h => hne (Except.error.inj h).symm
  unfold normalize
  dsimp only
  split
  · exact bind_ne_error ok_ne_error fun nodes => bind_ne_error (hnodes nodes) fun _ => ok_ne_error
  · exact bind_ne_error ok_ne_error fun nodes => bind_ne_error (hnodes nodes) fun _ => ok_ne_error
  · exact bind_ne_error (hfound hobjects) fun nodes => bind_ne_error (hnodes nodes) fun _ => ok_ne_error
  · exact bind_ne_error (hfound hmissing) fun nodes => bind_ne_error (hnodes nodes) fun _ => ok_ne_error

/-- Resolution never asks for too many places if the schema does not. -/
theorem resolve_settles (h : schema.places ≤ Binary.maxPlaces) (document : Document)
    (subtree : Node) : schema.resolve document subtree ≠ .error .tooManyPlaces := by
  refine (resolution_avoids (fun _ => h) (fun fault _ hstop => ?_) document).1 [] subtree
  cases hstop

theorem normalize_settles (h : schema.places ≤ Binary.maxPlaces) (document : Document) :
    schema.normalize document ≠ .error .tooManyPlaces := by
  refine normalize_avoids (fun _ => h) (fun fault _ hstop => ?_) (fun hstop => ?_)
    (fun hstop => ?_) document <;> cases hstop

theorem compare_settles (h : schema.places ≤ Binary.maxPlaces) (actual expected : Document) :
    schema.compare actual expected ≠ .error .tooManyPlaces :=
  bind_ne_error (normalize_settles h actual) fun _ =>
    bind_ne_error (normalize_settles h expected) fun _ => Stop.ofFault_ne_tooManyPlaces

end Schema

end RenderVerdict
