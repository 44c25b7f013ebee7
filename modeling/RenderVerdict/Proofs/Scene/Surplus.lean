import RenderVerdict.Proofs.Scene.Pairing

/-! The multiset difference of two lists of nodes, by counting: what is left over on one side are
the nodes that come up for more times than the other side has nodes equal to them. -/
namespace RenderVerdict.Node

def countSame (nodes : List Node) (node : Node) : Nat := nodes.countP (·.same node)

/-- The number of a node among the nodes equal to it, counted from the front of the list. -/
def occurrence (nodes : List Node) (k : Fin nodes.length) : Nat :=
  countSame (nodes.take (k + 1)) nodes[k]

/-- The nodes of a list, in order, whose occurrence number exceeds the allowance for them. -/
def surplus (allowance : Node → Nat) (nodes : List Node) : List Node :=
  ((List.finRange nodes.length).filter fun k => allowance nodes[k] < occurrence nodes k).map
    fun k => nodes[k]

variable {node : Node} {actual expected rest : List Node}

theorem countSame_cons (nodes : List Node) (other : Node) :
    countSame (node :: nodes) other = countSame nodes other + countSame [node] other := by
  simp only [countSame, List.countP_cons, List.countP_nil, Nat.zero_add]

theorem countSame_perm {nodes others : List Node} (h : nodes.Perm others) :
    countSame nodes = countSame others :=
  funext fun _ => h.countP_eq _

/-- Equal nodes have as many nodes equal to them. -/
theorem countSame_congr (nodes : List Node) {a b : Node} (h : a.same b) :
    countSame nodes a = countSame nodes b := by
  unfold countSame
  congr 1
  funext node
  rw [same_comm node a, same_comm node b, same_congr h]

theorem countSame_eq_zero_iff {nodes : List Node} :
    countSame nodes node = 0 ↔ ¬ nodes.any (·.same node) := by
  simp [countSame, List.countP_eq_zero]

theorem occurrence_pos {nodes : List Node} (h : ∀ node ∈ nodes, node.same node)
    (k : Fin nodes.length) : 0 < occurrence nodes k := by
  refine List.countP_pos_iff.mpr ⟨nodes[k], ?_, h _ (List.getElem_mem k.isLt)⟩
  exact List.mem_take_iff_getElem.mpr ⟨k, by omega, rfl⟩

/-- The first node of a list takes up one of the allowance for the nodes equal to it. -/
theorem surplus_cons (hnode : node.same node) (hrest : ∀ other ∈ rest, other.same other)
    (allowance : Node → Nat) :
    surplus allowance (node :: rest) =
      (if allowance node = 0 then [node] else []) ++
        surplus (fun other => allowance other - countSame [node] other) rest := by
  have hfirst : occurrence (node :: rest) 0 = 1 := by simp [occurrence, countSame, hnode]
  have hlater (k : Fin rest.length) : allowance rest[k] < occurrence (node :: rest) k.succ ↔
      allowance rest[k] - countSame [node] rest[k] < occurrence rest k := by
    have hpos := occurrence_pos hrest k
    have hcount : occurrence (node :: rest) k.succ = occurrence rest k + countSame [node] rest[k] :=
      countSame_cons _ _
    omega
  have htail : ((List.finRange rest.length).map Fin.succ).filter
        (fun k => allowance (node :: rest)[k] < occurrence (node :: rest) k) =
      ((List.finRange rest.length).filter fun k =>
        allowance rest[k] - countSame [node] rest[k] < occurrence rest k).map Fin.succ := by
    rw [List.filter_map]
    congr 1
    exact List.filter_congr fun k _ => decide_eq_decide.mpr (hlater k)
  have hrange : List.finRange (node :: rest).length =
      0 :: (List.finRange rest.length).map Fin.succ := List.finRange_succ
  unfold surplus
  rw [hrange, List.filter_cons, htail]
  simp only [Fin.getElem_fin, Fin.val_zero, List.getElem_cons_zero, hfirst, Nat.lt_one_iff]
  by_cases h : allowance node = 0 <;> simp [h]

/-- A node that is paired takes one of the expected nodes equal to it. -/
theorem countSame_eraseP (hany : expected.any (·.same node)) :
    (fun other => countSame expected other - countSame [node] other) =
      countSame (expected.eraseP (·.same node)) := by
  obtain ⟨e, hen, hperm⟩ := eraseP_perm hany
  have hone : countSame [e] = countSame [node] := by
    funext other
    simp [countSame, same_congr hen other]
  funext other
  rw [countSame_perm hperm, countSame_cons, hone, Nat.add_sub_cancel]

/-- A node that is not paired takes no expected node. -/
theorem countSame_of_not_any (hany : ¬ expected.any (·.same node)) :
    (fun other => countSame expected other - countSame [node] other) = countSame expected := by
  funext other
  by_cases hs : node.same other
  · have hnone : countSame expected other = 0 := by
      rw [← countSame_congr expected hs, countSame_eq_zero_iff]
      exact hany
    omega
  · simp [countSame, hs]

/-- What pairing leaves over of the actual nodes, in order, are those that come up for more times
than there are expected nodes equal to them. -/
theorem pairOff_fst_eq_surplus (ha : ∀ node ∈ actual, node.same node) (expected : List Node) :
    (pairOff actual expected).1 = surplus (countSame expected) actual := by
  induction actual generalizing expected with
  | nil => rfl
  | cons node actual ih =>
    obtain ⟨hnode, ha⟩ := List.forall_mem_cons.mp ha
    rw [surplus_cons hnode ha]
    by_cases hany : expected.any (·.same node)
    · have hsome : countSame expected node ≠ 0 := fun h => countSame_eq_zero_iff.mp h hany
      rw [pairOff_cons_of_any hany, ih ha, if_neg hsome, countSame_eraseP hany, List.nil_append]
    · have hnone : countSame expected node = 0 := countSame_eq_zero_iff.mpr hany
      rw [pairOff_cons_of_not_any hany, ih ha, if_pos hnone, countSame_of_not_any hany,
        List.singleton_append]

theorem pairOff_snd_eq_surplus (he : ∀ node ∈ expected, node.same node) (actual : List Node) :
    (pairOff actual expected).2 = surplus (countSame actual) expected := by
  rw [← pairOff_fst_eq_surplus he actual, pairOff_swap]
  rfl

/-- The surplus of lists in another order is the same up to order. -/
theorem sameNodes_surplus {actual' expected' : List Node} (ha : ∀ node ∈ actual, node.same node)
    (hactual : actual'.Perm actual) (hexpected : expected'.Perm expected) :
    SameNodes (surplus (countSame expected') actual') (surplus (countSame expected) actual) := by
  have ha' : ∀ node ∈ actual', node.same node := fun node hm => ha node (hactual.subset hm)
  rw [← pairOff_fst_eq_surplus ha, ← pairOff_fst_eq_surplus ha']
  refine sameNodes_of_countP_eq ?_ ?_ fun node => ?_
  · exact fun node hm => ha' node ((pairOff_sublist _ _).1.subset hm)
  · exact fun node hm => ha node ((pairOff_sublist _ _).1.subset hm)
  · rw [countP_left_over, countP_left_over, hactual.countP_eq, hexpected.countP_eq]

/-- The difference of two lists of nodes without not-a-number is the exact multiset difference: on
either side the nodes, in order, whose occurrence number exceeds the number of nodes equal to them
on the other side. There is none exactly when the lists are the same up to order, and lists in
another order have the same difference up to order. -/
theorem difference?_exact (ha : ∀ node ∈ actual, node.Everywhere NaNFree)
    (he : ∀ node ∈ expected, node.Everywhere NaNFree) :
    ((difference? actual expected).map NodeMismatch.unexpected).getD [] =
        (surplus (countSame expected) actual).map toJson ∧
      ((difference? actual expected).map NodeMismatch.missing).getD [] =
        (surplus (countSame actual) expected).map toJson ∧
      (difference? actual expected = none ↔ SameNodes actual expected) ∧
      ∀ actual' expected' : List Node, actual'.Perm actual → expected'.Perm expected →
        SameNodes (surplus (countSame expected') actual') (surplus (countSame expected) actual) ∧
          SameNodes (surplus (countSame actual') expected')
            (surplus (countSame actual) expected) := by
  have ha' : ∀ node ∈ actual, node.same node := fun node hm => same_refl (ha node hm)
  have he' : ∀ node ∈ expected, node.same node := fun node hm => same_refl (he node hm)
  obtain ⟨hmissing, hunexpected⟩ := lists_of_difference actual expected
  rw [hmissing, hunexpected, pairOff_fst_eq_surplus ha', pairOff_snd_eq_surplus he']
  exact ⟨rfl, rfl, difference?_eq_none_iff ha', fun _ _ hactual hexpected =>
    ⟨sameNodes_surplus ha' hactual hexpected, sameNodes_surplus he' hexpected hactual⟩⟩

def zeroNode (negative : Bool) : Node :=
  .numbers [.finite negative 0 Format.double.minExponent Format.double.canonical_zero]

def zeroNodes : List Node := [zeroNode true, .strings ["lamp"], zeroNode false, zeroNode true]

theorem naNFree_zeroNodes : ∀ node ∈ zeroNodes, node.Everywhere NaNFree := by
  simp only [zeroNodes, zeroNode, List.forall_mem_cons]
  exact ⟨.of_leaf (by simp [NaNFree, Binary.isNaN]) rfl, .of_leaf trivial rfl,
    .of_leaf (by simp [NaNFree, Binary.isNaN]) rfl, .of_leaf (by simp [NaNFree, Binary.isNaN]) rfl,
    List.forall_mem_nil _⟩

/-- Zeros of either sign are equal nodes, so that one of three is paired. -/
theorem difference?_exact_zeroNodes :
    (((difference? zeroNodes [zeroNode false]).map NodeMismatch.unexpected).getD []).length = 3 ∧
      ¬ SameNodes zeroNodes [zeroNode false] := by
  have hzero : ∀ node ∈ [zeroNode false], node.Everywhere NaNFree := fun node hm =>
    naNFree_zeroNodes node (by simp_all [zeroNodes])
  obtain ⟨hunexpected, -, hnone, -⟩ := difference?_exact naNFree_zeroNodes hzero
  have hlength : (surplus (countSame [zeroNode false]) zeroNodes).length = 3 := by decide +kernel
  refine ⟨by rw [hunexpected, List.length_map, hlength], fun h => ?_⟩
  rw [hnone.mpr h] at hunexpected
  rw [List.map_eq_nil_iff.mp hunexpected.symm] at hlength
  cases hlength

end RenderVerdict.Node
