import Mathlib.Data.List.Perm.Basic
import RenderVerdict.Proofs.Scene.Equality
import RenderVerdict.Scene.Difference

/-! Pairing nodes off greedily: the order in which the two sides are taken does not matter, what is
left over on one side equals nothing left over on the other, and nothing is left over exactly when
the sides are permutations of each other up to equality. -/
namespace RenderVerdict.Node

def SameNodes (actual expected : List Node) : Prop :=
  ∃ middle, actual.Perm middle ∧ List.Forall₂ (fun a e => a.same e) middle expected

variable {node : Node} {actual expected : List Node}

theorem same_comm (a b : Node) : a.same b = b.same a := by
  cases h : a.same b with
  | true => exact (same_symm h).symm
  | false =>
    cases k : b.same a with
    | true => exact absurd (same_symm k) (by simp [h])
    | false => rfl

/-- Equal nodes equal the same nodes. -/
theorem same_congr {a b : Node} (h : a.same b) (node : Node) : a.same node = b.same node := by
  rw [Bool.eq_iff_iff]
  exact ⟨fun k => same_trans (same_symm h) k, fun k => same_trans h k⟩

theorem pairOff_cons_of_any (h : expected.any (·.same node)) :
    pairOff (node :: actual) expected = pairOff actual (expected.eraseP (·.same node)) := by
  rw [pairOff, if_pos h]

theorem pairOff_cons_of_not_any (h : ¬ expected.any (·.same node)) :
    pairOff (node :: actual) expected =
      (node :: (pairOff actual expected).1, (pairOff actual expected).2) := by
  rw [pairOff, if_neg h]

theorem pairOff_nil_right (actual : List Node) : pairOff actual [] = (actual, []) := by
  induction actual with
  | nil => rfl
  | cons a actual ih => rw [pairOff_cons_of_not_any (by simp), ih]

/-- The first expected node is paired with the first actual node that equals it. -/
theorem pairOff_cons_right (e : Node) (actual expected : List Node) :
    pairOff actual (e :: expected) =
      if actual.any (·.same e) then pairOff (actual.eraseP (·.same e)) expected
      else ((pairOff actual expected).1, e :: (pairOff actual expected).2) := by
  induction actual generalizing expected with
  | nil => simp [pairOff]
  | cons a actual ih =>
    by_cases hea : e.same a
    · have hae := same_symm hea
      have he : (e :: expected).eraseP (·.same a) = expected := List.eraseP_cons_of_pos hea
      have ha : (a :: actual).eraseP (·.same e) = actual := List.eraseP_cons_of_pos hae
      rw [pairOff_cons_of_any (by simp [hea]), he, if_pos (by simp [hae]), ha]
    · have hae : ¬ a.same e := fun h => hea (same_symm h)
      have he : (e :: expected).eraseP (·.same a) = e :: expected.eraseP (·.same a) :=
        List.eraseP_cons_of_neg hea
      have ha : (a :: actual).eraseP (·.same e) = a :: actual.eraseP (·.same e) :=
        List.eraseP_cons_of_neg hae
      rw [List.any_cons, Bool.eq_false_iff.mpr hae, Bool.false_or, ha]
      by_cases hany : expected.any (·.same a)
      · rw [pairOff_cons_of_any (by simp [hany]), he, ih, pairOff_cons_of_any hany,
          pairOff_cons_of_any hany]
      · rw [pairOff_cons_of_not_any (by simpa [hea] using hany), ih,
          pairOff_cons_of_not_any hany, pairOff_cons_of_not_any hany]
        split <;> rfl

/-- Pairing from the other side leaves the same nodes over, in the same order. -/
theorem pairOff_swap (actual expected : List Node) :
    pairOff expected actual = (pairOff actual expected).swap := by
  induction expected generalizing actual with
  | nil => rw [pairOff_nil_right]; rfl
  | cons e expected ih =>
    rw [pairOff_cons_right, pairOff]
    split
    · exact ih _
    · rw [ih]; rfl

theorem eraseP_perm {p : Node → Bool} (h : expected.any p) :
    ∃ e, p e ∧ expected.Perm (e :: expected.eraseP p) := by
  obtain ⟨x, hx, hp⟩ := List.any_eq_true.mp h
  obtain ⟨e, before, after, -, he, hl, hr⟩ := List.exists_of_eraseP hx hp
  refine ⟨e, he, ?_⟩
  rw [hr, hl]
  exact List.perm_middle

/-- Pairing takes as many nodes of a class from one side as from the other. -/
theorem countP_pairOff {p : Node → Bool} (hp : ∀ a b : Node, a.same b → p a = p b)
    (actual expected : List Node) :
    (pairOff actual expected).1.countP p + expected.countP p =
      actual.countP p + (pairOff actual expected).2.countP p := by
  induction actual generalizing expected with
  | nil => simp [pairOff]
  | cons a actual ih =>
    by_cases hany : expected.any (·.same a)
    · obtain ⟨e, he, hperm⟩ := eraseP_perm hany
      have h := ih (expected.eraseP (·.same a))
      rw [pairOff_cons_of_any hany, hperm.countP_eq, List.countP_cons, List.countP_cons, hp e a he]
      omega
    · have h := ih expected
      rw [pairOff_cons_of_not_any hany]
      simp only [List.countP_cons]
      omega

theorem length_pairOff (actual expected : List Node) :
    (pairOff actual expected).1.length + expected.length =
      actual.length + (pairOff actual expected).2.length := by
  have h := countP_pairOff (fun _ _ _ => rfl : ∀ a b : Node, a.same b → true = true) actual expected
  simpa using h

theorem pairOff_sublist (actual expected : List Node) :
    (pairOff actual expected).1.Sublist actual ∧ (pairOff actual expected).2.Sublist expected := by
  induction actual generalizing expected with
  | nil => exact ⟨.refl _, .refl _⟩
  | cons a actual ih =>
    by_cases hany : expected.any (·.same a)
    · rw [pairOff_cons_of_any hany]
      obtain ⟨h1, h2⟩ := ih (expected.eraseP (·.same a))
      exact ⟨h1.cons a, h2.trans List.eraseP_sublist⟩
    · rw [pairOff_cons_of_not_any hany]
      obtain ⟨h1, h2⟩ := ih expected
      exact ⟨h1.cons_cons a, h2⟩

/-- What is left over on one side equals nothing that is left over on the other. -/
theorem not_same_of_mem_pairOff {a e : Node} (ha : a ∈ (pairOff actual expected).1)
    (he : e ∈ (pairOff actual expected).2) : ¬ e.same a := by
  induction actual generalizing expected with
  | nil => cases ha
  | cons b actual ih =>
    by_cases hany : expected.any (·.same b)
    · rw [pairOff_cons_of_any hany] at ha he
      exact ih ha he
    · rw [pairOff_cons_of_not_any hany] at ha he
      rcases List.mem_cons.mp ha with rfl | ha
      · have hm := (pairOff_sublist actual expected).2.subset he
        exact fun h => hany (List.any_eq_true.mpr ⟨e, hm, h⟩)
      · exact ih ha he

theorem SameNodes.length_eq (h : SameNodes actual expected) : actual.length = expected.length := by
  obtain ⟨middle, hp, hf⟩ := h
  rw [hp.length_eq, hf.length_eq]

/-- Nodes that are the same stand as often on either side. -/
theorem SameNodes.countP_eq (h : SameNodes actual expected) {p : Node → Bool}
    (hp : ∀ a b : Node, a.same b → p a = p b) : actual.countP p = expected.countP p := by
  obtain ⟨middle, hperm, hf⟩ := h
  rw [hperm.countP_eq]
  clear hperm
  induction hf with
  | nil => rfl
  | cons hs _ ih => rw [List.countP_cons, List.countP_cons, ih, hp _ _ hs]

/-- What is left over of a class on one side is what that side has more of it than the other. -/
theorem countP_left_over (node : Node) (actual expected : List Node) :
    (pairOff actual expected).1.countP (·.same node) =
      actual.countP (·.same node) - expected.countP (·.same node) := by
  have hcount := countP_pairOff (fun _ _ h => same_congr h node) actual expected
  -- A class is left over on one side at most, as its nodes would equal each other.
  by_cases hleft : (pairOff actual expected).1.countP (·.same node) = 0
  · omega
  · have hzero : (pairOff actual expected).2.countP (·.same node) = 0 := by
      obtain ⟨a, ha, han⟩ := List.countP_pos_iff.mp (Nat.pos_of_ne_zero hleft)
      refine List.countP_eq_zero.mpr fun e he hen => ?_
      exact not_same_of_mem_pairOff ha he (same_trans hen (same_symm han))
    omega

/-- Nothing is left over of nodes that stand as often on the other side. -/
theorem left_over_eq_nil (ha : ∀ a ∈ actual, a.same a)
    (h : ∀ node : Node, actual.countP (·.same node) ≤ expected.countP (·.same node)) :
    (pairOff actual expected).1 = [] := by
  rw [List.eq_nil_iff_forall_not_mem]
  intro node hm
  have hself := ha node ((pairOff_sublist actual expected).1.subset hm)
  have hpos : 0 < (pairOff actual expected).1.countP (·.same node) :=
    List.countP_pos_iff.mpr ⟨node, hm, hself⟩
  have := h node
  rw [countP_left_over] at hpos
  omega

/-- Nothing is left over when the sides are the same up to order. -/
theorem SameNodes.pairOff_eq (h : SameNodes actual expected) (ha : ∀ a ∈ actual, a.same a) :
    pairOff actual expected = ([], []) := by
  have h1 : (pairOff actual expected).1 = [] :=
    left_over_eq_nil ha fun node => (h.countP_eq fun _ _ hab => same_congr hab node).le
  have hlength := length_pairOff actual expected
  rw [h1, h.length_eq, List.length_nil] at hlength
  exact Prod.ext h1 (List.eq_nil_of_length_eq_zero (by omega))

theorem sameNodes_of_pairOff (h : pairOff actual expected = ([], [])) :
    SameNodes actual expected := by
  induction actual generalizing expected with
  | nil =>
    obtain rfl : expected = [] := congrArg Prod.snd h
    exact ⟨[], .refl _, .nil⟩
  | cons a actual ih =>
    by_cases hany : expected.any (·.same a)
    · rw [pairOff_cons_of_any hany] at h
      obtain ⟨middle, hp, hf⟩ := ih h
      obtain ⟨e, he, hperm⟩ := eraseP_perm hany
      -- The expected node that was taken moves back to where it stood.
      obtain ⟨others, hf, hp'⟩ := List.perm_comp_forall₂ hperm
        (.cons (same_symm he) hf.flip : List.Forall₂ (fun e a => a.same e) _ (a :: middle))
      exact ⟨others, (hp.cons a).trans hp'.symm, hf.flip⟩
    · rw [pairOff_cons_of_not_any hany] at h
      cases congrArg Prod.fst h

/-- What a difference lists is what pairing leaves over. -/
theorem lists_of_difference (actual expected : List Node) :
    ((difference? actual expected).map NodeMismatch.missing).getD [] =
        (pairOff actual expected).2.map toJson ∧
      ((difference? actual expected).map NodeMismatch.unexpected).getD [] =
        (pairOff actual expected).1.map toJson := by
  unfold difference?
  cases pairOff actual expected with
  | mk left right => cases left <;> cases right <;> simp

/-- Nothing is left over exactly when the sides are the same up to order. -/
theorem difference?_eq_none_iff (ha : ∀ a ∈ actual, a.same a) :
    difference? actual expected = none ↔ SameNodes actual expected := by
  have hpair : difference? actual expected = none ↔ pairOff actual expected = ([], []) := by
    unfold difference?
    cases h : pairOff actual expected with
    | mk left right => cases left <;> cases right <;> simp
  rw [hpair]
  exact ⟨sameNodes_of_pairOff, fun h => h.pairOff_eq ha⟩

/-- Lists whose nodes stand as often in one as in the other are the same up to order. -/
theorem sameNodes_of_countP_eq (ha : ∀ a ∈ actual, a.same a) (he : ∀ e ∈ expected, e.same e)
    (h : ∀ node : Node, actual.countP (·.same node) = expected.countP (·.same node)) :
    SameNodes actual expected := by
  have h1 : (pairOff actual expected).1 = [] := left_over_eq_nil ha fun node => (h node).le
  have h2 : (pairOff expected actual).1 = [] := left_over_eq_nil he fun node => (h node).ge
  rw [pairOff_swap] at h2
  exact sameNodes_of_pairOff (Prod.ext h1 h2)

theorem SameNodes.refl (h : ∀ node ∈ actual, node.same node) : SameNodes actual actual :=
  ⟨actual, .refl _, List.forall₂_same.mpr h⟩

theorem SameNodes.trans {middle : List Node} (h : SameNodes actual middle)
    (k : SameNodes middle expected) : SameNodes actual expected := by
  obtain ⟨first, hp, hf⟩ := h
  obtain ⟨second, kp, kf⟩ := k
  obtain ⟨third, hf', kp'⟩ := List.perm_comp_forall₂ kp.symm hf.flip
  exact ⟨third, hp.trans kp'.symm, forall₂_trans hf'.flip kf fun _ _ _ h k => same_trans h k⟩

end RenderVerdict.Node
