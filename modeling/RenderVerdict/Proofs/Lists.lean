import Mathlib.Data.List.FinRange
import Mathlib.Data.List.Forall2
import Mathlib.Order.Bounds.Basic

/-! Lists that are related element by element, lists made of parts, lists in another order, sorted
lists, and what a running maximum over a list comes to. -/
namespace RenderVerdict

variable {α β κ : Type}

theorem exists_of_mem_right {r : α → β → Prop} {xs : List α} {ys : List β}
    (h : List.Forall₂ r xs ys) {y : β} (hy : y ∈ ys) : ∃ x ∈ xs, r x y := by
  induction h with
  | nil => cases hy
  | cons hr _ ih =>
    rcases List.mem_cons.mp hy with rfl | hy
    · exact ⟨_, List.mem_cons_self, hr⟩
    · obtain ⟨x, hx, hr⟩ := ih hy
      exact ⟨x, List.mem_cons_of_mem _ hx, hr⟩

theorem exists_of_mem_left {r : α → β → Prop} {xs : List α} {ys : List β}
    (h : List.Forall₂ r xs ys) {x : α} (hx : x ∈ xs) : ∃ y ∈ ys, r x y :=
  exists_of_mem_right h.flip hx

theorem forall₂_trans {r : α → β → Prop} {s : β → κ → Prop} {t : α → κ → Prop} {xs : List α}
    {ys : List β} {zs : List κ} (h : List.Forall₂ r xs ys) (k : List.Forall₂ s ys zs)
    (ht : ∀ x y z, r x y → s y z → t x z) : List.Forall₂ t xs zs := by
  induction h generalizing zs with
  | nil =>
    cases k
    exact .nil
  | cons hxy _ ih => cases k with | cons hyz k => exact .cons (ht _ _ _ hxy hyz) (ih k)

theorem exists_getElem?_of_forall₂ {r : α → β → Prop} {xs : List α} {ys : List β} {i : Nat} {x : α}
    (h : List.Forall₂ r xs ys) (hx : xs[i]? = some x) : ∃ y, ys[i]? = some y ∧ r x y := by
  induction h generalizing i with
  | nil => cases hx
  | cons hr _ ih => cases i with
    | zero =>
      obtain rfl := Option.some.inj hx
      exact ⟨_, rfl, hr⟩
    | succ i => exact ih hx

theorem exists_forall₂ {r : α → β → Prop} {xs : List α} (h : ∀ x ∈ xs, ∃ y, r x y) :
    ∃ ys, List.Forall₂ r xs ys := by
  induction xs with
  | nil => exact ⟨[], .nil⟩
  | cons x xs ih =>
    obtain ⟨⟨y, hy⟩, hxs⟩ := List.forall_mem_cons.mp h
    obtain ⟨ys, hys⟩ := ih hxs
    exact ⟨y :: ys, .cons hy hys⟩

theorem map_some_filterMap {f : α → Option β} {xs : List α}
    (h : ∀ x ∈ xs, (f x).isSome) : (xs.filterMap f).map some = xs.map f := by
  induction xs with
  | nil => rfl
  | cons x xs ih =>
    obtain ⟨hx, hxs⟩ := List.forall_mem_cons.mp h
    obtain ⟨y, hy⟩ := Option.isSome_iff_exists.mp hx
    rw [List.filterMap_cons_some hy, List.map_cons, List.map_cons, ih hxs, hy]

theorem isEqv_iff_forall₂ {r : α → α → Bool} {xs ys : List α} :
    xs.isEqv ys r ↔ List.Forall₂ (fun x y => r x y) xs ys := by
  induction xs generalizing ys with
  | nil => cases ys <;> simp [List.isEqv]
  | cons x xs ih => cases ys <;> simp [List.isEqv, ih]

/-- The second list has the elements of the first in the order that a permutation gives. -/
def Reordered {n : Nat} (σ : Equiv.Perm (Fin n)) (xs ys : List α) : Prop :=
  ∃ f : Fin n → α, xs = List.ofFn f ∧ ys = List.ofFn (f ∘ σ)

theorem Reordered.perm {n : Nat} {σ : Equiv.Perm (Fin n)} {xs ys : List α}
    (h : Reordered σ xs ys) : ys.Perm xs := by
  obtain ⟨f, rfl, rfl⟩ := h
  exact Equiv.Perm.ofFn_comp_perm σ f

theorem forall₂_ofFn_iff {r : α → β → Prop} {n : Nat} {f : Fin n → α} {g : Fin n → β} :
    List.Forall₂ r (List.ofFn f) (List.ofFn g) ↔ ∀ k, r (f k) (g k) := by
  induction n with
  | zero => simp
  | succ n ih => simp [List.ofFn_succ, ih, Fin.forall_fin_succ]

/-- What is related to a list, in the order of another, is related to the other. -/
theorem Reordered.forall₂ {r : α → β → Prop} {n : Nat} {σ : Equiv.Perm (Fin n)} {xs xs' : List α}
    {ys : List β} (h : Reordered σ xs xs') (hr : List.Forall₂ r xs ys) :
    ∃ ys', List.Forall₂ r xs' ys' ∧ Reordered σ ys ys' := by
  obtain ⟨f, rfl, rfl⟩ := h
  obtain ⟨g, rfl⟩ : ∃ g : Fin n → β, ys = List.ofFn g := by
    obtain rfl : n = ys.length := by rw [← hr.length_eq, List.length_ofFn]
    exact ⟨ys.get, (List.ofFn_get ys).symm⟩
  rw [forall₂_ofFn_iff] at hr
  exact ⟨List.ofFn (g ∘ σ), forall₂_ofFn_iff.mpr fun k => hr (σ k), g, rfl, rfl⟩

section Sorting

variable {le : α → α → Bool} {p : α → Bool} {xs ys : List α}
  (trans : ∀ a b c, le a b → le b c → le a c) (total : ∀ a b, le a b || le b a)

include trans total

end Sorting

section Keys

variable [DecidableEq κ] {key : α → κ} {le : α → α → Bool} {xs ys : List α}

end Keys

/-- A fold whose steps each take the larger of what they have and what an element has, on states that
stay sound, ends with the greatest. -/
theorem isGreatest_foldl_ofFn {γ : Type} [LinearOrder γ] {n : Nat} {element : Fin n → α}
    {measure : Fin n → γ} {step : β → α → β} {value : β → γ} {start : β} (Sound : β → Prop)
    (hstart : Sound start) (hstep : ∀ state, Sound state → ∀ i, Sound (step state (element i)) ∧
      value (step state (element i)) = value state ⊔ measure i) :
    Sound ((List.ofFn element).foldl step start) ∧
      IsGreatest (insert (value start) (Set.range measure))
        (value ((List.ofFn element).foldl step start)) := by
  induction n generalizing start with
  | zero => simp [hstart, Set.range_eq_empty]
  | succ n ih =>
    obtain ⟨hsound, hvalue⟩ := hstep start hstart 0
    obtain ⟨hlast, hmem, hupper⟩ := ih hsound fun state hstate i => hstep state hstate i.succ
    rw [List.ofFn_succ, List.foldl_cons]
    refine ⟨hlast, ?_, ?_⟩
    · rcases hmem with hfirst | ⟨i, hi⟩
      · -- Nothing later is larger than the larger of the first two.
        rw [hfirst, hvalue]
        rcases le_total (measure 0) (value start) with h | h
        · exact .inl (sup_of_le_left h)
        · exact .inr ⟨0, (sup_of_le_right h).symm⟩
      · exact .inr ⟨i.succ, hi⟩
    · have hfirst := hupper (Set.mem_insert _ _)
      rw [hvalue] at hfirst
      rintro r (rfl | ⟨i, rfl⟩)
      · exact le_sup_left.trans hfirst
      · cases i using Fin.cases with
        | zero => exact le_sup_right.trans hfirst
        | succ i => exact hupper (.inr ⟨i, rfl⟩)

end RenderVerdict
