import RenderVerdict.Proofs.Number.Order
import RenderVerdict.Proofs.Scene.Parsed

/-! Equality of trees is symmetric and transitive, and on trees without not-a-number an
equivalence. -/
namespace RenderVerdict

namespace Scalar

variable {a b c : Scalar}

theorem same_symm (h : a.same b) : b.same a := by
  cases a <;> cases b <;> simp_all [same]
  exact Binary.eq_symm h

theorem same_trans (h : a.same b) (k : b.same c) : a.same c := by
  cases a <;> cases b <;> cases c <;> simp_all [same]
  exact Binary.eq_trans h k

end Scalar

namespace Node

theorem same_numbers_iff {as bs : List Double} :
    (numbers as).same (numbers bs) ↔ List.Forall₂ (fun a b => Binary.eq a b) as bs :=
  isEqv_iff_forall₂

mutual

theorem same_symm {a b : Node} (h : a.same b) : b.same a := by
  cases a with
  | object as => cases b with
    | object bs => exact sameFields_symm h
    | _ => cases h
  | numbers as => cases b with
    | numbers bs =>
      rw [same_numbers_iff] at h ⊢
      exact h.flip.imp fun _ _ h => Binary.eq_symm h
    | _ => cases h
  | strings as => cases b with
    | strings bs =>
      obtain rfl := of_decide_eq_true h
      exact h
    | _ => cases h
  | mixed as => cases b with
    | mixed bs => exact sameItems_symm h
    | _ => cases h
  | scalar a => cases b with
    | scalar b => exact Scalar.same_symm h
    | _ => cases h

theorem sameItems_symm {as bs : List Node} (h : sameItems as bs) : sameItems bs as := by
  match as, bs with
  | [], [] => exact h
  | a :: as, b :: bs =>
    obtain ⟨hi, hr⟩ := (Bool.and_eq_true _ _).mp h
    exact (Bool.and_eq_true _ _).mpr ⟨same_symm hi, sameItems_symm hr⟩

theorem sameFields_symm {as bs : List (String × Node)} (h : sameFields as bs) :
    sameFields bs as := by
  match as, bs with
  | [], [] => exact h
  | (n, a) :: as, (m, b) :: bs =>
    simp only [sameFields, Bool.and_eq_true, decide_eq_true_eq] at h ⊢
    exact ⟨⟨h.1.1.symm, same_symm h.1.2⟩, sameFields_symm h.2⟩

end

mutual

theorem same_trans {a b c : Node} (h : a.same b) (k : b.same c) : a.same c := by
  cases a with
  | object as => cases b with
    | object bs => cases c with
      | object cs => exact sameFields_trans h k
      | _ => cases k
    | _ => cases h
  | numbers as => cases b with
    | numbers bs => cases c with
      | numbers cs =>
        rw [same_numbers_iff] at h k ⊢
        exact forall₂_trans h k fun _ _ _ h k => Binary.eq_trans h k
      | _ => cases k
    | _ => cases h
  | strings as => cases b with
    | strings bs =>
      obtain rfl := of_decide_eq_true h
      exact k
    | _ => cases h
  | mixed as => cases b with
    | mixed bs => cases c with
      | mixed cs => exact sameItems_trans h k
      | _ => cases k
    | _ => cases h
  | scalar a => cases b with
    | scalar b => cases c with
      | scalar c => exact Scalar.same_trans h k
      | _ => cases k
    | _ => cases h

theorem sameItems_trans {as bs cs : List Node} (h : sameItems as bs) (k : sameItems bs cs) :
    sameItems as cs := by
  match as, bs, cs with
  | [], [], [] => exact h
  | a :: as, b :: bs, c :: cs =>
    obtain ⟨hi, hr⟩ := (Bool.and_eq_true _ _).mp h
    obtain ⟨ki, kr⟩ := (Bool.and_eq_true _ _).mp k
    exact (Bool.and_eq_true _ _).mpr ⟨same_trans hi ki, sameItems_trans hr kr⟩

theorem sameFields_trans {as bs cs : List (String × Node)} (h : sameFields as bs)
    (k : sameFields bs cs) : sameFields as cs := by
  match as, bs, cs with
  | [], [], [] => exact h
  | (n, a) :: as, (m, b) :: bs, (l, c) :: cs =>
    simp only [sameFields, Bool.and_eq_true, decide_eq_true_eq] at h k ⊢
    exact ⟨⟨h.1.1.trans k.1.1, same_trans h.1.2 k.1.2⟩, sameFields_trans h.2 k.2⟩

end

theorem sameItems_iff {as bs : List Node} :
    sameItems as bs ↔ List.Forall₂ (fun a b => same a b) as bs := by
  induction as generalizing bs with
  | nil => cases bs <;> simp [sameItems]
  | cons a as ih => cases bs <;> simp [sameItems, ih]

/-- Fields in ascending order are the same if the names are and there is the same under each. -/
theorem sameFields_iff {as bs : List (String × Node)} (ha : Fields.Ascending as)
    (hb : Fields.Ascending bs) : sameFields as bs ↔
      (∀ name, (Fields.find? name as).isSome = (Fields.find? name bs).isSome) ∧
      ∀ name a b, Fields.find? name as = some a → Fields.find? name bs = some b → a.same b := by
  induction as generalizing bs with
  | nil => cases bs with
    | nil => simp [sameFields, Fields.find?]
    | cons second bs =>
      constructor
      · intro h
        cases h
      · rintro ⟨hnames, -⟩
        have hname := hnames second.1
        simp [Fields.find?] at hname
  | cons first as ih => cases bs with
    | nil =>
      constructor
      · intro h
        cases h
      · rintro ⟨hnames, -⟩
        have hname := hnames first.1
        simp [Fields.find?] at hname
    | cons second bs =>
      obtain ⟨n, a⟩ := first
      obtain ⟨m, b⟩ := second
      simp only [sameFields, Bool.and_eq_true, decide_eq_true_eq,
        ih (List.pairwise_cons.mp ha).2 (List.pairwise_cons.mp hb).2]
      constructor
      · rintro ⟨⟨rfl, hab⟩, hnames, hvalues⟩
        simp only [Fields.find?_cons]
        refine ⟨fun name => ?_, fun name x y hx hy => ?_⟩
        · split
          · rfl
          · exact hnames name
        · split at hx
          · next hn =>
            rw [if_pos hn] at hy
            cases hx
            cases hy
            exact hab
          · next hn =>
            rw [if_neg hn] at hy
            exact hvalues name x y hx hy
      · rintro ⟨hnames, hvalues⟩
        have hn : (Fields.find? n ((n, a) :: as)).isSome := by simp [Fields.find?_cons]
        have hm : (Fields.find? m ((m, b) :: bs)).isSome := by simp [Fields.find?_cons]
        obtain rfl : n = m := String.le_antisymm
          (String.not_lt.mp (Fields.not_lt_of_find? ha (hnames m ▸ hm)))
          (String.not_lt.mp (Fields.not_lt_of_find? hb (hnames n ▸ hn)))
        have hfirst : a.same b := hvalues n a b (by simp [Fields.find?_cons])
          (by simp [Fields.find?_cons])
        simp only [Fields.find?_rest ha, Fields.find?_rest hb, Option.ite_none_left_eq_some]
        refine ⟨⟨trivial, hfirst⟩, fun name => ?_, fun name x y hx hy => hvalues name x y hx.2 hy.2⟩
        split
        · rfl
        · exact hnames name

def NaNFree : Node → Prop
  | .numbers values => ∀ value ∈ values, ¬ value.isNaN
  | .scalar (.number value) => ¬ value.isNaN
  | _ => True

theorem Canonical.naNFree {node : Node} (h : node.Canonical) : node.NaNFree := by
  cases node with
  | numbers values => exact fun value hm => Binary.not_isNaN_of_isFinite (h value hm)
  | scalar value => cases value with
    | number value => exact Binary.not_isNaN_of_isFinite h
    | _ => trivial
  | _ => trivial

mutual

/-- A tree without not-a-number equals itself. -/
theorem same_refl {node : Node} (h : node.Everywhere NaNFree) : node.same node := by
  cases node with
  | object fields => exact sameFields_refl fun field hm => h.field hm
  | numbers values =>
    rw [same_numbers_iff, List.forall₂_same]
    exact fun value hm => Binary.eq_self (h.here value hm)
  | strings values => exact decide_eq_true rfl
  | mixed items => exact sameItems_refl fun item hm => h.item hm
  | scalar value => cases value with
    | number value => exact Binary.eq_self h.here
    | _ => simp [same, Scalar.same]

theorem sameItems_refl {items : List Node} (h : ∀ item ∈ items, item.Everywhere NaNFree) :
    sameItems items items := by
  match items with
  | [] => rfl
  | item :: rest =>
    exact (Bool.and_eq_true _ _).mpr ⟨same_refl (h item List.mem_cons_self),
      sameItems_refl fun other hm => h other (List.mem_cons_of_mem _ hm)⟩

theorem sameFields_refl {fields : List (String × Node)}
    (h : ∀ field ∈ fields, field.2.Everywhere NaNFree) : sameFields fields fields := by
  match fields with
  | [] => rfl
  | (name, value) :: rest =>
    simp only [sameFields, Bool.and_eq_true, decide_eq_true_eq]
    exact ⟨⟨trivial, same_refl (h (name, value) List.mem_cons_self)⟩,
      sameFields_refl fun other hm => h other (List.mem_cons_of_mem _ hm)⟩

end

theorem same_self {node : Node} (h : node.Everywhere Canonical) : node.same node :=
  same_refl (h.mono fun _ => Canonical.naNFree)

end Node

end RenderVerdict
