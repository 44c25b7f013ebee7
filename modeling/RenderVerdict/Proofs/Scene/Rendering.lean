import RenderVerdict.Proofs.Number.Whole
import RenderVerdict.Proofs.Scene.Equality

/-! Canonical trees that are written as the same JSON value are equal. -/
namespace RenderVerdict

namespace Json

mutual

def same : Json → Json → Bool
  | .null, .null => true
  | .bool a, .bool b => decide (a = b)
  | .int a, .int b => decide (a = b)
  | .real a, .real b => decide (a = b) || a.eq b
  | .str a, .str b => decide (a = b)
  | .arr as, .arr bs => sameItems as bs
  | .obj as, .obj bs => sameFields as bs
  | _, _ => false

def sameItems : List Json → List Json → Bool
  | [], [] => true
  | a :: as, b :: bs => same a b && sameItems as bs
  | _, _ => false

def sameFields : List (String × Json) → List (String × Json) → Bool
  | [], [] => true
  | (n, a) :: as, (m, b) :: bs => decide (n = m) && same a b && sameFields as bs
  | _, _ => false

end

inductive Kind where
  | null
  | bool
  | number
  | string
  | array
  | object
deriving DecidableEq

def kind : Json → Kind
  | .null => .null
  | .bool _ => .bool
  | .int _ | .real _ => .number
  | .str _ => .string
  | .arr _ => .array
  | .obj _ => .object

theorem kind_eq_of_same {a b : Json} (h : a.same b) : a.kind = b.kind := by
  cases a <;> cases b <;> first | rfl | cases h

theorem sameItems_iff {as bs : List Json} :
    sameItems as bs ↔ List.Forall₂ (fun a b => same a b) as bs := by
  induction as generalizing bs with
  | nil => cases bs <;> simp [sameItems]
  | cons a as ih => cases bs <;> simp [sameItems, ih]

/-- Equal arrays hold values of one kind if either does. -/
theorem kinds_of_sameItems {as bs : List Json} {kind : Kind} (h : sameItems as bs) :
    (∀ a ∈ as, a.kind = kind) ↔ ∀ b ∈ bs, b.kind = kind := by
  have hf := sameItems_iff.mp h
  constructor
  · intro ha b hb
    obtain ⟨a, hm, hab⟩ := exists_of_mem_right hf hb
    rw [← kind_eq_of_same hab, ha a hm]
  · intro hb a ha
    obtain ⟨b, hm, hab⟩ := exists_of_mem_left hf ha
    rw [kind_eq_of_same hab, hb b hm]

theorem ofDouble_cases {x : Double} (hx : x.isFinite) :
    (∃ n : Int, ofDouble x = .int n ∧ x.toRat = n ∧ n.natAbs < 2 ^ 53) ∨ ofDouble x = .real x := by
  unfold ofDouble
  split
  · next n hn =>
    split
    · next hlt => exact .inl ⟨n, rfl, (Binary.toInt?_eq_some_iff.mp hn).2, hlt⟩
    · exact .inr rfl
  · exact .inr (if_pos hx)

theorem kind_ofDouble {x : Double} (hx : x.isFinite) : (ofDouble x).kind = .number := by
  rcases ofDouble_cases hx with ⟨n, h, -⟩ | h <;> rw [h] <;> rfl

/-- Numbers that are written as the same value are equal. -/
theorem eq_of_same_ofDouble {x y : Double} (hx : x.isFinite) (hy : y.isFinite)
    (h : (ofDouble x).same (ofDouble y)) : x.eq y := by
  rcases ofDouble_cases hx with ⟨n, hn, hxn, -⟩ | hn <;>
    rcases ofDouble_cases hy with ⟨m, hm, hym, -⟩ | hm <;> rw [hn, hm] at h
  · obtain rfl := of_decide_eq_true h
    rw [Binary.eq_finite_iff hx hy, hxn, hym]
  · cases h
  · cases h
  · rcases (Bool.or_eq_true _ _).mp h with h | h
    · obtain rfl := of_decide_eq_true h
      exact Binary.eq_self (Binary.not_isNaN_of_isFinite hx)
    · exact h

end Json

namespace Node

theorem toItems_eq_map (items : List Node) : toItems items = items.map toJson := by
  induction items with
  | nil => rfl
  | cons item rest ih => rw [toItems, ih, List.map_cons]

theorem toFields_eq_map (fields : List (String × Node)) :
    toFields fields = fields.map fun field => (field.1, field.2.toJson) := by
  induction fields with
  | nil => rfl
  | cons first rest ih => rw [toFields, ih, List.map_cons]

theorem toJson_ofElements (items : List Node) :
    (ofElements items).toJson = .arr (items.map toJson) := by
  obtain ⟨values, rfl, h⟩ | ⟨-, ⟨texts, rfl, h⟩ | ⟨-, h⟩⟩ := ofElements_cases items
  · rw [h, toJson, List.map_map]
    rfl
  · rw [h, toJson, List.map_map]
    rfl
  · rw [h, toJson, toItems_eq_map]

/-- A number is written as a number, or as nothing if it is not finite. -/
theorem kind_ofDouble_cases (x : Double) :
    (Json.ofDouble x).kind = .number ∨ (Json.ofDouble x).kind = .null := by
  unfold Json.ofDouble
  split
  · split
    · exact .inl rfl
    · exact .inl rfl
  · split
    · exact .inl rfl
    · exact .inr rfl

theorem kind_toJson_of_number? {node : Node} (h : node.number? = none) :
    node.toJson.kind ≠ .number := by
  cases node with
  | scalar value => cases value with
    | number value => cases h
    | _ => intro hk; cases hk
  | _ => intro hk; cases hk

theorem kind_toJson_of_string? {node : Node} (h : node.string? = none) :
    node.toJson.kind ≠ .string := by
  cases node with
  | scalar value => cases value with
    | string text => cases h
    | number value =>
      intro hk
      rcases kind_ofDouble_cases value with hn | hn
      · cases hn.symm.trans hk
      · cases hn.symm.trans hk
    | _ => intro hk; cases hk
  | _ => intro hk; cases hk

theorem kind_toJson_scalar (value : Scalar) :
    (scalar value).toJson.kind ≠ .array ∧ (scalar value).toJson.kind ≠ .object := by
  cases value with
  | number value =>
    rcases kind_ofDouble_cases value with hn | hn
    · exact ⟨fun hk => (nomatch hn.symm.trans hk), fun hk => (nomatch hn.symm.trans hk)⟩
    · exact ⟨fun hk => (nomatch hn.symm.trans hk), fun hk => (nomatch hn.symm.trans hk)⟩
  | _ => exact ⟨nofun, nofun⟩

variable {items : List Node} {values : List Double} {texts : List String}

theorem kinds_of_numbers (h : (numbers values).Everywhere Canonical) :
    ∀ json ∈ values.map Json.ofDouble, json.kind = .number := by
  intro json hm
  obtain ⟨value, hv, rfl⟩ := List.mem_map.mp hm
  exact Json.kind_ofDouble (h.here value hv)

theorem kinds_of_strings : ∀ json ∈ texts.map Json.str, json.kind = .string := by
  intro json hm
  obtain ⟨text, _, rfl⟩ := List.mem_map.mp hm
  rfl

/-- A canonical array of strings has an element that is no number. -/
theorem not_kinds_of_strings (h : (strings texts).Everywhere Canonical) :
    ¬ ∀ json ∈ texts.map Json.str, json.kind = .number := by
  intro hall
  obtain ⟨text, hm⟩ := List.exists_mem_of_ne_nil texts h.here
  cases hall _ (List.mem_map_of_mem hm)

/-- A canonical mixed array has an element that is no number and one that is no string. -/
theorem not_kinds_of_mixed (h : (mixed items).Everywhere Canonical) :
    (¬ ∀ json ∈ toItems items, json.kind = .number) ∧
      ¬ ∀ json ∈ toItems items, json.kind = .string := by
  obtain ⟨⟨item, hm, hn⟩, ⟨other, ho, hs⟩⟩ := h.here
  rw [toItems_eq_map]
  exact ⟨fun hall => kind_toJson_of_number? hn (hall _ (List.mem_map_of_mem hm)),
    fun hall => kind_toJson_of_string? hs (hall _ (List.mem_map_of_mem ho))⟩

/-- Leaves that are written as the same value are equal. -/
theorem scalar_same_of_same_toJson {a b : Scalar} (ha : (scalar a).Everywhere Canonical)
    (hb : (scalar b).Everywhere Canonical) (h : a.toJson.same b.toJson) : a.same b := by
  have hk := Json.kind_eq_of_same h
  cases a with
  | number x => cases b with
    | number y => exact Json.eq_of_same_ofDouble ha.here hb.here h
    | _ => cases (Json.kind_ofDouble ha.here).symm.trans hk
  | null => cases b with
    | number y => cases hk.trans (Json.kind_ofDouble hb.here)
    | null => simp [Scalar.same]
    | _ => cases hk
  | bool x => cases b with
    | number y => cases hk.trans (Json.kind_ofDouble hb.here)
    | bool y =>
      obtain rfl := of_decide_eq_true h
      simp [Scalar.same]
    | _ => cases hk
  | string x => cases b with
    | number y => cases hk.trans (Json.kind_ofDouble hb.here)
    | string y =>
      obtain rfl := of_decide_eq_true h
      simp [Scalar.same]
    | _ => cases hk

theorem eq_of_same_numbers {as bs : List Double} (ha : ∀ a ∈ as, a.isFinite)
    (hb : ∀ b ∈ bs, b.isFinite)
    (h : Json.sameItems (as.map Json.ofDouble) (bs.map Json.ofDouble)) :
    List.Forall₂ (fun a b => Binary.eq a b) as bs := by
  induction as generalizing bs with
  | nil => cases bs with
    | nil => exact .nil
    | cons b bs => cases h
  | cons a as ih => cases bs with
    | nil => cases h
    | cons b bs =>
      obtain ⟨hi, hr⟩ := (Bool.and_eq_true _ _).mp h
      obtain ⟨ha, has⟩ := List.forall_mem_cons.mp ha
      obtain ⟨hb, hbs⟩ := List.forall_mem_cons.mp hb
      exact .cons (Json.eq_of_same_ofDouble ha hb hi) (ih has hbs hr)

theorem eq_of_same_strings {as bs : List String}
    (h : Json.sameItems (as.map Json.str) (bs.map Json.str)) : as = bs := by
  induction as generalizing bs with
  | nil => cases bs with
    | nil => rfl
    | cons b bs => cases h
  | cons a as ih => cases bs with
    | nil => cases h
    | cons b bs =>
      obtain ⟨hi, hr⟩ := (Bool.and_eq_true _ _).mp h
      rw [of_decide_eq_true hi, ih hr]

mutual

/-- Canonical trees that are written as the same value are equal. -/
theorem same_of_same_toJson {a b : Node} (ha : a.Everywhere Canonical) (hb : b.Everywhere Canonical)
    (h : a.toJson.same b.toJson) : a.same b := by
  have hk := Json.kind_eq_of_same h
  cases a with
  | object as => cases b with
    | object bs =>
      exact sameFields_of_same_toFields (fun _ hm => ha.field hm) (fun _ hm => hb.field hm) h
    | scalar b => exact absurd hk.symm (kind_toJson_scalar b).2
    | _ => cases hk
  | numbers as =>
    have hnumbers := kinds_of_numbers ha
    cases b with
    | numbers bs => exact same_numbers_iff.mpr (eq_of_same_numbers ha.here hb.here h)
    | strings bs =>
      exact absurd ((Json.kinds_of_sameItems h).mp hnumbers) (not_kinds_of_strings hb)
    | mixed bs => exact absurd ((Json.kinds_of_sameItems h).mp hnumbers) (not_kinds_of_mixed hb).1
    | scalar b => exact absurd hk.symm (kind_toJson_scalar b).1
    | object bs => cases hk
  | strings as => cases b with
    | numbers bs =>
      have hnumbers := kinds_of_numbers hb
      exact absurd ((Json.kinds_of_sameItems h).mpr hnumbers) (not_kinds_of_strings ha)
    | strings bs => exact decide_eq_true (eq_of_same_strings h)
    | mixed bs =>
      exact absurd ((Json.kinds_of_sameItems h).mp kinds_of_strings) (not_kinds_of_mixed hb).2
    | scalar b => exact absurd hk.symm (kind_toJson_scalar b).1
    | object bs => cases hk
  | mixed as => cases b with
    | numbers bs =>
      have hnumbers := kinds_of_numbers hb
      exact absurd ((Json.kinds_of_sameItems h).mpr hnumbers) (not_kinds_of_mixed ha).1
    | strings bs =>
      exact absurd ((Json.kinds_of_sameItems h).mpr kinds_of_strings) (not_kinds_of_mixed ha).2
    | mixed bs =>
      exact sameItems_of_same_toItems (fun _ hm => ha.item hm) (fun _ hm => hb.item hm) h
    | scalar b => exact absurd hk.symm (kind_toJson_scalar b).1
    | object bs => cases hk
  | scalar a => cases b with
    | scalar b => exact scalar_same_of_same_toJson ha hb h
    | object bs => exact absurd hk (kind_toJson_scalar a).2
    | _ => exact absurd hk (kind_toJson_scalar a).1

theorem sameItems_of_same_toItems {as bs : List Node} (ha : ∀ a ∈ as, a.Everywhere Canonical)
    (hb : ∀ b ∈ bs, b.Everywhere Canonical) (h : Json.sameItems (toItems as) (toItems bs)) :
    sameItems as bs := by
  match as, bs with
  | [], [] => rfl
  | a :: as, b :: bs =>
    obtain ⟨hi, hr⟩ := (Bool.and_eq_true _ _).mp h
    obtain ⟨ha, has⟩ := List.forall_mem_cons.mp ha
    obtain ⟨hb, hbs⟩ := List.forall_mem_cons.mp hb
    exact (Bool.and_eq_true _ _).mpr ⟨same_of_same_toJson ha hb hi,
      sameItems_of_same_toItems has hbs hr⟩

theorem sameFields_of_same_toFields {as bs : List (String × Node)}
    (ha : ∀ a ∈ as, a.2.Everywhere Canonical) (hb : ∀ b ∈ bs, b.2.Everywhere Canonical)
    (h : Json.sameFields (toFields as) (toFields bs)) : sameFields as bs := by
  match as, bs with
  | [], [] => rfl
  | (n, a) :: as, (m, b) :: bs =>
    obtain ⟨ha, has⟩ := List.forall_mem_cons.mp ha
    obtain ⟨hb, hbs⟩ := List.forall_mem_cons.mp hb
    simp only [toFields, Json.sameFields, sameFields, Bool.and_eq_true] at h ⊢
    exact ⟨⟨h.1.1, same_of_same_toJson ha hb h.1.2⟩, sameFields_of_same_toFields has hbs h.2⟩

end

end Node

end RenderVerdict
