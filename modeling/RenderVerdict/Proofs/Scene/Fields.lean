import Mathlib.Data.List.Induction
import RenderVerdict.Scene.Fields

/-! What is found under a name in fields, and making fields of entries. -/
namespace RenderVerdict.Fields

variable {α β : Type}

theorem ofList_concat (entries : List (String × α)) (entry : String × α) :
    ofList (entries ++ [entry]) = insert entry.1 entry.2 (ofList entries) := by
  simp [ofList]

theorem mem_ofList {entries : List (String × α)} {entry : String × α} (h : entry ∈ ofList entries) :
    entry ∈ entries := by
  induction entries using List.reverseRecOn with
  | nil => exact h
  | append_singleton entries last ih =>
    rw [ofList_concat] at h
    rcases mem_insert h with rfl | h
    · exact List.mem_append_right _ List.mem_cons_self
    · exact List.mem_append_left _ (ih h)

theorem mem_of_find? {name : String} {value : α} {fields : List (String × α)}
    (h : find? name fields = some value) : (name, value) ∈ fields := by
  obtain ⟨before, after, rfl, -⟩ := List.lookup_eq_some_iff.mp h
  simp

theorem find?_cons {name key : String} {value : α} {rest : List (String × α)} :
    find? name ((key, value) :: rest) = if name = key then some value else find? name rest := by
  unfold find?
  rw [List.lookup_cons]
  by_cases h : name = key
  · simp [h]
  · rw [beq_false_of_ne h, if_neg h]

theorem erase_cons {other key : String} {value : α} {rest : List (String × α)} :
    erase other ((key, value) :: rest) =
      if key = other then erase other rest else (key, value) :: erase other rest := by
  unfold erase
  rw [List.filter_cons]
  by_cases h : key = other <;> simp [h]

theorem find?_erase {name other : String} {fields : List (String × α)} :
    find? name (erase other fields) = if name = other then none else find? name fields := by
  induction fields with
  | nil => simp [find?, erase]
  | cons first rest ih =>
    obtain ⟨key, value⟩ := first
    rw [erase_cons, find?_cons]
    by_cases hk : key = other
    · rw [if_pos hk, ih, hk]
      by_cases hn : name = other <;> simp [hn]
    · by_cases hn : name = key
      · simp [hk, hn, find?_cons]
      · simp [hk, hn, find?_cons, ih]

theorem find?_insert {name other : String} {value : α} (fields : List (String × α)) :
    find? name (insert other value fields) =
      if name = other then some value else find? name fields := by
  induction fields with
  | nil => rw [insert, find?_cons]
  | cons first rest ih =>
    obtain ⟨key, kept⟩ := first
    rw [insert]
    split
    · rw [find?_cons]
    · split
      · next hsame =>
        subst hsame
        rw [find?_cons, find?_cons]
        split <;> rfl
      · next hother =>
        rw [find?_cons, ih, find?_cons]
        by_cases hk : name = key
        · rw [if_pos hk, if_neg (hk ▸ Ne.symm hother), if_pos hk]
        · rw [if_neg hk, if_neg hk]

/-- Of the entries with a name the last counts. -/
theorem find?_ofList (name : String) (entries : List (String × α)) :
    find? name (ofList entries) = find? name entries.reverse := by
  induction entries using List.reverseRecOn with
  | nil => rfl
  | append_singleton entries entry ih =>
    obtain ⟨key, value⟩ := entry
    rw [ofList_concat, find?_insert, ih, List.reverse_append, List.reverse_singleton,
      List.singleton_append, find?_cons]

theorem find?_eq_none_of_lt {name : String} {fields : List (String × α)}
    (h : ∀ entry ∈ fields, name < entry.1) : find? name fields = none := by
  cases hf : find? name fields with
  | none => rfl
  | some value => exact absurd (h _ (mem_of_find? hf)) (String.lt_irrefl name)

theorem find?_rest {name other : String} {value : α} {rest : List (String × α)}
    (h : Ascending ((other, value) :: rest)) : find? name rest =
      if name = other then none else find? name ((other, value) :: rest) := by
  split
  · next hname => exact hname ▸ find?_eq_none_of_lt (List.pairwise_cons.mp h).1
  · next hname => rw [find?_cons, if_neg hname]

theorem find?_eq_some_iff {name : String} {value : α} {fields : List (String × α)}
    (h : fields.Pairwise fun a b => a.1 ≠ b.1) :
    find? name fields = some value ↔ (name, value) ∈ fields := by
  refine ⟨mem_of_find?, fun hm => ?_⟩
  induction fields with
  | nil => cases hm
  | cons first rest ih =>
    obtain ⟨hfirst, hrest⟩ := List.pairwise_cons.mp h
    rw [find?_cons]
    rcases List.mem_cons.mp hm with rfl | hm
    · exact if_pos rfl
    · rw [if_neg (Ne.symm (hfirst _ hm)), ih hrest hm]

/-- Among fields with one value a name it does not matter which one is looked for first. -/
theorem find?_reverse {name : String} {fields : List (String × α)} (h : Ascending fields) :
    find? name fields.reverse = find? name fields := by
  have hne : fields.Pairwise fun a b => a.1 ≠ b.1 := by
    refine h.imp fun {a b} hlt heq => ?_
    rw [heq] at hlt
    exact String.lt_irrefl _ hlt
  have hne' : fields.reverse.Pairwise fun a b => a.1 ≠ b.1 :=
    List.pairwise_reverse.mpr (hne.imp Ne.symm)
  refine Option.ext fun value => ?_
  rw [find?_eq_some_iff hne', find?_eq_some_iff hne, List.mem_reverse]

/-- Fields in ascending order have no name before the first. -/
theorem not_lt_of_find? {name other : String} {value : α} {rest : List (String × α)}
    (h : Ascending ((other, value) :: rest))
    (hf : (find? name ((other, value) :: rest)).isSome) : ¬ name < other := by
  intro hlt
  have hnone : find? name ((other, value) :: rest) = none := by
    refine find?_eq_none_of_lt fun entry hm => ?_
    rcases List.mem_cons.mp hm with rfl | hm
    · exact hlt
    · exact String.lt_trans hlt ((List.pairwise_cons.mp h).1 entry hm)
  rw [hnone] at hf
  cases hf

theorem find?_map {f : α → β} {name : String} (fields : List (String × α)) :
    find? name (fields.map fun entry => (entry.1, f entry.2)) = (find? name fields).map f := by
  induction fields with
  | nil => rfl
  | cons first rest ih =>
    obtain ⟨key, value⟩ := first
    rw [List.map_cons, find?_cons, find?_cons, ih]
    split <;> rfl

theorem insert_of_forall_lt {name : String} {value : α} {fields : List (String × α)}
    (h : ∀ entry ∈ fields, name < entry.1) :
    insert name value fields = (name, value) :: fields := by
  cases fields with
  | nil => rfl
  | cons first rest => rw [insert, if_pos (h first List.mem_cons_self)]

/-- Putting a value in place and keeping some names only can be done in either order. -/
theorem filter_insert {p : String → Bool} {name : String} {value : α} {fields : List (String × α)}
    (h : Ascending fields) : (insert name value fields).filter (fun entry => p entry.1) =
      if p name then insert name value (fields.filter fun entry => p entry.1)
      else fields.filter fun entry => p entry.1 := by
  induction fields with
  | nil => cases hp : p name <;> simp [insert, hp]
  | cons first rest ih =>
    obtain ⟨other, kept⟩ := first
    obtain ⟨before, ascending⟩ := List.pairwise_cons.mp h
    rw [insert]
    split
    · next below =>
      have hall : ∀ entry ∈ ((other, kept) :: rest).filter (fun entry => p entry.1),
          name < entry.1 := by
        intro entry hm
        rcases List.mem_cons.mp (List.mem_filter.mp hm).1 with rfl | hm
        · exact below
        · exact String.lt_trans below (before entry hm)
      rw [insert_of_forall_lt hall, List.filter_cons]
    · next notBelow =>
      split
      · next same =>
        subst same
        cases hp : p name <;> simp [insert, hp]
      · next notSame =>
        rw [List.filter_cons, List.filter_cons, ih ascending]
        cases hp : p name <;> cases ho : p other <;>
          simp only [Bool.false_eq_true, ↓reduceIte]
        rw [insert, if_neg notBelow, if_neg notSame]

theorem filter_ofList {p : String → Bool} (entries : List (String × α)) :
    (ofList entries).filter (fun entry => p entry.1) =
      ofList (entries.filter fun entry => p entry.1) := by
  induction entries using List.reverseRecOn with
  | nil => rfl
  | append_singleton entries entry ih =>
    rw [ofList_concat, filter_insert (ascending_ofList _), ih, List.filter_append]
    cases hp : p entry.1 <;> simp [hp, ofList_concat]

theorem insert_map {f : α → β} {name : String} {value : α} (fields : List (String × α)) :
    insert name (f value) (fields.map fun entry => (entry.1, f entry.2)) =
      (insert name value fields).map fun entry => (entry.1, f entry.2) := by
  induction fields with
  | nil => rfl
  | cons first rest ih =>
    obtain ⟨other, kept⟩ := first
    rw [List.map_cons, insert, insert, ih]
    split
    · rfl
    · split <;> rfl

theorem ofList_map {f : α → β} (entries : List (String × α)) :
    ofList (entries.map fun entry => (entry.1, f entry.2)) =
      (ofList entries).map fun entry => (entry.1, f entry.2) := by
  induction entries using List.reverseRecOn with
  | nil => rfl
  | append_singleton entries entry ih =>
    rw [List.map_append, List.map_singleton, ofList_concat, ofList_concat, ih]
    exact insert_map (ofList entries)

end RenderVerdict.Fields
