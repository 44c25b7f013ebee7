/-! Named fields: entries in ascending order of name, at most one a name. Names are ordered by
their characters' code points. -/
namespace RenderVerdict.Fields

variable {α β : Type}

def Ascending (fields : List (String × α)) : Prop :=
  fields.Pairwise fun a b => a.1 < b.1

def insert (name : String) (value : α) : List (String × α) → List (String × α)
  | [] => [(name, value)]
  | (other, kept) :: rest =>
    if name < other then (name, value) :: (other, kept) :: rest
    else if name = other then (name, value) :: rest
    else (other, kept) :: insert name value rest

def ofList (entries : List (String × α)) : List (String × α) :=
  entries.foldl (fun fields entry => insert entry.1 entry.2 fields) []

def find? (name : String) (fields : List (String × α)) : Option α := fields.lookup name

def erase (name : String) (fields : List (String × α)) : List (String × α) :=
  fields.filter fun entry => entry.1 ≠ name

def names (entries : List String) : List String :=
  (ofList (entries.map fun name => (name, ()))).map (·.1)

theorem mem_insert {name : String} {value : α} {fields : List (String × α)} {entry : String × α}
    (h : entry ∈ insert name value fields) : entry = (name, value) ∨ entry ∈ fields := by
  induction fields with
  | nil => simpa [insert] using h
  | cons first rest ih =>
    obtain ⟨other, kept⟩ := first
    unfold insert at h
    split at h
    · simpa using h
    · split at h
      · rcases List.mem_cons.mp h with h | h <;> simp [h]
      · rcases List.mem_cons.mp h with h | h
        · simp [h]
        · rcases ih h with h | h <;> simp [h]

theorem ascending_insert {name : String} {value : α} {fields : List (String × α)}
    (h : Ascending fields) : Ascending (insert name value fields) := by
  induction fields with
  | nil => exact List.pairwise_singleton ..
  | cons first rest ih =>
    obtain ⟨other, kept⟩ := first
    obtain ⟨before, ascending⟩ := List.pairwise_cons.mp h
    unfold insert
    split
    · rename_i below
      refine List.pairwise_cons.mpr ⟨fun entry member => ?_, h⟩
      rcases List.mem_cons.mp member with rfl | member
      · exact below
      · exact String.lt_trans below (before entry member)
    · split
      · rename_i same
        exact List.pairwise_cons.mpr ⟨fun entry member => same ▸ before entry member, ascending⟩
      · rename_i notBelow notSame
        refine List.pairwise_cons.mpr ⟨fun entry member => ?_, ih ascending⟩
        rcases mem_insert member with rfl | member
        · exact String.not_le.mp fun reverse =>
            notSame (String.le_antisymm (String.not_lt.mp notBelow) reverse).symm
        · exact before entry member

/-- Fields made from any entries are in ascending order. -/
theorem ascending_ofList (entries : List (String × α)) : Ascending (ofList entries) := by
  suffices ∀ start : List (String × α), Ascending start →
      Ascending (entries.foldl (fun fields entry => insert entry.1 entry.2 fields) start) from
    this [] List.Pairwise.nil
  induction entries with
  | nil => exact fun _ h => h
  | cons entry rest ih => exact fun start h => ih _ (ascending_insert h)

end RenderVerdict.Fields
