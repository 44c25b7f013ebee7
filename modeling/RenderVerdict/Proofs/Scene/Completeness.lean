import RenderVerdict.Proofs.Scene.Comparison
import RenderVerdict.Proofs.Settings

/-! When a comparison of documents is complete: it has a report exactly if both documents can be
normalized and have every scalar section, once the payload and the nodes are taken out. -/
namespace RenderVerdict.Schema

variable {schema : Schema} {document : Document} {normal : NormalDocument} {name : String}
  {side : Side} {fault : Fault}

def Keeps (schema : Schema) (document : Document) (name : String) : Prop :=
  name ≠ "nodes" ∧ name ≠ schema.payload ∧ ∃ node, document.find? name = some node

theorem keeps_iff (h : schema.normalize document = .ok normal) :
    schema.Keeps document name ↔ ∃ node, normal.find? name = some node := by
  obtain ⟨-, -, hcontext, -⟩ := normalize_eq_ok_iff.mp h
  rw [NormalDocument.find?, hcontext, find?_contextOf, Keeps]
  by_cases hn : name = "nodes" <;> by_cases hp : name = schema.payload <;> simp [hn, hp]

theorem not_keeps_iff (h : schema.normalize document = .ok normal) :
    ¬ schema.Keeps document name ↔ normal.find? name = none := by
  rw [keeps_iff h, ← Option.isSome_iff_exists, Bool.not_eq_true, Option.isSome_eq_false_iff,
    Option.isNone_iff_eq_none]

def lacking (side : Side) (name : String) : Fault := .malformed (.sectionMissing side name)

theorem lacking_not_ofReference : ¬ (lacking side name).OfReference :=
  fun h => h.ne_malformed.2.2 side name rfl

/-- Normalization asks for no section but the nodes. -/
theorem normalize_ne_lacking (document : Document) :
    schema.normalize document ≠ .error (.fault (lacking side name)) := by
  refine normalize_avoids (fun h => ?_) (fun fault hreference h => ?_) (fun h => ?_)
    (fun h => ?_) document
  · cases h
  · obtain rfl := Stop.fault.inj h
    exact lacking_not_ofReference hreference
  · cases h
  · cases h

theorem requireSection_eq_error_iff :
    requireSection side normal name = .error fault ↔
      normal.find? name = none ∧ fault = lacking side name := by
  unfold requireSection lacking
  cases normal.find? name <;> simp [eq_comm]

section Sections

variable {actual expected : NormalDocument}

theorem exists_compareSection_iff :
    (∃ found, compareSection actual expected name = .ok found) ↔
      (∃ node, actual.find? name = some node) ∧ ∃ node, expected.find? name = some node := by
  simp only [compareSection_eq_ok_iff]
  constructor
  · rintro ⟨_, a, e, ha, he, -⟩
    exact ⟨⟨a, ha⟩, ⟨e, he⟩⟩
  · rintro ⟨⟨a, ha⟩, ⟨e, he⟩⟩
    exact ⟨_, a, e, ha, he, rfl⟩

/-- A section is asked for on the actual side first. -/
theorem compareSection_eq_error_iff : compareSection actual expected name = .error fault ↔
    actual.find? name = none ∧ fault = lacking .actual name ∨
      (∃ node, actual.find? name = some node) ∧ expected.find? name = none ∧
        fault = lacking .expected name := by
  unfold compareSection
  simp only [bind_eq_error_iff, requireSection_eq_ok_iff, requireSection_eq_error_iff]
  constructor
  · rintro (h | ⟨a, ha, h | ⟨_, _, h⟩⟩)
    · exact .inl h
    · exact .inr ⟨⟨a, ha⟩, h⟩
    · cases h
  · rintro (h | ⟨⟨a, ha⟩, h⟩)
    · exact .inl h
    · exact .inr ⟨a, ha, .inl h⟩

theorem compareNormal_eq_error_iff : schema.compareNormal actual expected = .error fault ↔
    ∃ before name after, schema.scalarSections = before ++ name :: after ∧
      (∀ other ∈ before, ∃ found, compareSection actual expected other = .ok found) ∧
      compareSection actual expected name = .error fault := by
  unfold compareNormal
  rw [bind_eq_error_iff, mapM_eq_error_iff, or_iff_left]
  rintro ⟨_, _, h⟩
  cases h

theorem exists_compareNormal_iff : (∃ report, schema.compareNormal actual expected = .ok report) ↔
    ∀ name ∈ schema.scalarSections, (∃ node, actual.find? name = some node) ∧
      ∃ node, expected.find? name = some node := by
  simp only [compareNormal_eq_ok_iff, ← exists_compareSection_iff]
  constructor
  · rintro ⟨_, found, hfound, -⟩ name hm
    obtain ⟨other, -, hother⟩ := exists_of_mem_left hfound hm
    exact ⟨other, hother⟩
  · intro h
    obtain ⟨found, hfound⟩ := exists_forall₂ h
    exact ⟨_, found, hfound, rfl⟩

end Sections

/-- The first section that a comparison looks for in vain, and the side on which it does. It goes
through the scalar sections in order and looks at the actual side of each first. -/
def Lacks (schema : Schema) (actual expected : Document) (side : Side) (name : String) : Prop :=
  ∃ before after, schema.scalarSections = before ++ name :: after ∧
    (∀ other ∈ before, schema.Keeps actual other ∧ schema.Keeps expected other) ∧
    match side with
    | .actual => ¬ schema.Keeps actual name
    | .expected => schema.Keeps actual name ∧ ¬ schema.Keeps expected name

variable {actual expected : Document} {a e : NormalDocument}

theorem exists_compare_iff : (∃ report, schema.compare actual expected = .ok report) ↔
    (∃ a, schema.normalize actual = .ok a) ∧ (∃ e, schema.normalize expected = .ok e) ∧
      ∀ name ∈ schema.scalarSections, schema.Keeps actual name ∧ schema.Keeps expected name := by
  have hsections : ∀ {a e}, schema.normalize actual = .ok a → schema.normalize expected = .ok e →
      ((∃ report, schema.compareNormal a e = .ok report) ↔ ∀ name ∈ schema.scalarSections,
        schema.Keeps actual name ∧ schema.Keeps expected name) := by
    intro a e ha he
    simp only [exists_compareNormal_iff, keeps_iff ha, keeps_iff he]
  constructor
  · rintro ⟨report, h⟩
    obtain ⟨a, e, ha, he, h⟩ := compare_eq_ok_iff.mp h
    exact ⟨⟨a, ha⟩, ⟨e, he⟩, (hsections ha he).mp ⟨report, h⟩⟩
  · rintro ⟨⟨a, ha⟩, ⟨e, he⟩, h⟩
    obtain ⟨report, h⟩ := (hsections ha he).mpr h
    exact ⟨report, compare_eq_ok_iff.mpr ⟨a, e, ha, he, h⟩⟩

theorem compareNormal_eq_lacking_iff (ha : schema.normalize actual = .ok a)
    (he : schema.normalize expected = .ok e) :
    schema.compareNormal a e = .error (lacking side name) ↔
      schema.Lacks actual expected side name := by
  have hlacking : ∀ {found : String}, compareSection a e found = .error (lacking side name) ↔
      found = name ∧ match side with
        | .actual => ¬ schema.Keeps actual name
        | .expected => schema.Keeps actual name ∧ ¬ schema.Keeps expected name := by
    intro found
    rw [compareSection_eq_error_iff, ← keeps_iff ha, ← not_keeps_iff ha, ← not_keeps_iff he]
    by_cases hname : found = name
    · subst hname
      cases side <;> simp [lacking]
    · cases side <;> simp [lacking, hname, Ne.symm hname]
  simp only [compareNormal_eq_error_iff, exists_compareSection_iff, ← keeps_iff ha, ← keeps_iff he,
    hlacking, Lacks]
  constructor
  · rintro ⟨before, _, after, hsplit, hbefore, rfl, h⟩
    exact ⟨before, after, hsplit, hbefore, h⟩
  · rintro ⟨before, after, hsplit, hbefore, h⟩
    exact ⟨before, name, after, hsplit, hbefore, rfl, h⟩

theorem compare_eq_lacking_iff :
    schema.compare actual expected = .error (.fault (lacking side name)) ↔
      (∃ a, schema.normalize actual = .ok a) ∧ (∃ e, schema.normalize expected = .ok e) ∧
        schema.Lacks actual expected side name := by
  unfold compare
  simp only [bind_eq_error_iff, Stop.ofFault_eq_fault_iff, normalize_ne_lacking, false_or]
  constructor
  · rintro ⟨a, ha, e, he, h⟩
    exact ⟨⟨a, ha⟩, ⟨e, he⟩, (compareNormal_eq_lacking_iff ha he).mp h⟩
  · rintro ⟨⟨a, ha⟩, ⟨e, he⟩, h⟩
    exact ⟨a, ha, e, he, (compareNormal_eq_lacking_iff ha he).mpr h⟩

/-- Under a valid schema a comparison always comes to an end. It has a report exactly if both
documents can be normalized and keep every scalar section, and its fault is that a side lacks a
section exactly if both can be normalized and this is the first that one of them does not keep. -/
theorem compare_complete (valid : schema.validate = .ok ()) (actual expected : Document) :
    ∃ result, Stop.settle (schema.compare actual expected) = some result ∧
      ((∃ report, result = .ok report) ↔
        (∃ a, schema.normalize actual = .ok a) ∧ (∃ e, schema.normalize expected = .ok e) ∧
        ∀ name ∈ schema.scalarSections, schema.Keeps actual name ∧ schema.Keeps expected name) ∧
      ∀ side name, result = .error (.malformed (.sectionMissing side name)) ↔
        (∃ a, schema.normalize actual = .ok a) ∧ (∃ e, schema.normalize expected = .ok e) ∧
        schema.Lacks actual expected side name := by
  have hplaces : schema.places ≤ Binary.maxPlaces :=
    (places_le_of_validate valid).trans (by decide)
  obtain ⟨result, hresult⟩ := Stop.exists_settle (compare_settles hplaces actual expected)
  refine ⟨result, hresult, ?_, fun side name => ?_⟩
  · rw [← exists_compare_iff]
    simp only [← Stop.settle_eq_ok_iff, hresult, Option.some.injEq]
  · rw [← compare_eq_lacking_iff, ← Stop.settle_eq_error_iff, hresult, Option.some.injEq]
    rfl

def requiring (name : String) : Schema := { standard with scalarSections := [name] }

def bareDocument : Document := ⟨[("buffers", .numbers []), ("nodes", .numbers [])]⟩

theorem normalize_bareDocument (name : String) :
    (requiring name).normalize bareDocument = .ok ⟨⟨[]⟩, []⟩ :=
  normalize_eq_ok_iff.mpr ⟨[], by rfl, by rfl, .nil⟩

theorem compare_complete_scene :
    (requiring "scene").validate = .ok () ∧
      Stop.settle ((requiring "scene").compare bareDocument bareDocument) =
        some (.error (.malformed (.sectionMissing .actual "scene"))) := by
  have hvalid : (requiring "scene").validate = .ok () := by rfl
  obtain ⟨result, hresult, -, hlacking⟩ := compare_complete hvalid bareDocument bareDocument
  have hmissing : ¬ (requiring "scene").Keeps bareDocument "scene" := fun ⟨_, _, _, h⟩ => by cases h
  refine ⟨hvalid, hresult.trans (congrArg some ((hlacking .actual "scene").mpr ?_))⟩
  exact ⟨⟨_, normalize_bareDocument _⟩, ⟨_, normalize_bareDocument _⟩, [], [], rfl,
    fun _ hm => absurd hm List.not_mem_nil, hmissing⟩

/-- A valid schema requires a section that a document has, and yet the document, which can be
normalized, cannot be compared for want of it. -/
def Overlooks (schema : Schema) (document : Document) (name : String) : Prop :=
  schema.validate = .ok () ∧ name ∈ schema.scalarSections ∧
    (∃ node, document.find? name = some node) ∧ (∃ a, schema.normalize document = .ok a) ∧
    schema.compare document document = .error (.fault (.malformed (.sectionMissing .actual name)))

theorem overlooks_of_not_keeps (hfound : ∃ node, bareDocument.find? name = some node)
    (hlost : ¬ (requiring name).Keeps bareDocument name) :
    (requiring name).Overlooks bareDocument name :=
  ⟨by rfl, List.mem_singleton_self name, hfound, ⟨_, normalize_bareDocument name⟩,
    compare_eq_lacking_iff.mpr ⟨⟨_, normalize_bareDocument name⟩, ⟨_, normalize_bareDocument name⟩,
      [], [], rfl, fun _ hm => absurd hm List.not_mem_nil, hlost⟩⟩

/-- Neither the payload nor the nodes are found as scalar sections, although the document has
them. -/
theorem compare_overlooks : (requiring "buffers").Overlooks bareDocument "buffers" ∧
    (requiring "nodes").Overlooks bareDocument "nodes" :=
  ⟨overlooks_of_not_keeps ⟨_, rfl⟩ fun h => h.2.1 rfl,
    overlooks_of_not_keeps ⟨_, rfl⟩ fun h => h.1 rfl⟩

end RenderVerdict.Schema
