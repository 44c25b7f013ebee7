import RenderVerdict.Proofs.Scene.Pairing
import RenderVerdict.Proofs.Scene.Rendering
import RenderVerdict.Proofs.Scene.Settling

/-! Comparing documents: matching is an equivalence, swapping the sides swaps the report, and what
a report lists as evidence does differ. -/
namespace RenderVerdict

def SectionMismatch.swap (mismatch : SectionMismatch) : SectionMismatch :=
  ⟨mismatch.name, mismatch.expected, mismatch.actual⟩

def NodeMismatch.swap (mismatch : NodeMismatch) : NodeMismatch :=
  ⟨mismatch.unexpected, mismatch.missing⟩

namespace StructureReport

def swap (report : StructureReport) : StructureReport where
  sections := report.sections.map SectionMismatch.swap
  nodes := report.nodes.map NodeMismatch.swap
  actualNodes := report.expectedNodes
  expectedNodes := report.actualNodes

def missing (report : StructureReport) : List Json :=
  (report.nodes.map NodeMismatch.missing).getD []

def unexpected (report : StructureReport) : List Json :=
  (report.nodes.map NodeMismatch.unexpected).getD []

theorem isMatch_iff {report : StructureReport} :
    report.isMatch ↔ report.sections = [] ∧ report.nodes = none := by
  simp [isMatch]

end StructureReport

theorem Node.difference?_swap (actual expected : List Node) :
    difference? expected actual = (difference? actual expected).map NodeMismatch.swap := by
  unfold difference?
  rw [pairOff_swap actual expected]
  cases pairOff actual expected with
  | mk left right => cases left <;> cases right <;> simp [NodeMismatch.swap]

/-- Both documents have every scalar section, with the same value, and the same nodes up to
order. -/
structure Matches (schema : Schema) (actual expected : NormalDocument) : Prop where
  sections : ∀ name ∈ schema.scalarSections, ∃ a e, actual.find? name = some a ∧
    expected.find? name = some e ∧ a.same e
  nodes : Node.SameNodes actual.nodes expected.nodes

namespace Schema

variable {schema : Schema} {actual expected : NormalDocument} {name : String}

theorem requireSection_eq_ok_iff {side : Side} {node : Node} :
    requireSection side actual name = .ok node ↔ actual.find? name = some node := by
  unfold requireSection
  cases actual.find? name <;> simp

theorem compareSection_eq_ok_iff {found : Option SectionMismatch} :
    compareSection actual expected name = .ok found ↔
      ∃ a e, actual.find? name = some a ∧ expected.find? name = some e ∧
        found = if a.same e then none else some ⟨name, a.toJson, e.toJson⟩ := by
  unfold compareSection
  simp only [bind_eq_ok_iff, requireSection_eq_ok_iff, pure_eq_ok_iff]
  constructor
  · rintro ⟨a, ha, e, he, hf⟩
    exact ⟨a, e, ha, he, hf⟩
  · rintro ⟨a, e, ha, he, hf⟩
    exact ⟨a, ha, e, he, hf⟩

theorem compareSection_swap {found : Option SectionMismatch}
    (h : compareSection actual expected name = .ok found) :
    compareSection expected actual name = .ok (found.map SectionMismatch.swap) := by
  obtain ⟨a, e, ha, he, rfl⟩ := compareSection_eq_ok_iff.mp h
  refine compareSection_eq_ok_iff.mpr ⟨e, a, he, ha, ?_⟩
  rw [Node.same_comm e a]
  split <;> rfl

theorem compareNormal_eq_ok_iff {report : StructureReport} :
    schema.compareNormal actual expected = .ok report ↔
      ∃ found, List.Forall₂ (fun name other => compareSection actual expected name = .ok other)
          schema.scalarSections found ∧
        report = ⟨found.filterMap id, Node.difference? actual.nodes expected.nodes,
          actual.nodes.length, expected.nodes.length⟩ := by
  unfold compareNormal
  simp only [bind_eq_ok_iff, mapM_eq_ok_iff, pure_eq_ok_iff]

/-- Exchanging the documents exchanges the sides of the report. -/
theorem compareNormal_swap {report : StructureReport}
    (h : schema.compareNormal actual expected = .ok report) :
    schema.compareNormal expected actual = .ok report.swap := by
  obtain ⟨found, hf, rfl⟩ := compareNormal_eq_ok_iff.mp h
  refine compareNormal_eq_ok_iff.mpr ⟨found.map (Option.map SectionMismatch.swap), ?_, ?_⟩
  · rw [List.forall₂_map_right_iff]
    exact hf.imp fun _ _ h => compareSection_swap h
  · rw [StructureReport.swap, Node.difference?_swap actual.nodes, List.map_filterMap,
      List.filterMap_map]
    rfl

/-- The sections of a report are the scalar sections that differ. -/
theorem mem_sections {report : StructureReport} {mismatch : SectionMismatch}
    (h : schema.compareNormal actual expected = .ok report) (hm : mismatch ∈ report.sections) :
    ∃ a e, actual.find? mismatch.name = some a ∧ expected.find? mismatch.name = some e ∧
      mismatch.actual = a.toJson ∧ mismatch.expected = e.toJson ∧ ¬ a.same e := by
  obtain ⟨found, hf, rfl⟩ := compareNormal_eq_ok_iff.mp h
  obtain ⟨other, ho, rfl⟩ := List.mem_filterMap.mp hm
  obtain ⟨name, -, hc⟩ := exists_of_mem_right hf ho
  obtain ⟨a, e, ha, he, hs⟩ := compareSection_eq_ok_iff.mp hc
  split at hs
  · cases hs
  · next hns =>
    cases hs
    exact ⟨a, e, ha, he, rfl, rfl, hns⟩

/-- A report lists no section exactly when all scalar sections are the same. -/
theorem sections_eq_nil_iff {report : StructureReport}
    (h : schema.compareNormal actual expected = .ok report) :
    report.sections = [] ↔ ∀ name ∈ schema.scalarSections, ∃ a e, actual.find? name = some a ∧
      expected.find? name = some e ∧ a.same e := by
  obtain ⟨found, hf, rfl⟩ := compareNormal_eq_ok_iff.mp h
  rw [List.filterMap_eq_nil_iff]
  constructor
  · intro hall name hm
    obtain ⟨other, ho, hc⟩ := exists_of_mem_left hf hm
    obtain ⟨a, e, ha, he, hs⟩ := compareSection_eq_ok_iff.mp hc
    rw [show other = none from hall other ho] at hs
    exact ⟨a, e, ha, he, by by_contra hns; simp [hns] at hs⟩
  · intro hall other ho
    obtain ⟨name, hm, hc⟩ := exists_of_mem_right hf ho
    obtain ⟨a, e, ha, he, hs⟩ := hall name hm
    obtain ⟨b, d, hb, hd, hs'⟩ := compareSection_eq_ok_iff.mp hc
    rw [Option.some.inj (hb.symm.trans ha), Option.some.inj (hd.symm.trans he), if_pos hs] at hs'
    exact hs'

theorem counts_of_report {report : StructureReport}
    (h : schema.compareNormal actual expected = .ok report) :
    report.actualNodes = actual.nodes.length ∧ report.expectedNodes = expected.nodes.length := by
  obtain ⟨found, -, rfl⟩ := compareNormal_eq_ok_iff.mp h
  exact ⟨rfl, rfl⟩

/-- A report lists the nodes that pairing leaves over. -/
theorem lists_of_report {report : StructureReport}
    (h : schema.compareNormal actual expected = .ok report) :
    report.missing = (Node.pairOff actual.nodes expected.nodes).2.map Node.toJson ∧
      report.unexpected = (Node.pairOff actual.nodes expected.nodes).1.map Node.toJson := by
  obtain ⟨found, -, rfl⟩ := compareNormal_eq_ok_iff.mp h
  exact Node.lists_of_difference actual.nodes expected.nodes

/-- The sections that a report lists differ as JSON values. -/
theorem sections_differ {report : StructureReport} (ha : actual.context.Canonical)
    (he : expected.context.Canonical) (h : schema.compareNormal actual expected = .ok report) :
    ∀ mismatch ∈ report.sections, ¬ mismatch.actual.same mismatch.expected := by
  intro mismatch hm hsame
  obtain ⟨a, e, hfa, hfe, haj, hej, hns⟩ := mem_sections h hm
  rw [haj, hej] at hsame
  exact hns (Node.same_of_same_toJson (ha _ a hfa) (he _ e hfe) hsame)

/-- No JSON value is listed both as missing and as unexpected. -/
theorem lists_disjoint {report : StructureReport}
    (ha : ∀ node ∈ actual.nodes, node.Everywhere Node.Canonical)
    (he : ∀ node ∈ expected.nodes, node.Everywhere Node.Canonical)
    (h : schema.compareNormal actual expected = .ok report) :
    ∀ missing ∈ report.missing, ∀ unexpected ∈ report.unexpected, ¬ missing.same unexpected := by
  obtain ⟨hmissing, hunexpected⟩ := lists_of_report h
  rw [hmissing, hunexpected]
  intro missing hm unexpected hu hsame
  obtain ⟨e, hme, rfl⟩ := List.mem_map.mp hm
  obtain ⟨a, hma, rfl⟩ := List.mem_map.mp hu
  obtain ⟨hleft, hright⟩ := Node.pairOff_sublist actual.nodes expected.nodes
  exact Node.not_same_of_mem_pairOff hma hme
    (Node.same_of_same_toJson (he e (hright.subset hme)) (ha a (hleft.subset hma)) hsame)

theorem lists_account {report : StructureReport}
    (h : schema.compareNormal actual expected = .ok report) :
    report.unexpected.length + report.expectedNodes =
      report.missing.length + report.actualNodes := by
  obtain ⟨hmissing, hunexpected⟩ := lists_of_report h
  obtain ⟨hactual, hexpected⟩ := counts_of_report h
  rw [hmissing, hunexpected, List.length_map, List.length_map, hactual, hexpected,
    Node.length_pairOff, Nat.add_comm]

/-- A report is a match exactly when the documents match. -/
theorem isMatch_iff_matches {report : StructureReport}
    (hc : ∀ node ∈ actual.nodes, node.Everywhere Node.Canonical)
    (h : schema.compareNormal actual expected = .ok report) :
    report.isMatch ↔ Matches schema actual expected := by
  have hnodes : report.nodes = none ↔ Node.SameNodes actual.nodes expected.nodes := by
    obtain ⟨found, -, rfl⟩ := compareNormal_eq_ok_iff.mp h
    exact Node.difference?_eq_none_iff fun node hm => Node.same_self (hc node hm)
  rw [StructureReport.isMatch_iff, sections_eq_nil_iff h, hnodes]
  exact ⟨fun ⟨hs, hn⟩ => ⟨hs, hn⟩, fun hm => ⟨hm.sections, hm.nodes⟩⟩

/-- Documents that match are compared without a fault. -/
theorem exists_report_of_matches (h : Matches schema actual expected) :
    ∃ report, schema.compareNormal actual expected = .ok report := by
  have hfound : ∀ name ∈ schema.scalarSections, ∃ found,
      compareSection actual expected name = .ok found := by
    intro name hm
    obtain ⟨a, e, ha, he, -⟩ := h.sections name hm
    exact ⟨_, compareSection_eq_ok_iff.mpr ⟨a, e, ha, he, rfl⟩⟩
  obtain ⟨found, hf⟩ := exists_forall₂ hfound
  exact ⟨_, compareNormal_eq_ok_iff.mpr ⟨found, hf, rfl⟩⟩

theorem compare_eq_ok_iff {actual expected : Document} {report : StructureReport} :
    schema.compare actual expected = .ok report ↔
      ∃ a e, schema.normalize actual = .ok a ∧ schema.normalize expected = .ok e ∧
        schema.compareNormal a e = .ok report := by
  unfold compare
  simp only [bind_eq_ok_iff, Stop.ofFault_eq_ok_iff]
  constructor
  · rintro ⟨a, ha, e, he, h⟩
    exact ⟨a, e, ha, he, h⟩
  · rintro ⟨a, e, ha, he, h⟩
    exact ⟨a, ha, e, he, h⟩

theorem compare_swap {actual expected : Document} {report : StructureReport}
    (h : schema.compare actual expected = .ok report) :
    schema.compare expected actual = .ok report.swap := by
  obtain ⟨a, e, ha, he, h⟩ := compare_eq_ok_iff.mp h
  exact compare_eq_ok_iff.mpr ⟨e, a, he, ha, compareNormal_swap h⟩

/-- Documents match when they can be compared and the report is a match. -/
theorem compare_matches_iff {actual expected : Document} {a e : NormalDocument}
    (hd : actual.Canonical) (ha : schema.normalize actual = .ok a)
    (he : schema.normalize expected = .ok e) :
    (∃ report, schema.compare actual expected = .ok report ∧ report.isMatch) ↔
      Matches schema a e := by
  have hc := (canonical_normalize hd ha).2
  constructor
  · rintro ⟨report, h, hm⟩
    obtain ⟨a', e', ha', he', h⟩ := compare_eq_ok_iff.mp h
    obtain rfl := Except.ok.inj (ha.symm.trans ha')
    obtain rfl := Except.ok.inj (he.symm.trans he')
    exact (isMatch_iff_matches hc h).mp hm
  · intro hm
    obtain ⟨report, h⟩ := exists_report_of_matches hm
    exact ⟨report, compare_eq_ok_iff.mpr ⟨a, e, ha, he, h⟩, (isMatch_iff_matches hc h).mpr hm⟩

end Schema

namespace Matches

variable {schema : Schema} {first second third : NormalDocument}

theorem trans (h : Matches schema first second) (k : Matches schema second third) :
    Matches schema first third := by
  refine ⟨fun name hm => ?_, h.nodes.trans k.nodes⟩
  obtain ⟨a, b, ha, hb, hab⟩ := h.sections name hm
  obtain ⟨b', c, hb', hc, hbc⟩ := k.sections name hm
  obtain rfl := Option.some.inj (hb.symm.trans hb')
  exact ⟨a, c, ha, hc, Node.same_trans hab hbc⟩

/-- A document with finite numbers matches itself when it can be compared with itself. -/
theorem self {report : StructureReport} (hc : first.context.Canonical)
    (hn : ∀ node ∈ first.nodes, node.Everywhere Node.Canonical)
    (h : schema.compareNormal first first = .ok report) : Matches schema first first := by
  refine ⟨fun name hm => ?_, .refl fun node hm => Node.same_self (hn node hm)⟩
  obtain ⟨found, hf, -⟩ := Schema.compareNormal_eq_ok_iff.mp h
  obtain ⟨_, -, hs⟩ := exists_of_mem_left hf hm
  obtain ⟨a, -, ha, -, -⟩ := Schema.compareSection_eq_ok_iff.mp hs
  exact ⟨a, a, ha, ha, Node.same_self (hc name a ha)⟩

end Matches

namespace Schema

/-- Matching is reflexive and transitive, and exchanging the sides of a comparison exchanges the
sides of its report and nothing else. -/
theorem compare_is_equivalence (schema : Schema) (a b c : Document) (ha : a.Parsed)
    (hb : b.Parsed) :
    (∀ report, schema.compare a a = .ok report → report.isMatch) ∧
    ((∃ report, schema.compare a b = .ok report) ↔ ∃ report, schema.compare b a = .ok report) ∧
    (∀ report, schema.compare a b = .ok report → schema.compare b a = .ok report.swap) ∧
    ∀ first second, schema.compare a b = .ok first → first.isMatch →
      schema.compare b c = .ok second → second.isMatch →
        ∃ report, schema.compare a c = .ok report ∧ report.isMatch := by
  refine ⟨?_, ?_, fun _ => compare_swap, ?_⟩
  · intro report h
    obtain ⟨n, n', hn, hn', h⟩ := compare_eq_ok_iff.mp h
    obtain rfl := Except.ok.inj (hn.symm.trans hn')
    obtain ⟨hcontext, hnodes⟩ := canonical_normalize ha.canonical hn
    exact (isMatch_iff_matches hnodes h).mpr (.self hcontext hnodes h)
  · exact ⟨fun ⟨_, h⟩ => ⟨_, compare_swap h⟩, fun ⟨_, h⟩ => ⟨_, compare_swap h⟩⟩
  · intro first second h hm k km
    obtain ⟨na, nb, hna, hnb, -⟩ := compare_eq_ok_iff.mp h
    obtain ⟨_, nc, _, hnc, -⟩ := compare_eq_ok_iff.mp k
    have hab := (compare_matches_iff ha.canonical hna hnb).mp ⟨first, h, hm⟩
    have hbc := (compare_matches_iff hb.canonical hnb hnc).mp ⟨second, k, km⟩
    exact (compare_matches_iff ha.canonical hna hnc).mpr (hab.trans hbc)

def brief : Schema := { standard with scalarSections := ["scene"] }

def oneLamp : Document :=
  ⟨[("nodes", .mixed [.object [("name", .scalar (.string "a"))]]),
    ("scene", .scalar (.string "day"))]⟩

def twoLamps : Document :=
  ⟨[("nodes", .mixed [.scalar (.string "lamp"), .object [("name", .scalar (.string "b"))]]),
    ("scene", .scalar (.string "night"))]⟩

theorem parsed_oneLamp : oneLamp.Parsed :=
  ⟨.obj [("nodes", .arr [.obj [("name", .str "a")]]), ("scene", .str "day")], by decide, by rfl⟩

theorem parsed_twoLamps : twoLamps.Parsed :=
  ⟨.obj [("nodes", .arr [.str "lamp", .obj [("name", .str "b")]]), ("scene", .str "night")],
    by decide, by rfl⟩

def lampsReport : StructureReport where
  sections := [⟨"scene", .str "night", .str "day"⟩]
  nodes := some ⟨[], [.str "lamp"]⟩
  actualNodes := 2
  expectedNodes := 1

theorem compare_lamps : brief.compare twoLamps oneLamp = .ok lampsReport := by
  have hname : "name" ∈ brief.identity := by decide
  refine compare_eq_ok_iff.mpr ⟨⟨brief.contextOf twoLamps, [.scalar (.string "lamp"), .object []]⟩,
    ⟨brief.contextOf oneLamp, [.object []]⟩, ?_, ?_, by rfl⟩
  · exact normalize_eq_ok_iff.mpr ⟨_, by rfl, rfl,
      .cons .scalar (.cons (.object (.dropped hname .nil)) .nil)⟩
  · exact normalize_eq_ok_iff.mpr ⟨_, by rfl, rfl, .cons (.object (.dropped hname .nil)) .nil⟩

theorem compare_is_equivalence_lamps : brief.compare oneLamp twoLamps = .ok lampsReport.swap :=
  (compare_is_equivalence brief twoLamps oneLamp oneLamp parsed_twoLamps parsed_oneLamp).2.2.1 _
    compare_lamps

/-- The evidence of a report holds: it is a match exactly when the documents match, the sections it
lists differ as JSON values, no value is listed both as missing and as unexpected, and the lists
account for the numbers of nodes. -/
theorem report_is_sound {schema : Schema} {actual expected : Document} {report : StructureReport}
    (ha : actual.Parsed) (he : expected.Parsed) (h : schema.compare actual expected = .ok report) :
    (∃ a e, schema.normalize actual = .ok a ∧ schema.normalize expected = .ok e ∧
      (report.isMatch ↔ Matches schema a e) ∧
      report.actualNodes = a.nodes.length ∧ report.expectedNodes = e.nodes.length) ∧
    (∀ mismatch ∈ report.sections, ¬ mismatch.actual.same mismatch.expected) ∧
    (∀ missing ∈ report.missing, ∀ unexpected ∈ report.unexpected, ¬ missing.same unexpected) ∧
    report.unexpected.length + report.expectedNodes =
      report.missing.length + report.actualNodes := by
  obtain ⟨a, e, hna, hne, h⟩ := compare_eq_ok_iff.mp h
  obtain ⟨hca, ha⟩ := canonical_normalize ha.canonical hna
  obtain ⟨hce, he⟩ := canonical_normalize he.canonical hne
  obtain ⟨hactual, hexpected⟩ := counts_of_report h
  exact ⟨⟨a, e, hna, hne, isMatch_iff_matches ha h, hactual, hexpected⟩,
    sections_differ hca hce h, lists_disjoint ha he h, lists_account h⟩

theorem report_is_sound_lamps :
    ¬ (Json.str "night").same (.str "day") ∧
      lampsReport.unexpected.length + lampsReport.expectedNodes =
        lampsReport.missing.length + lampsReport.actualNodes := by
  obtain ⟨-, hsections, -, hcount⟩ := report_is_sound parsed_twoLamps parsed_oneLamp compare_lamps
  exact ⟨hsections _ List.mem_cons_self, hcount⟩

end Schema

end RenderVerdict
