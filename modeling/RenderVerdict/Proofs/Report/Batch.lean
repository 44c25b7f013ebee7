import RenderVerdict.Proofs.Files.Reading
import RenderVerdict.Proofs.Report.Cases
import RenderVerdict.Proofs.Scene.Settling
import RenderVerdict.Report.Batch

/-! Batches are complete, ordered and made of independent cases: a report holds the cases that each
pair has alone, and a case depends on the two files that it names. -/
namespace RenderVerdict

theorem mapM_flatMap {α β γ : Type} {f : α → List β} {g : β → Option γ} (xs : List α) :
    (xs.flatMap f).mapM g = (xs.mapM fun x => (f x).mapM g).map List.flatten := by
  induction xs with
  | nil => rfl
  | cons x xs ih =>
    rw [List.flatMap_cons, List.mapM_append, List.mapM_cons, ih]
    cases (f x).mapM g with
    | none => rfl
    | some ys => cases xs.mapM fun x => (f x).mapM g <;> rfl

def CaseKind.mode : CaseKind → Mode
  | .image => .images
  | .document => .documents

/-- The kind with each channel; there are documents only where both sides have them. -/
def CaseKind.slots (kind : CaseKind) (documents : Bool) : List (CaseKind × Channel) :=
  if kind = .image ∨ documents then Channel.all.map fun channel => (kind, channel) else []

namespace Mode

def slots (mode : Mode) (documents : Bool) : List (CaseKind × Channel) :=
  mode.kinds.flatMap fun kind => kind.slots documents

theorem ordered_slots (mode : Mode) (documents : Bool) : (mode.slots documents).Pairwise fun s t =>
    s.1.rank < t.1.rank ∨ s.1.rank = t.1.rank ∧ s.2.rank ≤ t.2.rank := by
  cases mode <;> cases documents <;> decide

end Mode

namespace FramePair

variable {pair : FramePair} {mode : Mode} {kind : CaseKind} {channel : Channel}

def paths? (pair : FramePair) (kind : CaseKind) (channel : Channel) : Option (String × String) :=
  match kind with
  | .image => some (pair.candidate.images.get channel, pair.reference.images.get channel)
  | .document => do
    let candidate ← pair.candidate.documents
    let reference ← pair.reference.documents
    return (candidate.get channel, reference.get channel)

def hasDocuments (pair : FramePair) : Bool :=
  pair.candidate.documents.isSome && pair.reference.documents.isSome

def slots (pair : FramePair) (mode : Mode) : List (CaseKind × Channel) :=
  mode.slots pair.hasDocuments

/-- A pair has the cases of a mode for which it names files. -/
theorem mem_slots : (kind, channel) ∈ pair.slots mode ↔
    kind ∈ mode.kinds ∧ ∃ paths, pair.paths? kind channel = some paths := by
  have hpaths : (kind = .image ∨ pair.hasDocuments) ↔
      ∃ paths, pair.paths? kind channel = some paths := by
    cases kind with
    | image => simp [paths?]
    | document =>
      unfold hasDocuments paths?
      cases pair.candidate.documents <;> cases pair.reference.documents <;> simp
  have hslots : ∀ other : CaseKind, (kind, channel) ∈ other.slots pair.hasDocuments ↔
      kind = other ∧ ∃ paths, pair.paths? kind channel = some paths := by
    intro other
    rw [← hpaths]
    unfold CaseKind.slots
    constructor
    · intro h
      split at h
      · rename_i hhas
        obtain ⟨_, _, heq⟩ := List.mem_map.mp h
        obtain ⟨rfl, -⟩ := Prod.mk.inj heq
        exact ⟨rfl, hhas⟩
      · cases h
    · rintro ⟨rfl, hhas⟩
      rw [if_pos hhas]
      exact List.mem_map.mpr ⟨channel, channel.mem_all, rfl⟩
  unfold slots Mode.slots
  simp only [List.mem_flatMap, hslots]
  constructor
  · rintro ⟨_, hk, rfl, h⟩
    exact ⟨hk, h⟩
  · rintro ⟨hk, h⟩
    exact ⟨kind, hk, rfl, h⟩

def keys (pair : FramePair) (mode : Mode) : List (Nat × CaseKind × Channel) :=
  (pair.slots mode).map fun slot => (pair.frame, slot)

end FramePair

namespace Settings

variable {settings : Settings} {files other : FileTree} {mode : Mode} {pair : FramePair}
  {frame : Nat} {kind : CaseKind} {channel : Channel} {candidate reference : String} {c : Case}
  {pairs : List FramePair} {report : Report}

def caseOf (settings : Settings) (files : FileTree) (frame : Nat) (kind : CaseKind)
    (channel : Channel) (candidate reference : String) : Option Case :=
  match kind with
  | .image => some (.ofPixels frame channel
    (settings.compareImageFiles files channel candidate reference))
  | .document => (Stop.settle (settings.compareDocumentFiles files candidate reference)).map
    (.ofStructure frame channel)

def caseAt (settings : Settings) (files : FileTree) (pair : FramePair)
    (slot : CaseKind × Channel) : Option Case := do
  let (candidate, reference) ← pair.paths? slot.1 slot.2
  settings.caseOf files pair.frame slot.1 slot.2 candidate reference

theorem casesOf_eq (settings : Settings) (files : FileTree) (pair : FramePair) (kind : CaseKind) :
    settings.casesOf files pair kind =
      (kind.slots pair.hasDocuments).mapM (settings.caseAt files pair) := by
  unfold CaseKind.slots
  cases kind with
  | image =>
    rw [if_pos (.inl rfl), List.mapM_map]
    exact (List.mapM_pure (m := Option)).symm
  | document =>
    unfold casesOf documentCases
    cases hc : pair.candidate.documents with
    | none => simp [FramePair.hasDocuments, hc]
    | some candidate =>
      cases hr : pair.reference.documents with
      | none => simp [FramePair.hasDocuments, hc, hr]
      | some reference =>
        have hhas : pair.hasDocuments := by simp [FramePair.hasDocuments, hc, hr]
        rw [if_pos (.inr hhas), List.mapM_map]
        refine congrArg Channel.all.mapM (funext fun channel => ?_)
        simp [caseAt, FramePair.paths?, caseOf, hc, hr]

/-- A pair is run slot by slot. -/
theorem runPair_eq (settings : Settings) (files : FileTree) (mode : Mode) (pair : FramePair) :
    settings.runPair files mode pair = (pair.slots mode).mapM (settings.caseAt files pair) := by
  unfold runPair FramePair.slots Mode.slots
  rw [mapM_flatMap, ← funext (settings.casesOf_eq files pair)]
  cases mode.kinds.mapM (settings.casesOf files pair) <;> rfl

theorem key_of_caseOf
    (h : settings.caseOf files frame kind channel candidate reference = some c) :
    c.key = (frame, kind, channel) := by
  cases kind with
  | image =>
    cases h
    exact Case.key_ofPixels _
  | document =>
    obtain ⟨result, -, rfl⟩ := Option.map_eq_some_iff.mp h
    exact Case.key_ofStructure result

theorem key_of_caseAt {slot : CaseKind × Channel} (h : settings.caseAt files pair slot = some c) :
    c.key = (pair.frame, slot) := by
  obtain ⟨_, -, hc⟩ := Option.bind_eq_some_iff.mp h
  exact key_of_caseOf hc

theorem keys_of_runPair {cases : List Case} (h : settings.runPair files mode pair = some cases) :
    cases.map Case.key = pair.keys mode := by
  rw [runPair_eq, mapM_eq_some_iff] at h
  unfold FramePair.keys
  generalize pair.slots mode = slots at h
  induction h with
  | nil => rfl
  | cons hc _ ih => rw [List.map_cons, List.map_cons, key_of_caseAt hc, ih]

/-- The cases of a pair come about in the order of reports. -/
theorem pairwise_runPair {cases : List Case} (h : settings.runPair files mode pair = some cases) :
    cases.Pairwise fun a b => a.precedes b := by
  have hkeys : (cases.map Case.key).Pairwise fun k l => k.1 = l.1 ∧
      (k.2.1.rank < l.2.1.rank ∨ k.2.1.rank = l.2.1.rank ∧ k.2.2.rank ≤ l.2.2.rank) := by
    rw [keys_of_runPair h, FramePair.keys, List.pairwise_map]
    exact (mode.ordered_slots _).imp fun hst => ⟨rfl, hst⟩
  rw [List.pairwise_map] at hkeys
  exact hkeys.imp fun hab => Case.precedes_iff.mpr (.inr hab)

theorem run_singleton (settings : Settings) (files : FileTree) (mode : Mode) (pair : FramePair) :
    settings.run files mode [pair] = (settings.runPair files mode pair).map Report.mk := by
  unfold run
  cases h : settings.runPair files mode pair with
  | none => simp [h]
  | some cases => simp [h, List.mergeSort_of_pairwise (pairwise_runPair h)]

/-- The cases that a pair has when no other pair is run. -/
def alone (settings : Settings) (files : FileTree) (mode : Mode) (pair : FramePair) : List Case :=
  ((settings.run files mode [pair]).map Report.cases).getD []

theorem alone_of_runPair {cases : List Case} (h : settings.runPair files mode pair = some cases) :
    settings.alone files mode pair = cases := by
  rw [alone, run_singleton, h]
  rfl

/-- A batch has the cases that its pairs have alone, in order. -/
theorem run_eq_some_iff :
    settings.run files mode pairs = some report ↔
      (∀ pair ∈ pairs, settings.runPair files mode pair = some (settings.alone files mode pair)) ∧
        report = ⟨(pairs.flatMap (settings.alone files mode)).mergeSort Case.precedes⟩ := by
  have hgroups : ∀ groups : List (List Case),
      pairs.mapM (settings.runPair files mode) = some groups ↔
        (∀ pair ∈ pairs, settings.runPair files mode pair =
          some (settings.alone files mode pair)) ∧
          groups = pairs.map (settings.alone files mode) := by
    intro groups
    rw [mapM_eq_some_iff]
    constructor
    · intro h
      have halone : groups = pairs.map (settings.alone files mode) := by
        rw [← List.forall₂_eq_eq_eq, List.forall₂_map_right_iff]
        exact h.flip.imp fun _ _ hc => (alone_of_runPair hc).symm
      rw [halone, List.forall₂_map_right_iff, List.forall₂_same] at h
      exact ⟨h, halone⟩
    · rintro ⟨h, rfl⟩
      rw [List.forall₂_map_right_iff, List.forall₂_same]
      exact h
  unfold run
  rw [Option.bind_eq_bind, Option.bind_eq_some_iff]
  constructor
  · rintro ⟨groups, hg, h⟩
    obtain ⟨hpairs, rfl⟩ := (hgroups groups).mp hg
    exact ⟨hpairs, (Option.some.inj h).symm⟩
  · rintro ⟨hpairs, rfl⟩
    exact ⟨_, (hgroups _).mpr ⟨hpairs, rfl⟩, rfl⟩

section Reading

variable (hc : other.find candidate = files.find candidate)
  (hr : other.find reference = files.find reference)

include hc hr

end Reading

theorem exists_caseOf (h : settings.schema.places ≤ Binary.maxPlaces) (files : FileTree)
    (frame : Nat) (kind : CaseKind) (channel : Channel) (candidate reference : String) :
    ∃ c, settings.caseOf files frame kind channel candidate reference = some c := by
  cases kind with
  | image => exact ⟨_, rfl⟩
  | document =>
    have hsettled : settings.compareDocumentFiles files candidate reference ≠
        .error .tooManyPlaces :=
      bind_ne_error Stop.ofFault_ne_tooManyPlaces fun _ =>
        bind_ne_error Stop.ofFault_ne_tooManyPlaces fun _ => Schema.compare_settles h _ _
    obtain ⟨result, hresult⟩ := Stop.exists_settle hsettled
    exact ⟨.ofStructure frame channel result, Option.map_eq_some_iff.mpr ⟨result, hresult, rfl⟩⟩

theorem exists_runPair (h : settings.schema.places ≤ Binary.maxPlaces) (files : FileTree)
    (mode : Mode) (pair : FramePair) :
    ∃ cases, settings.runPair files mode pair = some cases := by
  have hcases : ∀ slot ∈ pair.slots mode, ∃ c, settings.caseAt files pair slot = some c := by
    rintro ⟨kind, channel⟩ hslot
    obtain ⟨-, ⟨candidate, reference⟩, hpaths⟩ := FramePair.mem_slots.mp hslot
    obtain ⟨c, hc⟩ := exists_caseOf h files pair.frame kind channel candidate reference
    exact ⟨c, Option.bind_eq_some_iff.mpr ⟨_, hpaths, hc⟩⟩
  obtain ⟨cases, hall⟩ := exists_forall₂ hcases
  exact ⟨cases, (runPair_eq ..).trans (mapM_eq_some_iff.mpr hall)⟩

theorem exists_run (h : settings.schema.places ≤ Binary.maxPlaces) (files : FileTree)
    (mode : Mode) (pairs : List FramePair) :
    ∃ report, settings.run files mode pairs = some report := by
  refine ⟨_, run_eq_some_iff.mpr ⟨fun pair _ => ?_, rfl⟩⟩
  obtain ⟨cases, hcases⟩ := exists_runPair h files mode pair
  rw [alone_of_runPair hcases, hcases]

/-- The cases of a report are those of its pairs' slots. -/
theorem mem_run_iff (h : settings.run files mode pairs = some report) :
    c ∈ report.cases ↔
      ∃ pair ∈ pairs, ∃ slot ∈ pair.slots mode, settings.caseAt files pair slot = some c := by
  obtain ⟨hpairs, rfl⟩ := run_eq_some_iff.mp h
  rw [List.mem_mergeSort, List.mem_flatMap]
  refine exists_congr fun pair => and_congr_right fun hpair => ?_
  have hall := hpairs pair hpair
  rw [runPair_eq, mapM_eq_some_iff] at hall
  constructor
  · intro hc
    exact exists_of_mem_right hall hc
  · rintro ⟨slot, hslot, hc⟩
    obtain ⟨d, hd, hsd⟩ := exists_of_mem_left hall hslot
    rw [hc] at hsd
    rwa [Option.some.inj hsd]

section Paths

variable (hpair : pair ∈ pairs) (hkind : kind ∈ mode.kinds)
  (hpaths : pair.paths? kind channel = some (candidate, reference))

include hpaths

theorem caseAt_of_paths? : settings.caseAt files pair (kind, channel) =
    settings.caseOf files pair.frame kind channel candidate reference := by
  rw [caseAt, hpaths]
  rfl

include hpair hkind

/-- The case of two files that a pair names is in the report. -/
theorem mem_run_of_caseOf (h : settings.run files mode pairs = some report)
    (hc : settings.caseOf files pair.frame kind channel candidate reference = some c) :
    c ∈ report.cases := by
  have hslot : (kind, channel) ∈ pair.slots mode := FramePair.mem_slots.mpr ⟨hkind, _, hpaths⟩
  exact (mem_run_iff h).mpr ⟨pair, hpair, _, hslot, (caseAt_of_paths? hpaths).trans hc⟩

theorem exists_mem_run (h : settings.run files mode pairs = some report) :
    ∃ c ∈ report.cases,
      settings.caseOf files pair.frame kind channel candidate reference = some c := by
  have hslot : (kind, channel) ∈ pair.slots mode := FramePair.mem_slots.mpr ⟨hkind, _, hpaths⟩
  have hall := (run_eq_some_iff.mp h).1 pair hpair
  rw [runPair_eq, mapM_eq_some_iff] at hall
  obtain ⟨c, -, hc⟩ := exists_of_mem_left hall hslot
  rw [caseAt_of_paths? hpaths] at hc
  exact ⟨c, mem_run_of_caseOf hpair hkind hpaths h hc, hc⟩

end Paths

end Settings

end RenderVerdict
