import RenderVerdict.Proofs.Number.Decimals
import RenderVerdict.Proofs.Scene.Reordering

/-! Noise in arrays of numbers: it is absorbed as long as every number keeps its nearest decimal.
What is compared without being rounded is not to change: scalar sections, and the numbers that
references point at. -/
namespace RenderVerdict

namespace Node

mutual

/-- A tree with noise: the elements of its arrays of numbers may change, and keep their decimals. -/
inductive Noisy (places : Nat) : Node → Node → Prop
  | object {fields others} : NoisyFields places fields others →
      Noisy places (.object fields) (.object others)
  | numbers {values others} : List.Forall₂ (Binary.SameDecimal places) values others →
      Noisy places (.numbers values) (.numbers others)
  | strings {values} : Noisy places (.strings values) (.strings values)
  | mixed {items others} : NoisyItems places items others →
      Noisy places (.mixed items) (.mixed others)
  | scalar {value} : Noisy places (.scalar value) (.scalar value)

inductive NoisyItems (places : Nat) : List Node → List Node → Prop
  | nil : NoisyItems places [] []
  | cons {item other rest others} : Noisy places item other → NoisyItems places rest others →
      NoisyItems places (item :: rest) (other :: others)

inductive NoisyFields (places : Nat) : List (String × Node) → List (String × Node) → Prop
  | nil : NoisyFields places [] []
  | cons {name value other rest others} : Noisy places value other →
      NoisyFields places rest others →
      NoisyFields places ((name, value) :: rest) ((name, other) :: others)

end

variable {places index : Nat} {node other target : Node}

theorem NoisyItems.forall₂ {items others : List Node} (h : NoisyItems places items others) :
    List.Forall₂ (Noisy places) items others := by
  induction items generalizing others with
  | nil => cases h; exact .nil
  | cons item rest ih => cases h with | cons hi hr => exact .cons hi (ih hr)

theorem NoisyFields.find {name : String} {value : Node} {fields others : List (String × Node)}
    (h : NoisyFields places fields others) (hv : Fields.find? name fields = some value) :
    ∃ moved, Fields.find? name others = some moved ∧ Noisy places value moved := by
  induction fields generalizing others with
  | nil => cases hv
  | cons field rest ih =>
    cases h with
    | cons hfirst hr =>
      rw [Fields.find?_cons] at hv ⊢
      split at hv
      · next hname =>
        obtain rfl := Option.some.inj hv
        exact ⟨_, if_pos hname, hfirst⟩
      · next hname =>
        rw [if_neg hname]
        exact ih hr hv

/-- An element of an array with noise has noise, or it is a number. -/
theorem Noisy.element (h : Noisy places node other) (ht : node.element? index = some target) :
    (∃ value, target = .scalar (.number value)) ∨
      ∃ moved, other.element? index = some moved ∧ Noisy places target moved := by
  cases h with
  | object _ => cases ht
  | numbers _ =>
    obtain ⟨value, -, rfl⟩ := Option.map_eq_some_iff.mp ht
    exact .inl ⟨value, rfl⟩
  | strings =>
    obtain ⟨text, -, rfl⟩ := Option.map_eq_some_iff.mp ht
    exact .inr ⟨_, ht, .scalar⟩
  | mixed hi => exact .inr (exists_getElem?_of_forall₂ hi.forall₂ ht)
  | scalar => cases ht

end Node

/-- A number that a node reaches as an entry of a document is the same in the other document. -/
def Schema.KeepsNumbers (schema : Schema) (document other : Document) (node : Node) : Prop :=
  ∀ entry value, Reaches schema (schema.contextOf document) node entry →
    document.lookup entry = .ok (.scalar (.number value)) →
      other.lookup entry = .ok (.scalar (.number value))

/-- A document with noise: numbers in arrays keep their decimals, and what is compared as it stands
is unchanged. -/
structure Schema.Noisy (schema : Schema) (document other : Document) : Prop where
  sections : Node.NoisyFields schema.places document.sections other.sections
  scalars : ∀ name ∈ schema.scalarSections, other.find? name = document.find? name
  numbers : ∀ node, document.find? "nodes" = some node → schema.KeepsNumbers document other node

variable {schema : Schema} {document other : Document}

theorem Schema.KeepsNumbers.mono {node part : Node}
    (h : schema.KeepsNumbers document other node)
    (hp : ∀ entry, Refers schema part entry → Refers schema node entry) :
    schema.KeepsNumbers document other part :=
  fun entry value hr => h entry value (hr.mono hp)

/-- What a node reaches through an entry that it refers to is kept. -/
theorem Schema.KeepsNumbers.target {node target : Node} {entry : Entry}
    (h : schema.KeepsNumbers document other node) (hr : Refers schema node entry)
    (ht : (schema.contextOf document).lookup entry = .ok target) :
    schema.KeepsNumbers document other target := by
  rintro last value ⟨next, hn, hpath⟩
  exact h last value ⟨entry, hr, .head ⟨target, ht, hn⟩ hpath⟩

/-- An entry that a node refers to has noise only. -/
theorem Schema.Noisy.lookup {node target : Node} {entry : Entry} (h : schema.Noisy document other)
    (hk : schema.KeepsNumbers document other node) (hr : Refers schema node entry)
    (ht : (schema.contextOf document).lookup entry = .ok target) :
    ∃ moved, (schema.contextOf other).lookup entry = .ok moved ∧
      target.Noisy schema.places moved := by
  obtain ⟨hnodes, hpayload, hlookup⟩ := lookup_contextOf.mp ht
  obtain ⟨items, hi, he⟩ := Document.lookup_eq_ok_iff.mp hlookup
  obtain ⟨others, ho, hn⟩ := h.sections.find hi
  rcases hn.element he with ⟨value, rfl⟩ | ⟨moved, hm, hn⟩
  · have hsame := hk entry value ⟨entry, hr, .refl⟩ hlookup
    exact ⟨_, lookup_contextOf.mpr ⟨hnodes, hpayload, hsame⟩, .scalar⟩
  · have hmoved : other.lookup entry = .ok moved :=
      Document.lookup_eq_ok_iff.mpr ⟨others, ho, hm⟩
    exact ⟨moved, lookup_contextOf.mpr ⟨hnodes, hpayload, hmoved⟩, hn⟩

/-- Numbers that keep their decimals are rounded to the same numbers. -/
theorem rounded_of_sameDecimal {places : Nat} (h : places ≤ 15)
    {values others rounded : List Double}
    (hn : List.Forall₂ (Binary.SameDecimal places) values others)
    (hr : values.mapM (Binary.toPlaces? places) = some rounded) :
    others.mapM (Binary.toPlaces? places) = some rounded := by
  rw [mapM_eq_some_iff] at hr ⊢
  refine forall₂_trans hn.flip hr fun y x z hxy hz => ?_
  have hplaces : places ≤ Binary.maxPlaces := h.trans (by decide)
  have hsame := (Binary.toPlaces_eq_toPlaces_iff h hxy.1 hxy.2.1).mpr hxy
  rw [Binary.toPlaces?_of_le hplaces] at hz ⊢
  rw [← hsame, hz]

mutual

/-- A tree with noise unfolds in the other document to what the tree unfolds to in the first. -/
theorem Unfolds.noisy {node noisy out : Node}
    (h : Unfolds schema (schema.contextOf document) node out)
    (hn : node.Noisy schema.places noisy) (hk : schema.KeepsNumbers document other node)
    (hp : schema.places ≤ 15) (hd : schema.Noisy document other) :
    Unfolds schema (schema.contextOf other) noisy out := by
  match h with
  | .object hf => cases hn with | object hn => exact .object (hf.noisy hn hk hp hd)
  | .numbers hr => cases hn with | numbers hn => exact .numbers (rounded_of_sameDecimal hp hn hr)
  | .strings => cases hn; exact .strings
  | .mixed hi => cases hn with | mixed hn => exact .mixed (hi.noisy hn hk hp hd)
  | .scalar => cases hn; exact .scalar

theorem UnfoldsItems.noisy {items noisy outs : List Node}
    (h : UnfoldsItems schema (schema.contextOf document) items outs)
    (hn : Node.NoisyItems schema.places items noisy)
    (hk : schema.KeepsNumbers document other (.mixed items))
    (hp : schema.places ≤ 15) (hd : schema.Noisy document other) :
    UnfoldsItems schema (schema.contextOf other) noisy outs := by
  match h with
  | .nil => cases hn; exact .nil
  | .cons hi hr =>
    cases hn with
    | cons hni hnr =>
      have hki := hk.mono fun _ hr => .item List.mem_cons_self hr
      have hkr := hk.mono fun _ hr => hr.of_items
      exact .cons (hi.noisy hni hki hp hd) (hr.noisy hnr hkr hp hd)

theorem UnfoldsFields.noisy {fields noisy outs : List (String × Node)}
    (h : UnfoldsFields schema (schema.contextOf document) fields outs)
    (hn : Node.NoisyFields schema.places fields noisy)
    (hk : schema.KeepsNumbers document other (.object fields))
    (hp : schema.places ≤ 15) (hd : schema.Noisy document other) :
    UnfoldsFields schema (schema.contextOf other) noisy outs := by
  match h with
  | .nil => cases hn; exact .nil
  | .dropped hname hr =>
    cases hn with
    | cons _ hnr => exact .dropped hname (hr.noisy hnr (hk.mono fun _ hr => hr.of_rest) hp hd)
  | .kept hname hc hv hr =>
    cases hn with
    | cons hnv hnr =>
      have hkv := hk.mono fun _ hr => .field List.mem_cons_self hname hc hr
      have hkr := hk.mono fun _ hr => hr.of_rest
      exact .kept hname hc (hv.noisy hnv hkv hp hd) (hr.noisy hnr hkr hp hd)
  | @UnfoldsFields.inlined _ _ name value collection index items target _ rest _ hname hc hi hf he
      hv hr =>
    cases hn with
    | cons hnv hnr =>
      have href : Refers schema (.object ((name, value) :: rest)) ⟨collection, index⟩ :=
        .index List.mem_cons_self hname hc hi
      have ht : (schema.contextOf document).lookup ⟨collection, index⟩ = .ok target :=
        Document.lookup_eq_ok_iff.mpr ⟨items, hf, he⟩
      have hkr := hk.mono fun _ hr => hr.of_rest
      obtain ⟨moved, hm, hnt⟩ := hd.lookup hk href ht
      obtain ⟨others, hf', he'⟩ := Document.lookup_eq_ok_iff.mp hm
      -- The index is a bare number, which noise leaves alone.
      obtain ⟨value, rfl, hindex⟩ := hi
      cases hnv
      exact .inlined hname hc ⟨value, rfl, hindex⟩ hf' he'
        (hv.noisy hnt (hk.target href ht) hp hd) (hr.noisy hnr hkr hp hd)

end

namespace Schema

/-- A document with noise has as many nodes, and they have noise. -/
theorem Noisy.nodes {nodes : List Node} (hd : schema.Noisy document other)
    (h : schema.nodesOf? document = some nodes) :
    ∃ others, schema.nodesOf? other = some others ∧
      Node.NoisyItems schema.places nodes others ∧
      schema.KeepsNumbers document other (.mixed nodes) := by
  obtain ⟨hpayload, hn | ⟨hn, rfl⟩⟩ := nodesOf?_cases.mp h
  · obtain ⟨moved, hm, hnoisy⟩ := hd.sections.find hn
    cases hnoisy with
    | mixed hitems =>
      exact ⟨_, nodesOf?_cases.mpr ⟨hpayload, .inl hm⟩, hitems, hd.numbers _ hn⟩
  · obtain ⟨moved, hm, hnoisy⟩ := hd.sections.find hn
    cases hnoisy with
    | numbers hvalues =>
      cases hvalues
      refine ⟨[], nodesOf?_cases.mpr ⟨hpayload, .inr ⟨hm, rfl⟩⟩, .nil, ?_⟩
      rintro entry value ⟨first, hr, -⟩
      cases hr with | item hm => cases hm

/-- A document with noise normalizes to the same nodes. -/
theorem normalize_noisy {normal : NormalDocument} (hp : schema.places ≤ 15)
    (hd : schema.Noisy document other) (h : schema.normalize document = .ok normal) :
    schema.normalize other = .ok ⟨schema.contextOf other, normal.nodes⟩ := by
  obtain ⟨nodes, hnodes, -, hu⟩ := normalize_eq_ok_iff.mp h
  obtain ⟨others, hothers, hn, hk⟩ := hd.nodes hnodes
  have hu' := (unfoldsItems_iff.mpr hu).noisy hn hk hp hd
  exact normalize_eq_ok_iff.mpr ⟨others, hothers, rfl, unfoldsItems_iff.mp hu'⟩

/-- Normal forms that can be compared settle how their documents compare. -/
theorem compare_of_normalize {a e : NormalDocument} {matched : Bool}
    (ha : schema.normalize document = .ok a) (he : schema.normalize other = .ok e)
    (h : (schema.compareNormal a e).toOption.map StructureReport.isMatch = some matched) :
    ∃ report, schema.compare document other = .ok report ∧ report.isMatch = matched := by
  obtain ⟨report, hr, hm⟩ := Option.map_eq_some_iff.mp h
  refine ⟨report, compare_eq_ok_iff.mpr ⟨a, e, ha, he, ?_⟩, hm⟩
  cases hc : schema.compareNormal a e with
  | ok found => rw [hc] at hr; exact congrArg _ (Option.some.inj hr)
  | error fault => rw [hc] at hr; cases hr

/-- Noise is absorbed: a document that can be compared with itself is matched by every document
that differs from it in noise only. -/
theorem compare_noisy {report : StructureReport} (hp : schema.places ≤ 15) (hd : document.Parsed)
    (hn : schema.Noisy document other) (h : schema.compare document document = .ok report) :
    ∃ report, schema.compare other document = .ok report ∧ report.isMatch := by
  obtain ⟨normal, normal', hnormal, hnormal', h⟩ := compare_eq_ok_iff.mp h
  obtain rfl := Except.ok.inj (hnormal.symm.trans hnormal')
  obtain ⟨hcontext, hcanonical⟩ := canonical_normalize hd.canonical hnormal
  have hself : Matches schema normal normal := .self hcontext hcanonical h
  have hother := normalize_noisy hp hn hnormal
  obtain ⟨-, -, hc, -⟩ := normalize_eq_ok_iff.mp hnormal
  have hmatch : Matches schema normal ⟨schema.contextOf other, normal.nodes⟩ := by
    refine ⟨fun name hm => ?_, hself.nodes⟩
    obtain ⟨a, b, ha, hb, hsame⟩ := hself.sections name hm
    refine ⟨a, b, ha, ?_, hsame⟩
    rw [NormalDocument.find?, hc, find?_contextOf] at hb
    rw [NormalDocument.find?, find?_contextOf, hn.scalars name hm]
    exact hb
  obtain ⟨report, hreport, hm⟩ := (compare_matches_iff hd.canonical hnormal hother).mpr hmatch
  exact ⟨report.swap, compare_swap hreport, report.isMatch_swap ▸ hm⟩

def oneCamera (value : Double) : Document :=
  ⟨[("cameras", .mixed [.object [("range", .numbers [value])]]),
    ("nodes", .mixed [.object [("camera", .ofIndex 0)]]), ("scene", .scalar (.string "day"))]⟩

def decimal (steps : Nat) : Double := Binary.round false steps (10 ^ 14)

theorem parsed_oneCamera (value : Double) (h : value.isFinite) : (oneCamera value).Parsed := by
  refine ⟨.obj [("cameras", .arr [.obj [("range", .arr [.real value])]]),
    ("nodes", .arr [.obj [("camera", .int 0)]]), ("scene", .str "day")], ?_, ?_⟩
  · have hz : (Binary.nearest 0 : Double).isFinite := by decide +kernel
    simpa [Json.allFinite, Json.allFiniteFields, Json.allFiniteItems, hz] using h
  · have hn : ("nodes" < "cameras") = False := by decide
    have hs : ("scene" < "cameras") = False := by decide
    have hs' : ("scene" < "nodes") = False := by decide
    simp [Document.ofJson, Node.ofJson, Node.ofFields, Node.ofItems, Fields.ofList, Fields.insert,
      Node.ofElements, Node.number?, Node.string?, oneCamera, hn, hs, hs']
    rfl

theorem normalize_oneCamera (value : Double) : brief.normalize (oneCamera value) =
    .ok ⟨brief.contextOf (oneCamera value),
      [.object [("camera", .object [("range", .numbers [value.toPlaces 12])])]]⟩ := by
  have hrounded : [value].mapM (Binary.toPlaces? brief.places) = some [value.toPlaces 12] :=
    mapM_eq_some_iff.mpr (.cons (Binary.toPlaces?_of_le (by decide) value) .nil)
  have hkept : "camera" ∉ brief.identity ∧ "range" ∉ brief.identity := by decide
  have hcamera : brief.collection? "camera" = some "cameras" := by decide
  have hrange : brief.collection? "range" = none := by decide
  exact normalize_eq_ok_iff.mpr ⟨_, by rfl, rfl, .cons (.object (.inlined hkept.1 hcamera
    (Node.isIndex_ofIndex (by decide)) (by rfl) rfl
    (.object (.kept hkept.2 hrange (.numbers hrounded) .nil)) .nil)) .nil⟩

/-- No reference leads to a number in such a document. -/
theorem lookup_oneCamera {value number : Double} {entry : Entry} :
    (oneCamera value).lookup entry ≠ .ok (.scalar (.number number)) := by
  intro h
  obtain ⟨items, hi, he⟩ := Document.lookup_eq_ok_iff.mp h
  have hm := Fields.mem_of_find? hi
  simp only [oneCamera, List.mem_cons, Prod.mk.injEq, List.not_mem_nil, or_false] at hm
  obtain ⟨-, rfl⟩ | ⟨-, rfl⟩ | ⟨-, rfl⟩ := hm
  · cases List.mem_singleton.mp (List.mem_of_getElem? he)
  · cases List.mem_singleton.mp (List.mem_of_getElem? he)
  · cases he

theorem noisy_oneCamera {x y : Double} (h : Binary.SameDecimal brief.places x y) :
    brief.Noisy (oneCamera x) (oneCamera y) where
  sections := .cons (.mixed (.cons (.object (.cons (.numbers (.cons h .nil)) .nil)) .nil))
    (.cons (.mixed (.cons (.object (.cons .scalar .nil)) .nil)) (.cons .scalar .nil))
  scalars name hm := by
    obtain rfl := List.mem_singleton.mp hm
    rfl
  numbers _ _ _ _ _ hl := absurd hl lookup_oneCamera

theorem compare_noisy_oneCamera :
    brief.places ≤ 15 ∧ ∃ report,
      brief.compare (oneCamera (decimal (10 ^ 13 + 5))) (oneCamera (decimal (10 ^ 13))) =
        .ok report ∧ report.isMatch := by
  have hx : (decimal (10 ^ 13)).isFinite := by decide +kernel
  have hy : (decimal (10 ^ 13 + 5)).isFinite := by decide +kernel
  have hnear : |(decimal (10 ^ 13)).toRat * 10 ^ brief.places - (10 ^ 11 : ℤ)| < 2 / 5 := by
    decide +kernel
  have hnoise : |(decimal (10 ^ 13)).toRat - (decimal (10 ^ 13 + 5)).toRat| ≤
      1 / 10 ^ (brief.places + 1) := by
    decide +kernel
  have hsame := Binary.sameDecimal_of_near hx hy hnear hnoise
  obtain ⟨report, hself, -⟩ : ∃ report, brief.compare (oneCamera (decimal (10 ^ 13)))
      (oneCamera (decimal (10 ^ 13))) = .ok report ∧ report.isMatch = true :=
    compare_of_normalize (normalize_oneCamera _) (normalize_oneCamera _) (by decide +kernel)
  exact ⟨by decide,
    compare_noisy (by decide) (parsed_oneCamera _ hx) (noisy_oneCamera hsame) hself⟩

def oneNumber (value : Double) : Document :=
  ⟨[("meshes", .numbers [value]), ("nodes", .mixed [.object [("mesh", .ofIndex 0)]]),
    ("scene", .scalar (.string "day"))]⟩

theorem parsed_oneNumber (value : Double) (h : value.isFinite) : (oneNumber value).Parsed := by
  refine ⟨.obj [("meshes", .arr [.real value]), ("nodes", .arr [.obj [("mesh", .int 0)]]),
    ("scene", .str "day")], ?_, ?_⟩
  · have hz : (Binary.nearest 0 : Double).isFinite := by decide +kernel
    simpa [Json.allFinite, Json.allFiniteFields, Json.allFiniteItems, hz] using h
  · have hn : ("nodes" < "meshes") = False := by decide
    have hs : ("scene" < "meshes") = False := by decide
    have hs' : ("scene" < "nodes") = False := by decide
    simp [Document.ofJson, Node.ofJson, Node.ofFields, Node.ofItems, Fields.ofList, Fields.insert,
      Node.ofElements, Node.number?, Node.string?, oneNumber, hn, hs, hs']
    rfl

theorem normalize_oneNumber (value : Double) : brief.normalize (oneNumber value) =
    .ok ⟨brief.contextOf (oneNumber value), [.object [("mesh", .scalar (.number value))]]⟩ := by
  have hkept : "mesh" ∉ brief.identity := by decide
  have hmesh : brief.collection? "mesh" = some "meshes" := by decide
  exact normalize_eq_ok_iff.mpr ⟨_, by rfl, rfl, .cons (.object (.inlined hkept hmesh
    (Node.isIndex_ofIndex (by decide)) (by rfl) rfl .scalar .nil)) .nil⟩

/-- A document does not match itself once a number in it is changed by at most a tenth of the last
place. -/
def Sensitive (schema : Schema) (build : Double → Document) (x y : Double) : Prop :=
  |y.toRat - x.toRat| ≤ 1 / 10 ^ (schema.places + 1) ∧ (build x).Parsed ∧ (build y).Parsed ∧
    (∃ report, schema.compare (build x) (build x) = .ok report) ∧
    ∃ report, schema.compare (build y) (build x) = .ok report ∧ report.isMatch = false

theorem sensitive_of_normalize {build : Double → Document} {x y : Double}
    {a b : NormalDocument} (hnoise : |y.toRat - x.toRat| ≤ 1 / 10 ^ (schema.places + 1))
    (hx : (build x).Parsed) (hy : (build y).Parsed)
    (ha : schema.normalize (build x) = .ok a) (hb : schema.normalize (build y) = .ok b)
    (hself : (schema.compareNormal a a).toOption.map StructureReport.isMatch = some true)
    (hother : (schema.compareNormal b a).toOption.map StructureReport.isMatch = some false) :
    Sensitive schema build x y := by
  obtain ⟨report, h, -⟩ := compare_of_normalize ha ha hself
  exact ⟨hnoise, hx, hy, ⟨report, h⟩, compare_of_normalize hb ha hother⟩

/-- Noise is not absorbed where it takes a number past the middle between two decimals, nor in a
number that a reference points at. -/
theorem noise_not_absorbed :
    brief.places ≤ 15 ∧ Sensitive brief oneCamera (decimal 45) (decimal 52) ∧
      Sensitive brief oneNumber (decimal (10 ^ 14)) (decimal (10 ^ 14 + 5)) := by
  refine ⟨by decide, ?_, ?_⟩
  · exact sensitive_of_normalize (by decide +kernel) (parsed_oneCamera _ (by decide +kernel))
      (parsed_oneCamera _ (by decide +kernel)) (normalize_oneCamera _) (normalize_oneCamera _)
      (by decide +kernel) (by decide +kernel)
  · exact sensitive_of_normalize (by decide +kernel) (parsed_oneNumber _ (by decide +kernel))
      (parsed_oneNumber _ (by decide +kernel)) (normalize_oneNumber _) (normalize_oneNumber _)
      (by decide +kernel) (by decide +kernel)

end Schema

end RenderVerdict
