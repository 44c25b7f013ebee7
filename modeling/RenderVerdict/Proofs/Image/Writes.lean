import RenderVerdict.Proofs.Image.Comparison

/-! Samples written by column and row, and what a comparison with the raster as it was reports of them. A
write changes one sample of the pixel in its column and row, and the pixels where the writes have left
a difference beyond the tolerance are reported under the columns and rows that were written to. -/
namespace RenderVerdict

variable {α : Type}

namespace Shape

abbrev Place (shape : Shape) : Type := Fin shape.width × Fin shape.height

def index (shape : Shape) (place : shape.Place) : Fin shape.pixels :=
  ⟨place.2.val * shape.width + place.1.val,
    calc place.2.val * shape.width + place.1.val
        < place.2.val * shape.width + shape.width := Nat.add_lt_add_left place.1.isLt _
      _ = (place.2.val + 1) * shape.width := (Nat.succ_mul ..).symm
      _ ≤ shape.height * shape.width := Nat.mul_le_mul_right _ place.2.isLt
      _ = shape.pixels := Nat.mul_comm ..⟩

def places (shape : Shape) : List shape.Place :=
  (List.finRange shape.height).flatMap fun row =>
    (List.finRange shape.width).map fun column => (column, row)

variable {shape : Shape}

/-- The column and the row of an index are those it was made of. -/
theorem place_index (place : shape.Place) :
    shape.place (shape.index place) = (place.1.val, place.2.val) := by
  have hwidth : 0 < shape.width := Nat.zero_lt_of_lt place.1.isLt
  have hsum : place.1.val + shape.width * place.2.val = (shape.index place).val := by
    rw [Nat.add_comm, Nat.mul_comm]
    rfl
  obtain ⟨hrow, hcolumn⟩ := (Nat.div_mod_unique hwidth).mpr ⟨hsum, place.1.isLt⟩
  exact Prod.ext hcolumn hrow

theorem index_injective : Function.Injective shape.index := by
  intro p q h
  have hplace := congrArg shape.place h
  rw [place_index, place_index, Prod.mk.injEq] at hplace
  exact Prod.ext (Fin.ext hplace.1) (Fin.ext hplace.2)

/-- Row by row the indices go up one by one. -/
theorem map_index_places : shape.places.map shape.index = List.finRange shape.pixels := by
  have hrows : List.finRange shape.pixels = (List.ofFn fun row => List.ofFn fun column =>
      shape.index (column, row)).flatten := by
    rw [← List.ofFn_id]
    refine (List.ofFn_mul' (m := shape.width) (n := shape.height) id).trans ?_
    simp only [index, Nat.mul_comm]
    rfl
  rw [hrows, places, List.map_flatMap, List.ofFn_eq_map, List.flatMap_def]
  simp [List.ofFn_eq_map, Function.comp_def]

theorem mem_places (place : shape.Place) : place ∈ shape.places := by
  simp [places]

theorem nodup_places : shape.places.Nodup := by
  refine List.Nodup.of_map shape.index ?_
  rw [map_index_places]
  exact List.nodup_finRange _

/-- The indices with a property, in order, are those of the places with it. -/
theorem filter_finRange (p : Fin shape.pixels → Prop) [DecidablePred p] :
    (List.finRange shape.pixels).filter p =
      (shape.places.filter fun place => p (shape.index place)).map shape.index := by
  rw [← map_index_places, List.filter_map]
  rfl

/-- Places of a list, in order and each once, are as many as the list has different ones. -/
theorem length_filter_places (listed : List shape.Place) (p : shape.Place → Prop) [DecidablePred p] :
    (shape.places.filter fun place => place ∈ listed ∧ p place).length =
      (listed.toFinset.filter p).card := by
  rw [← List.toFinset_card_of_nodup (nodup_places.filter _)]
  congr 1
  ext place
  simp [mem_places]

end Shape

structure Write (shape : Shape) (α : Type) where
  place : shape.Place
  channel : Fin shape.channels
  value : α

def Write.index {shape : Shape} (write : Write shape α) : Fin shape.pixels := shape.index write.place

namespace Raster

theorem position_inj {c i j k l : Nat} (hk : k < c) (hl : l < c) :
    i * c + k = j * c + l ↔ i = j ∧ k = l := by
  have hc : 0 < c := Nat.zero_lt_of_lt hk
  constructor
  · intro h
    have hi := (Nat.div_mod_unique hc).mpr ⟨Nat.add_comm k (c * i), hk⟩
    have hj := (Nat.div_mod_unique hc).mpr ⟨Nat.add_comm l (c * j), hl⟩
    rw [Nat.mul_comm, Nat.mul_comm j] at h
    rw [h] at hi
    exact ⟨hi.1.symm.trans hj.1, hi.2.symm.trans hj.2⟩
  · rintro ⟨rfl, rfl⟩
    rfl

/-- One write: the sample at its place is its value and all others stay. -/
theorem put?_spec (raster : Raster α) {x y k : Nat} (value : α)
    (inside : y * raster.shape.width + x < raster.shape.pixels) (hk : k < raster.shape.channels) :
    ∃ written, raster.put? x y k value = some written ∧ ∃ same : raster.shape = written.shape,
      ∀ i l, written.sampleAs same i l =
        if i.val = y * raster.shape.width + x ∧ l.val = k then value else raster.sample i l := by
  refine ⟨_, if_pos ⟨inside, hk⟩, rfl, fun i l => ?_⟩
  have hposition := position_inj (i := y * raster.shape.width + x) (j := i.val) hk l.isLt
  refine (Array.getElem_setIfInBounds (raster.sample_lt i.isLt l.isLt)).trans ?_
  simp only [hposition, eq_comm, sample]

def putAll? {shape : Shape} (raster : Raster α) (writes : List (Write shape α)) : Option (Raster α) :=
  writes.foldlM (fun raster write =>
    raster.put? write.place.1 write.place.2 write.channel write.value) raster

theorem putAll?_cons {shape : Shape} {raster next : Raster α} {write : Write shape α}
    (writes : List (Write shape α))
    (h : raster.put? write.place.1 write.place.2 write.channel write.value = some next) :
    raster.putAll? (write :: writes) = next.putAll? writes := by
  unfold putAll?
  rw [List.foldlM_cons, h]
  rfl

/-- Writes within a shape succeed on rasters of the shape. Each sample is afterwards what it was or what
one of the writes to it has put there. -/
theorem putAll?_spec {shape : Shape} {raster : Raster α} (same : shape = raster.shape)
    (writes : List (Write shape α)) :
    ∃ written, raster.putAll? writes = some written ∧ ∃ same' : shape = written.shape, ∀ i k,
      written.sampleAs same' i k = raster.sampleAs same i k ∨
        ∃ write ∈ writes, write.index = i ∧ write.channel = k ∧
          written.sampleAs same' i k = write.value := by
  induction writes generalizing raster with
  | nil => exact ⟨raster, rfl, same, fun i k => .inl rfl⟩
  | cons write writes ih =>
    subst same
    obtain ⟨next, hput, hsame, hnext⟩ :=
      raster.put?_spec write.value write.index.isLt write.channel.isLt
    obtain ⟨written, hrest, hsame', hwritten⟩ := ih hsame
    refine ⟨written, (putAll?_cons writes hput).trans hrest, hsame', fun i k => ?_⟩
    rcases hwritten i k with hkept | ⟨later, hlater, hindex, hchannel, hvalue⟩
    · rw [hkept, hnext i k]
      split
      · next htarget =>
        exact .inr ⟨write, List.mem_cons_self, Fin.ext htarget.1.symm, Fin.ext htarget.2.symm, rfl⟩
      · exact .inl rfl
    · exact .inr ⟨later, List.mem_cons_of_mem _ hlater, hindex, hchannel, hvalue⟩

theorem pixel?_of_lt (raster : Raster α) {shape : Shape} (same : shape = raster.shape)
    (i : Fin shape.pixels) : raster.pixel? i = some (List.ofFn (raster.sampleAs same i)) := by
  subst same
  exact dif_pos i.isLt

/-- A write changes one sample of the pixel in its column and row, and no other pixel. -/
theorem pixel?_put? (raster : Raster α) (write : Write raster.shape α) :
    ∃ written, raster.put? write.place.1 write.place.2 write.channel write.value = some written ∧
      written.shape = raster.shape ∧ ∀ i, written.pixel? i =
        if i = write.place.2 * raster.shape.width + write.place.1 then
          (raster.pixel? i).map (·.set write.channel write.value)
        else raster.pixel? i := by
  obtain ⟨written, hput, same, hwritten⟩ :=
    raster.put?_spec write.value write.index.isLt write.channel.isLt
  refine ⟨written, hput, same.symm, fun i => ?_⟩
  by_cases hi : i < raster.shape.pixels
  · rw [written.pixel?_of_lt same ⟨i, hi⟩, raster.pixel?_of_lt rfl ⟨i, hi⟩, funext (hwritten ⟨i, hi⟩)]
    split
    · next hindex =>
      rw [Option.map_some, Option.some.injEq]
      refine List.ext_getElem (by simp) fun k _ _ => ?_
      simp [List.getElem_set, hindex, eq_comm (a := k), sampleAs]
    · next hother =>
      simp only [hother, false_and, if_false]
      rfl
  · have hnone : written.pixel? i = none := dif_neg (same ▸ hi)
    have hnone' : raster.pixel? i = none := dif_neg hi
    rw [hnone, hnone', Option.map_none, ite_self]

end Raster

def DiffersBeyond (tolerance : Double) (candidate reference : ColorRaster)
    (same : reference.shape = candidate.shape) (i : Fin reference.shape.pixels) : Prop :=
  ∃ k, tolerance.ExceededBy (sampleDifference (candidate.sampleAs same i k) (reference.sample i k))

instance (tolerance : Double) (candidate reference : ColorRaster)
    (same : reference.shape = candidate.shape) :
    DecidablePred (DiffersBeyond tolerance candidate reference same) :=
  fun _ => inferInstanceAs (Decidable (∃ _, _))

namespace Tolerances

variable {tolerances : Tolerances} {candidate reference : ColorRaster}

/-- A comparison of colors counts and lists the pixels that differ beyond the tolerance. -/
theorem compareColor_reports (ht : tolerances.color.NonNegative)
    (same : reference.shape = candidate.shape) :
    ∃ report, tolerances.compareColor candidate reference = .ok report ∧
      report.invalidPixels = ((List.finRange reference.shape.pixels).filter
        (DiffersBeyond tolerances.color candidate reference same)).length ∧
      report.sampleInvalid = (((List.finRange reference.shape.pixels).filter
        (DiffersBeyond tolerances.color candidate reference same)).take 16).map
          reference.shape.place := by
  obtain ⟨shape, samples, hpos, hsize⟩ := candidate
  change reference.shape = shape at same
  subst same
  obtain ⟨report, difference, hok, hdifference, htallies⟩ := tallied_compareColor ht
    (show (Raster.mk reference.shape samples hpos hsize).shape = reference.shape from rfl)
  have hbeyond : (fun i => decide (tolerances.color.ExceededBy (difference i))) = fun i =>
      decide (DiffersBeyond tolerances.color ⟨reference.shape, samples, hpos, hsize⟩ reference rfl i) := by
    funext i
    have h : tolerances.color.ExceededBy (difference i) ↔ _ :=
      Binary.exceededBy_isGreatest_iff (hdifference i)
    rw [Set.exists_range_iff] at h
    exact decide_eq_decide.mpr h
  have hcount := htallies.invalid
  rw [← PixelReport.length_filter_finRange] at hcount
  have hlisted := htallies.sampled
  rw [hcount, ← List.take_eq_take_min] at hlisted
  rw [hbeyond] at hcount hlisted
  exact ⟨report, hok, hcount, hlisted⟩

/-- Writes to a color raster change one sample each, of the pixel in their column and row. A comparison
with the raster as it was has as invalid pixels those of the written places where the writes have left
a difference beyond the tolerance, each once, and lists the first sixteen in row-major order under the
columns and rows that were written to. -/
theorem compareColor_writes (ht : tolerances.color.NonNegative) (reference : ColorRaster)
    (writes : List (Write reference.shape UInt8)) :
    (∀ (raster : ColorRaster) (write : Write raster.shape UInt8), ∃ written,
      raster.put? write.place.1 write.place.2 write.channel write.value = some written ∧
        written.shape = raster.shape ∧ ∀ i, written.pixel? i =
          if i = write.place.2 * raster.shape.width + write.place.1 then
            (raster.pixel? i).map (·.set write.channel write.value)
          else raster.pixel? i) ∧
    ∃ candidate, reference.putAll? writes = some candidate ∧
      ∃ (same : reference.shape = candidate.shape) (report : PixelReport),
        tolerances.compareColor candidate reference = .ok report ∧
        report.invalidPixels = ((writes.map Write.place).toFinset.filter fun place =>
          DiffersBeyond tolerances.color candidate reference same (reference.shape.index place)).card ∧
        report.sampleInvalid = ((reference.shape.places.filter fun place =>
          place ∈ writes.map Write.place ∧ DiffersBeyond tolerances.color candidate reference same
            (reference.shape.index place)).take 16).map fun place => (place.1.val, place.2.val) := by
  refine ⟨Raster.pixel?_put?, ?_⟩
  obtain ⟨candidate, hput, same, hwritten⟩ := reference.putAll?_spec rfl writes
  obtain ⟨report, hok, hcount, hlisted⟩ := compareColor_reports ht same
  -- A pixel that no write is for is as it was, so it does not differ.
  have hplace : ∀ place, DiffersBeyond tolerances.color candidate reference same
      (reference.shape.index place) → place ∈ writes.map Write.place := by
    rintro place ⟨k, hexceeded⟩
    rcases hwritten (reference.shape.index place) k with hkept | ⟨write, hwrite, hindex, -⟩
    · change _ = reference.sample (reference.shape.index place) k at hkept
      rw [hkept, sampleDifference_self] at hexceeded
      exact absurd hexceeded ht.not_exceededBy_zero
    · exact List.mem_map.mpr ⟨write, hwrite, Shape.index_injective hindex⟩
  have hplaces : (reference.shape.places.filter fun place =>
      DiffersBeyond tolerances.color candidate reference same (reference.shape.index place)) =
        reference.shape.places.filter fun place => place ∈ writes.map Write.place ∧
          DiffersBeyond tolerances.color candidate reference same (reference.shape.index place) :=
    List.filter_congr fun place _ =>
      decide_eq_decide.mpr ⟨fun h => ⟨hplace place h, h⟩, And.right⟩
  rw [Shape.filter_finRange, hplaces] at hcount hlisted
  refine ⟨candidate, hput, same, report, hok, ?_, ?_⟩
  · rw [hcount, List.length_map, Shape.length_filter_places]
  · rw [hlisted, ← List.map_take, List.map_map]
    exact List.map_congr_left fun place _ => Shape.place_index place

def fourWrites : List (Write ⟨2, 2, 3⟩ UInt8) := [
  ⟨(1, 0), 1, 200⟩, ⟨(0, 1), 2, 90⟩, ⟨(1, 0), 1, 100⟩, ⟨(0, 1), 2, 255⟩]

def oneChanged : ColorRaster :=
  ⟨⟨2, 2, 3⟩, #[100, 100, 100, 100, 100, 100, 100, 100, 255, 100, 100, 100], by decide, rfl⟩

/-- Of two places that were written twice each, only the one whose write was not undone is reported. -/
theorem compareColor_writes_undone : standard.color.NonNegative ∧
    (Raster.filled 2 2 3 100).putAll? fourWrites = some oneChanged ∧
      ∃ report, standard.compareColor oneChanged (.filled 2 2 3 100) = .ok report ∧
        report.invalidPixels = 1 ∧ report.sampleInvalid = [(0, 1)] := by
  have hstandard : standard.color.NonNegative := by decide +kernel
  have hwrites : (Raster.filled 2 2 3 100).putAll? fourWrites = some oneChanged := rfl
  obtain ⟨-, candidate, hput, same, report, hok, hcount, hlisted⟩ :=
    compareColor_writes hstandard (.filled 2 2 3 100) fourWrites
  obtain rfl : oneChanged = candidate := Option.some.inj (hwrites.symm.trans hput)
  refine ⟨hstandard, hwrites, report, hok, hcount.trans ?_, hlisted.trans ?_⟩
  all_goals
    clear hcount hlisted
    decide +kernel +revert

end Tolerances

end RenderVerdict
