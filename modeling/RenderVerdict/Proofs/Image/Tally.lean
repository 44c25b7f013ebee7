import Mathlib.Data.Fintype.Card
import RenderVerdict.Image.Comparison
import RenderVerdict.Proofs.Lists
import RenderVerdict.Proofs.Number.Nearest
import RenderVerdict.Proofs.Number.Order

/-! What a report on rasters says about the differences of their pixels: how many exceed the
tolerance, how large the largest is, and where the first of the invalid pixels are. -/
namespace RenderVerdict

namespace Binary

variable {f : Format}

/-- The greatest of some numbers exceeds a tolerance exactly if one of them does. -/
theorem exceededBy_isGreatest_iff {tolerance : Binary f} {numbers : Set ℚ} {greatest : ℚ}
    (h : IsGreatest numbers greatest) :
    tolerance.ExceededBy greatest ↔ ∃ r ∈ numbers, tolerance.ExceededBy r := by
  constructor
  · intro hexceeded
    exact ⟨greatest, h.1, hexceeded⟩
  · rintro ⟨r, hr, hfinite, hlt⟩
    exact ⟨hfinite, hlt.trans_le (h.2 hr)⟩

theorem NonNegative.not_exceededBy_zero {tolerance : Binary f} (h : tolerance.NonNegative) :
    ¬ tolerance.ExceededBy 0 := fun hexceeded => not_lt.mpr h.toRat_nonneg hexceeded.2

end Binary

def Shape.place (shape : Shape) (i : Fin shape.pixels) : Nat × Nat :=
  (i.val % shape.width, i.val / shape.width)

theorem Shape.place_lt (shape : Shape) (i : Fin shape.pixels) :
    (shape.place i).1 < shape.width ∧ (shape.place i).2 < shape.height := by
  have hi : i.val < shape.width * shape.height := i.isLt
  exact ⟨Nat.mod_lt _ (Nat.pos_of_lt_mul_right hi), Nat.div_lt_of_lt_mul hi⟩

namespace PixelReport

/-- A report holds the exact tally of the differences of the pixels of a shape: how many pixels there
are, how many have a difference that exceeds the tolerance, the largest difference, and the columns
and rows of the first sixteen invalid pixels in row-major order. -/
structure Tallies (report : PixelReport) (shape : Shape) (tolerance : Double)
    (difference : Fin shape.pixels → ℚ) : Prop where
  total : report.totalPixels = shape.width * shape.height
  invalid : report.invalidPixels =
    (Finset.univ.filter fun i => tolerance.ExceededBy (difference i)).card
  finite : report.maxDifference.isFinite
  largest : IsGreatest (insert 0 (Set.range difference)) report.maxDifference.toRat
  exceeds : tolerance.ExceededBy report.maxDifference.toRat ↔ 0 < report.invalidPixels
  sampled : report.sampleInvalid = (((List.finRange shape.pixels).filter fun i =>
      tolerance.ExceededBy (difference i)).take (min 16 report.invalidPixels)).map shape.place
  inside : ∀ place ∈ report.sampleInvalid, place.1 < shape.width ∧ place.2 < shape.height

theorem Tallies.invalidPixels_eq_zero_iff {report : PixelReport} {shape : Shape}
    {tolerance : Double} {difference : Fin shape.pixels → ℚ}
    (h : report.Tallies shape tolerance difference) :
    report.invalidPixels = 0 ↔ ∀ i, ¬ tolerance.ExceededBy (difference i) := by
  rw [h.invalid, Finset.card_eq_zero, Finset.filter_eq_empty_iff]
  simp

section Differences

variable {n : Nat} {tolerance : Double} {difference : Fin n → Double}

/-- The invalid pixels are listed in row-major order. -/
theorem invalidIndices_ofFn (ht : tolerance.NonNegative) (hd : ∀ i, (difference i).isFinite) :
    invalidIndices tolerance (List.ofFn difference) = ((List.finRange n).filter fun i =>
      tolerance.ExceededBy (difference i).toRat).map Fin.val := by
  have hindexed : (List.ofFn difference).zipIdx =
      (List.finRange n).map fun i => (difference i, i.val) :=
    List.ext_getElem (by simp) fun i _ _ => by simp
  have hexceeds : ((fun entry : Double × Nat => tolerance.lt entry.1) ∘
      fun i => (difference i, i.val)) = fun i => decide (tolerance.ExceededBy (difference i).toRat) := by
    funext i
    exact Bool.eq_iff_iff.mpr ((Binary.lt_iff_exceededBy ht (hd i)).trans decide_eq_true_iff.symm)
  unfold invalidIndices
  rw [hindexed, List.filter_map, hexceeds, List.map_map]
  rfl

theorem length_filter_finRange (p : Fin n → Prop) [DecidablePred p] :
    ((List.finRange n).filter p).length = (Finset.univ.filter p).card := by
  have hnodup : ((List.finRange n).filter p).Nodup := (List.nodup_finRange n).filter _
  rw [← List.toFinset_card_of_nodup hnodup]
  congr 1
  ext i
  simp

theorem isGreatest_maxDifference (hd : ∀ i, (difference i).isFinite) :
    ((List.ofFn difference).foldl Binary.max Binary.zero).isFinite ∧
      IsGreatest (insert 0 (Set.range fun i => (difference i).toRat))
        ((List.ofFn difference).foldl Binary.max Binary.zero).toRat := by
  rw [← Binary.toRat_zero (f := .double)]
  exact isGreatest_foldl_ofFn (fun most : Double => most.isFinite) rfl
    fun most hmost i => Binary.max_finite hmost (hd i)

end Differences

variable {channel : Channel} {shape : Shape} {tolerance threshold : Double}

/-- The report on differences is their exact tally. -/
theorem tallies_ofDifferences (ht : tolerance.NonNegative)
    {difference : Fin shape.pixels → Double} (hd : ∀ i, (difference i).isFinite) :
    (ofDifferences channel shape tolerance threshold (List.ofFn difference)).Tallies shape tolerance
      fun i => (difference i).toRat := by
  have hlisted := invalidIndices_ofFn ht hd
  have hinvalid : (invalidIndices tolerance (List.ofFn difference)).length =
      (Finset.univ.filter fun i => tolerance.ExceededBy (difference i).toRat).card := by
    rw [hlisted, List.length_map, length_filter_finRange]
  have hsampled : (ofDifferences channel shape tolerance threshold
      (List.ofFn difference)).sampleInvalid = (((List.finRange shape.pixels).filter fun i =>
        tolerance.ExceededBy (difference i).toRat).take
          (min 16 (invalidIndices tolerance (List.ofFn difference)).length)).map shape.place := by
    change ((invalidIndices tolerance (List.ofFn difference)).take 16).map _ = _
    rw [hlisted, ← List.map_take, List.map_map, List.length_map, ← List.take_eq_take_min]
    rfl
  obtain ⟨hfinite, hgreatest⟩ := isGreatest_maxDifference hd
  refine ⟨rfl, hinvalid, hfinite, hgreatest, ?_, hsampled, ?_⟩
  · change _ ↔ 0 < (invalidIndices tolerance (List.ofFn difference)).length
    refine (Binary.exceededBy_isGreatest_iff hgreatest).trans ?_
    rw [hinvalid, Finset.card_pos, Finset.filter_nonempty_iff]
    simp [ht.not_exceededBy_zero]
  · intro place hm
    rw [hsampled] at hm
    obtain ⟨i, -, rfl⟩ := List.mem_map.mp hm
    exact shape.place_lt i

end PixelReport

end RenderVerdict
