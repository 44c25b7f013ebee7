import RenderVerdict.Packing.Basic

/-! Bytes packed as runs. A head below 128 stands before so many bytes and one more, which are taken
as they are; a head above 128 before a byte that is repeated. -/
namespace RenderVerdict.Runs

def unpackFrom (limit : Nat) (before : Array UInt8) (packed : List UInt8) : Unpacked :=
  if limit ≤ before.size then ⟨before, .full⟩
  else
    match packed with
    | [] => ⟨before, .starved⟩
    | head :: rest =>
      if head < 128 then
        let count := head.toNat + 1
        unpackFrom limit (before ++ (rest.take count).toArray) (rest.drop count)
      else if head = 128 then unpackFrom limit before rest
      else
        match rest with
        | [] => ⟨before, .starved⟩
        | byte :: rest =>
          unpackFrom limit (before ++ Array.replicate (257 - head.toNat) byte) rest
termination_by packed.length
decreasing_by
  · simp only [List.length_drop, List.length_cons]; omega
  · simp only [List.length_cons]; omega
  · simp only [List.length_cons]; omega

/-- The bytes that runs stand for, `limit` of them at most. The last run may go on a little. -/
def unpack (limit : Nat) (packed : List UInt8) : Unpacked := unpackFrom limit #[] packed

end RenderVerdict.Runs
