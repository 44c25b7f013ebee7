import RenderVerdict.Packing.Basic

/-! Bytes packed with a dictionary of words. Every code stands for a word, and every word with the
first byte of the one behind it is a new word. One code empties the dictionary and one ends. -/
namespace RenderVerdict.Dictionary

abbrev Words := Array (Array UInt8)

def clearCode : Nat := 256

def endCode : Nat := 257

/-- The words of one byte, and places for the two codes that stand for none. -/
def Words.initial : Words :=
  (Array.range 256).map (fun n => #[UInt8.ofNat n]) ++ #[#[], #[]]

def maxWords : Nat := 4096

/-- The bits of a code while a dictionary has `count` words. They grow one word before they have
to. -/
def codeBits (count : Nat) : Nat :=
  if count < 511 then 9 else if count < 1023 then 10 else if count < 2047 then 11 else 12

theorem codeBits_pos (count : Nat) : 0 < codeBits count := by
  unfold codeBits
  split
  · decide
  · split
    · decide
    · split <;> decide

def bitsAt (packed : Array UInt8) (place count : Nat) : Nat :=
  (List.range' place count).foldl (fun n i =>
    let byte := packed[i / 8]?.getD 0
    n * 2 + (byte >>> (7 - i % 8).toUInt8).toNat % 2) 0

/-- The word of a code behind another word. It may be the word that this code adds. -/
def wordOf? (words : Words) (previous : Option (Array UInt8)) (code : Nat) :
    Option (Array UInt8) :=
  match previous with
  | none => if code < clearCode then words[code]? else none
  | some word => if code = words.size then some (word ++ word.take 1) else words[code]?

def addWord (words : Words) (previous : Option (Array UInt8)) (word : Array UInt8) : Words :=
  match previous with
  | some before => if words.size < maxWords then words.push (before ++ word.take 1) else words
  | none => words

def unpackFrom (limit : Nat) (packed : Array UInt8) (words : Words)
    (previous : Option (Array UInt8)) (before : Array UInt8) (place : Nat) : Unpacked :=
  let count := codeBits words.size
  if limit ≤ before.size then ⟨before, .full⟩
  else if _inside : place + count ≤ 8 * packed.size then
    have := codeBits_pos words.size
    let code := bitsAt packed place count
    if code = clearCode then unpackFrom limit packed .initial none before (place + count)
    else if code = endCode then ⟨before, .finished⟩
    else
      match wordOf? words previous code with
      | none => ⟨before, .broken⟩
      | some word =>
        unpackFrom limit packed (addWord words previous word) (some word) (before ++ word)
          (place + count)
  else ⟨before, .starved⟩
termination_by 8 * packed.size - place
decreasing_by
  · omega
  · omega

/-- The words that codes stand for, until there are `limit` bytes. The last word may go on a
little. -/
def unpack (limit : Nat) (packed : Array UInt8) : Unpacked :=
  unpackFrom limit packed .initial none #[] 0

end RenderVerdict.Dictionary
