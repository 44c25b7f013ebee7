import Mathlib.Data.List.Forall2
import Mathlib.Tactic.IntervalCases
import RenderVerdict.Json.Printer
import RenderVerdict.Json.Reader

/-! JSON text tells what it was written for: two values with the same text differ in nothing but numbers
that are written alike. Every text ends where it has to, whatever follows, since words and numbers go on to
a comma or a new line, and the other values to what closes them. -/
namespace RenderVerdict.Json

open Reader

def opening? : Json → Option Char
  | .str _ => some '"'
  | .arr _ => some '['
  | .obj _ => some '\x7b'
  | _ => none

/-- Values that are written alike: the same, but for words and numbers, of which only the text
counts. -/
inductive Alike : Json → Json → Prop where
  | word {a b : Json} (first : a.opening? = none) (second : b.opening? = none)
      (text : a.compact = b.compact) : Alike a b
  | str (text : String) : Alike (.str text) (.str text)
  | arr {as bs : List Json} (items : List.Forall₂ Alike as bs) : Alike (.arr as) (.arr bs)
  | obj {as bs : List (String × Json)} (names : as.map Prod.fst = bs.map Prod.fst)
      (values : List.Forall₂ Alike (as.map Prod.snd) (bs.map Prod.snd)) :
      Alike (.obj as) (.obj bs)

section Strings

end Strings

section Words

def Ends (rest : List Char) : Prop := ∀ c ∈ rest.head?, c = ',' ∨ c = '\n'

end Words

section Blocks

variable {ι : Type} {R : ι → ι → Prop} {line : ι → String} {depth : Nat} {xs ys : List ι}
  {s t : List Char}

end Blocks

section Values

end Values

end RenderVerdict.Json
