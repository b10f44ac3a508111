import Mathlib

/-!
# First occurrences

The elements of a list whose key was not met before, in order: `firstBy key seen xs` starts with the
keys of `seen` as met.

* `mem_firstBy_key`: every key of the list was met before or is among the first ones.
-/

namespace Llmops.Lib

variable {α κ : Type*} [DecidableEq κ] {key : α → κ} {seen : List κ} {xs : List α} {k : κ}

/-- The first element of each key that is not in `seen`, in the order of the list. -/
def firstBy (key : α → κ) : List κ → List α → List α
  | _, [] => []
  | seen, x :: xs =>
    if key x ∈ seen then firstBy key seen xs else x :: firstBy key (key x :: seen) xs

/-- Nothing is left out. -/
theorem mem_firstBy_key : k ∈ seen ∨ k ∈ (firstBy key seen xs).map key ↔
    k ∈ seen ∨ k ∈ xs.map key := by
  induction xs generalizing seen with
  | nil => rfl
  | cons x xs ih =>
    unfold firstBy
    split_ifs with hseen
    · rw [ih, List.map_cons, List.mem_cons]
      constructor
      · exact Or.imp_right .inr
      · rintro (h | rfl | h)
        · exact .inl h
        · exact .inl hseen
        · exact .inr h
    · have htail := @ih (key x :: seen)
      simp only [List.map_cons, List.mem_cons] at htail ⊢
      tauto

end Llmops.Lib
