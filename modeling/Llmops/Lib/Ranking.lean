import Mathlib

/-!
# Rankings

A list sorted by a key from the greatest down (`descending`), with the order in which equal keys are
left: the entries numbered and sorted by key and number (`ranking`) are the sorted list
(`descending_eq`), any two of them in the order of `Outranks` (`pairwise_ranking`). What is cut off
at the end is outranked by what is left (`pairwise_take`).
-/

namespace Llmops.Lib

variable {α K : Type*}

/-- `xs[:n]`. -/
def upTo (n : Int) (xs : List α) : List α :=
  xs.take (if 0 ≤ n then n else xs.length + n).toNat

theorem pairwise_take {R : α → α → Prop} {xs : List α} {k : Nat} {x y : α} (h : xs.Pairwise R)
    (hx : x ∈ xs.take k) (hy : y ∈ xs) (hnot : y ∉ xs.take k) : R x y := by
  rw [← List.take_append_drop k xs, List.pairwise_append] at h
  refine h.2.2 x hx y ?_
  rw [← List.take_append_drop k xs, List.mem_append] at hy
  exact hy.resolve_left hnot

variable [LinearOrder K] (key : α → K)

/-- `sorted(xs, key=key, reverse=True)`. -/
def descending (xs : List α) : List α := xs.mergeSort fun x y => key y ≤ key x

/-- The greater key comes first, and of two equal ones the earlier. -/
def Outranks (p q : α × Nat) : Prop := key q.1 < key p.1 ∨ key p.1 = key q.1 ∧ p.2 < q.2

/-- The entries with their numbers, the best first. -/
def ranking (xs : List α) : List (α × Nat) :=
  xs.zipIdx.mergeSort (List.zipIdxLE fun x y => key y ≤ key x)

variable {key} {xs : List α} {x : α} {i : Nat}

theorem descending_eq : descending key xs = (ranking key xs).map Prod.fst :=
  List.mergeSort_zipIdx.symm

theorem mem_ranking : (x, i) ∈ ranking key xs ↔ xs[i]? = some x := by
  unfold ranking
  rw [List.mem_mergeSort, List.mem_zipIdx_iff_getElem?]

theorem length_ranking : (ranking key xs).length = xs.length := by
  unfold ranking
  rw [List.length_mergeSort, List.length_zipIdx]

/-- No number stands twice in a ranking. -/
theorem nodup_ranking : ((ranking key xs).map Prod.snd).Nodup := by
  have hperm : (ranking key xs).Perm xs.zipIdx := List.mergeSort_perm _ _
  rw [(hperm.map Prod.snd).nodup_iff, List.zipIdx_map_snd]
  exact List.nodup_range'

theorem outranks_of_le {p q : α × Nat} (h : List.zipIdxLE (fun x y => key y ≤ key x) p q)
    (hne : p.2 ≠ q.2) : Outranks key p q := by
  unfold List.zipIdxLE at h
  rcases lt_trichotomy (key q.1) (key p.1) with hlt | heq | hgt
  · exact .inl hlt
  · simp only [heq, le_refl, decide_true, if_true, decide_eq_true_eq] at h
    exact .inr ⟨heq.symm, Nat.lt_of_le_of_ne h hne⟩
  · simp only [hgt.not_ge, decide_false, Bool.false_eq_true, if_false] at h

/-- **A ranking** is in the order of its name. -/
theorem pairwise_ranking : (ranking key xs).Pairwise (Outranks key) := by
  have hsorted : (ranking key xs).Pairwise
      fun p q => List.zipIdxLE (fun x y => key y ≤ key x) p q = true :=
    List.pairwise_mergeSort
      (fun p q r => List.zipIdxLE_trans (fun a b c hab hbc => by
        exact decide_eq_true (le_trans (of_decide_eq_true hbc) (of_decide_eq_true hab))) p q r)
      (fun p q => List.zipIdxLE_total (fun a b => by
        simpa using le_total (key b) (key a)) p q) _
  have hne : (ranking key xs).Pairwise fun p q => p.2 ≠ q.2 := List.pairwise_map.mp nodup_ranking
  exact hsorted.imp₂ (fun p q hle hpq => outranks_of_le hle hpq) hne

end Llmops.Lib
