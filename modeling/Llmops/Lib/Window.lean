import Mathlib

/-!
# A sliding window that forgets late

A limiter notes the times at which it let something pass, oldest first. What has left the window of
width `w` it forgets only when it is asked again, from the front (`trailing`).

`Kept w passed hits now` is the invariant: `passed` has all the times there were, in order, and the
`hits` are what is left of them at `now`. It is kept when time goes on (`Kept.later`), when the front
is trimmed (`Kept.trim`) and when something passes (`Kept.pass`), and it says that what is left after
trimming is what lies in the window (`Kept.trailing_eq`).

`AtMost w n passed` bounds every window, not only those that end at a question: `AtMost.pass`.
-/

namespace Llmops.Lib.Window

variable {T : Type*} [AddCommGroup T] [LinearOrder T]

/-- The times in the half-open window `(t - w, t]`. -/
def within (w t : T) (ts : List T) : List T := ts.filter fun s => t - w < s ∧ s ≤ t

/-- What is left once the front has been trimmed. -/
def trailing (w now : T) (hits : List T) : List T := hits.dropWhile fun s => s ≤ now - w

/-- At most `n` times in every window. -/
def AtMost (w : T) (n : ℕ) (passed : List T) : Prop := ∀ t, (within w t passed).length ≤ n

/-- The hits are what is left of the times at which something passed. -/
structure Kept (w : T) (passed hits : List T) (now : T) : Prop where
  sorted : passed.Pairwise (· ≤ ·)
  le_now : ∀ s ∈ passed, s ≤ now
  left : ∃ evicted, passed = evicted ++ hits ∧ ∀ s ∈ evicted, s ≤ now - w

variable {w now now' t : T} {passed hits : List T} {n : ℕ}

theorem within_append {ts us : List T} : within w t (ts ++ us) = within w t ts ++ within w t us :=
  List.filter_append ..

theorem Kept.empty : Kept w [] [] now where
  sorted := List.Pairwise.nil
  le_now := by simp
  left := ⟨[], rfl, by simp⟩

theorem Kept.trim (h : Kept w passed hits now) : Kept w passed (trailing w now hits) now where
  sorted := h.sorted
  le_now := h.le_now
  left := by
    obtain ⟨evicted, heq, hevicted⟩ := h.left
    refine ⟨evicted ++ hits.takeWhile fun s => s ≤ now - w, ?_, fun s hs => ?_⟩
    · rw [heq, List.append_assoc, trailing, List.takeWhile_append_dropWhile]
    · rcases List.mem_append.mp hs with hs | hs
      · exact hevicted s hs
      · simpa using List.mem_takeWhile_imp hs

theorem Kept.pass (h : Kept w passed hits now) : Kept w (passed ++ [now]) (hits ++ [now]) now where
  sorted := by
    refine List.pairwise_append.mpr ⟨h.sorted, List.pairwise_singleton _ _, fun s hs t ht => ?_⟩
    rw [List.mem_singleton.mp ht]
    exact h.le_now s hs
  le_now := by
    intro s hs
    rcases List.mem_append.mp hs with hs | hs
    · exact h.le_now s hs
    · exact (List.mem_singleton.mp hs).le
  left := by
    obtain ⟨evicted, heq, hevicted⟩ := h.left
    exact ⟨evicted, by rw [heq, List.append_assoc], hevicted⟩

/-- In a sorted list the front is all there is to trim. -/
theorem trailing_of_sorted (hsorted : hits.Pairwise (· ≤ ·)) (hle : ∀ s ∈ hits, s ≤ now) :
    trailing w now hits = within w now hits := by
  unfold trailing within
  induction hits with
  | nil => rfl
  | cons a hits ih =>
    obtain ⟨hhead, htail⟩ := List.pairwise_cons.mp hsorted
    have hrest : ∀ s ∈ hits, s ≤ now := fun s hs => hle s (List.mem_cons_of_mem _ hs)
    by_cases ha : a ≤ now - w
    · rw [List.dropWhile_cons_of_pos (by simpa using ha), ih htail hrest,
        List.filter_cons_of_neg (by simp [ha])]
    · -- from the first hit that stays on, all of them do
      rw [List.dropWhile_cons_of_neg (by simpa using ha), List.filter_eq_self.mpr]
      intro s hs
      have has : a ≤ s := by
        rcases List.mem_cons.mp hs with rfl | hs
        · exact le_rfl
        · exact hhead s hs
      simpa using ⟨(not_le.mp ha).trans_le has, hle s hs⟩

/-- **What is left is what lies in the window.** -/
theorem Kept.trailing_eq (h : Kept w passed hits now) :
    trailing w now hits = within w now passed := by
  obtain ⟨evicted, rfl, hevicted⟩ := h.left
  obtain ⟨-, hsorted, -⟩ := List.pairwise_append.mp h.sorted
  have hgone : within w now evicted = [] :=
    List.filter_eq_nil_iff.mpr fun s hs => by simp [hevicted s hs]
  rw [trailing_of_sorted hsorted fun s hs => h.le_now s (List.mem_append_right _ hs),
    within_append, hgone, List.nil_append]

variable [IsOrderedAddMonoid T]

theorem Kept.later (h : Kept w passed hits now) (hle : now ≤ now') : Kept w passed hits now' where
  sorted := h.sorted
  le_now s hs := (h.le_now s hs).trans hle
  left := by
    obtain ⟨evicted, heq, hevicted⟩ := h.left
    exact ⟨evicted, heq, fun s hs => (hevicted s hs).trans (sub_le_sub_right hle w)⟩

/-- **One more passes where the window that ends now has room**: every window keeps its bound. -/
theorem AtMost.pass (h : AtMost w n passed) (hle : ∀ s ∈ passed, s ≤ now)
    (hroom : (within w now passed).length < n) : AtMost w n (passed ++ [now]) := by
  intro t
  rw [within_append, List.length_append]
  by_cases ht : t - w < now ∧ now ≤ t
  · -- what passed before and is in this window is in the one that ends now
    have hsub : (within w t passed).length ≤ (within w now passed).length := by
      unfold within
      rw [← List.countP_eq_length_filter, ← List.countP_eq_length_filter]
      refine List.countP_mono_left fun s hs hwindow => ?_
      have hleft : t - w < s := (of_decide_eq_true hwindow).1
      simpa using ⟨(sub_le_sub_right ht.2 w).trans_lt hleft, hle s hs⟩
    have hone : (within w t [now]).length ≤ 1 := List.length_filter_le _ _
    omega
  · have hnone : within w t [now] = [] := by
      rw [within, List.filter_cons_of_neg (by simpa using ht), List.filter_nil]
    rw [hnone, List.length_nil, Nat.add_zero]
    exact h t

end Llmops.Lib.Window
