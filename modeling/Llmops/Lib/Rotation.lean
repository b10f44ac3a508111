import Mathlib

/-!
# Taking turns around a ring

A counter that grows by one with every turn, reduced modulo the length of the ring, points at the
place whose turn it is. `turns ring h start m` is whose turn it is `m` times in a row, from `start` on.

* `count_turns`: of `m` turns every place of a ring without repeats gets its share, rounded down or
  up, wherever the counter starts.
-/

namespace Llmops.Lib

variable {α : Type*} {ring : List α} {h : ring ≠ []} {start m : Nat} {x : α}

/-- Whose turn it is when the counter stands at `n`. -/
def turnAt (ring : List α) (h : ring ≠ []) (n : Nat) : α :=
  ring.get ⟨n % ring.length, Nat.mod_lt _ (List.length_pos_of_ne_nil h)⟩

/-- The next `m` turns. -/
def turns (ring : List α) (h : ring ≠ []) (start m : Nat) : List α :=
  (List.range' start m).map (turnAt ring h)

theorem turns_succ :
    turns ring h start (m + 1) = turnAt ring h start :: turns ring h (start + 1) m := by
  rw [turns, List.range'_succ, List.map_cons]
  rfl

theorem turns_concat :
    turns ring h start (m + 1) = turns ring h start m ++ [turnAt ring h (start + m)] := by
  rw [turns, List.range'_1_concat, List.map_append]
  rfl

@[simp] theorem length_turns : (turns ring h start m).length = m := by
  rw [turns, List.length_map, List.length_range']

/-- In a ring without repeats a turn is told by its place. -/
theorem turnAt_eq_iff (hnodup : ring.Nodup) {i n : Nat} (hi : i < ring.length) :
    turnAt ring h n = ring[i] ↔ n % ring.length = i := by
  unfold turnAt
  rw [List.get_eq_getElem, hnodup.getElem_inj_iff]

/-- The turns of a place are the counters of one residue. -/
theorem count_turns_eq_count [DecidableEq α] (hnodup : ring.Nodup) {i : Nat}
    (hi : i < ring.length) : (turns ring h start m).count ring[i] =
      m.count fun k => (start + k) % ring.length = i := by
  induction m with
  | zero => rfl
  | succ m ih =>
    rw [turns_concat, List.count_append, ih, Nat.count_succ, List.count_singleton]
    have hturn := turnAt_eq_iff (h := h) (n := start + m) hnodup hi
    by_cases hplace : (start + m) % ring.length = i
    · rw [if_pos hplace, hturn.mpr hplace, beq_self_eq_true, if_pos rfl]
    · rw [if_neg hplace, beq_eq_false_iff_ne.mpr fun hcon => hplace (hturn.mp hcon)]
      rfl

/-- Counters that start elsewhere meet a residue as counters from nought meet another. -/
theorem add_mod_eq_iff {n i k : Nat} (hi : i < n) :
    (start + k) % n = i ↔ k ≡ i + (n - start % n) [MOD n] := by
  have hstart : start % n < n := Nat.mod_lt _ (by omega)
  have hback : start + (i + (n - start % n)) ≡ i [MOD n] := by
    calc start + (i + (n - start % n))
        ≡ start % n + (i + (n - start % n)) [MOD n] :=
          (Nat.mod_modEq start n).symm.add_right _
      _ = i + n := by omega
      _ ≡ i [MOD n] := Nat.add_mod_right i n
  constructor
  · intro h
    have hmod : start + k ≡ i [MOD n] := by rw [Nat.ModEq, h, Nat.mod_eq_of_lt hi]
    exact (hmod.trans hback.symm).add_left_cancel' start
  · intro h
    have hmod : start + k ≡ i [MOD n] := (h.add_left start).trans hback
    rw [← Nat.mod_eq_of_lt hi]
    exact hmod

/-- **Turns are shared out evenly.** -/
theorem count_turns [DecidableEq α] (hnodup : ring.Nodup) (hx : x ∈ ring) :
    (turns ring h start m).count x = m / ring.length ∨
      (turns ring h start m).count x = m ⌈/⌉ ring.length := by
  obtain ⟨i, hi, rfl⟩ := List.getElem_of_mem hx
  have hpos : 0 < ring.length := by omega
  have hcount : (turns ring h start m).count ring[i] = m / ring.length +
      if (i + (ring.length - start % ring.length)) % ring.length < m % ring.length then 1 else 0 := by
    rw [count_turns_eq_count hnodup hi]
    simp only [add_mod_eq_iff hi]
    exact Nat.count_modEq_card m hpos _
  rw [hcount]
  split_ifs with hlate
  · right
    have hrest : 0 < m % ring.length := by omega
    rw [Nat.ceilDiv_eq_add_pred_div]
    have hdiv : m = ring.length * (m / ring.length) + m % ring.length := (Nat.div_add_mod _ _).symm
    have hmod : m % ring.length < ring.length := Nat.mod_lt _ hpos
    symm
    rw [Nat.div_eq_iff hpos]
    have hcomm := Nat.mul_comm ring.length (m / ring.length)
    constructor
    · rw [Nat.add_mul]
      omega
    · rw [Nat.add_mul]
      omega
  · exact Or.inl (Nat.add_zero _)

end Llmops.Lib
