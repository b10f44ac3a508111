import Llmops.Lib.Json

/-!
# Slices, groups and writes by index

Three loops over lists, each with what it computes: the slices of a list (`flatten_slices`), the
indices of a list by what stands there (`mem_indicesBy`), and writes by index, the values of which
are known (`writeAll_eq`).
-/

namespace Llmops.Lib

section Slices

variable {α : Type*} {xs : List α} {b : Nat}

/-- `[xs[i:i+b] for i in range(0, len(xs), b)]`. -/
def slices (b : Nat) (xs : List α) : List (List α) :=
  (List.range ((xs.length + b - 1) / b)).map fun j => (xs.drop (j * b)).take b

theorem flatten_slices_range (n : Nat) :
    ((List.range n).map fun j => (xs.drop (j * b)).take b).flatten = xs.take (n * b) := by
  induction n with
  | zero => simp
  | succ n ih =>
    rw [List.range_succ, List.map_append, List.flatten_append, ih, List.map_singleton,
      List.flatten_singleton, ← List.take_add]
    congr 1
    ring

/-- **The slices** of a list put together are the list. -/
theorem flatten_slices (hb : 0 < b) : (slices b xs).flatten = xs := by
  have hle : xs.length ≤ (xs.length + b - 1) / b * b := by
    have hdiv := Nat.div_add_mod (xs.length + b - 1) b
    have hmod := Nat.mod_lt (xs.length + b - 1) hb
    rw [mul_comm] at hdiv
    omega
  rw [slices, flatten_slices_range, List.take_of_length_le hle]

end Slices

/-! ## Groups -/

section Groups

variable {keys : List String} {key : String} {i : Nat}

/-- One more index in the group of its key: `d.setdefault(key, []).append(i)`. -/
def addIndex (d : Dict (List Nat)) (p : String × Nat) : Dict (List Nat) :=
  d.set p.1 ((d.get p.1).getD [] ++ [p.2])

/-- The indices of each key, in order. -/
def indicesBy (keys : List String) : Dict (List Nat) := keys.zipIdx.foldl addIndex []

theorem indicesBy_concat :
    indicesBy (keys ++ [key]) = addIndex (indicesBy keys) (key, keys.length) := by
  unfold indicesBy
  rw [List.zipIdx_append, List.foldl_append]
  simp

theorem unique_indicesBy : (indicesBy keys).Unique := by
  induction keys using List.reverseRecOn with
  | nil => exact List.nodup_nil
  | append_singleton keys key ih =>
    rw [indicesBy_concat]
    exact ih.set

/-- **The group of a key** has the indices at which it stands. -/
theorem mem_indicesBy : (∃ idxs, (indicesBy keys).get key = some idxs ∧ i ∈ idxs) ↔
    keys[i]? = some key := by
  induction keys using List.reverseRecOn with
  | nil =>
    simp [indicesBy]
  | append_singleton keys k ih =>
    rw [indicesBy_concat, addIndex, Dict.get_set]
    have hlast : (keys ++ [k])[i]? = some key ↔
        keys[i]? = some key ∨ i = keys.length ∧ k = key := by
      rw [List.getElem?_append]
      split_ifs with hlt
      · constructor
        · exact .inl
        · rintro (h | ⟨rfl, -⟩)
          · exact h
          · exact absurd hlt (lt_irrefl _)
      · have hnone : keys[i]? = none := List.getElem?_eq_none (not_lt.mp hlt)
        rw [hnone, List.getElem?_singleton]
        split_ifs with heq
        · simp [show i = keys.length by omega]
        · simp [show i ≠ keys.length by omega]
    rw [hlast, ← ih]
    by_cases hk : key = k
    · subst hk
      cases hget : (indicesBy keys).get key with
      | none => simp
      | some idxs => simp
    · simp [hk, Ne.symm hk]

end Groups

/-! ## Writes -/

section Writes

variable {α : Type*} {values correct : List α} {ws : List (Nat × α)} {j : Nat}

/-- `for i, v in ws: values[i] = v`. -/
def writeAll (values : List α) (ws : List (Nat × α)) : List α :=
  ws.foldl (fun values w => values.set w.1 w.2) values

theorem getElem?_writeAll (hlen : values.length = correct.length)
    (h : ∀ w ∈ ws, correct[w.1]? = some w.2) :
    (writeAll values ws)[j]? = if j ∈ ws.map Prod.fst then correct[j]? else values[j]? := by
  unfold writeAll
  induction ws generalizing values with
  | nil => simp
  | cons w ws ih =>
    obtain ⟨hw, h⟩ := List.forall_mem_cons.mp h
    rw [List.foldl_cons, ih (by rw [List.length_set, hlen]) h, List.map_cons, List.getElem?_set]
    by_cases hj : j = w.1
    · subst hj
      have hlt : w.1 < values.length := hlen ▸ (List.getElem?_eq_some_iff.mp hw).1
      simp [hw, hlt]
    · simp only [List.mem_cons, hj, false_or, if_neg (Ne.symm hj)]

/-- **Writes of the right values**, at least one for each index. -/
theorem writeAll_eq (hlen : values.length = correct.length)
    (h : ∀ w ∈ ws, correct[w.1]? = some w.2) (hall : ∀ j < correct.length, j ∈ ws.map Prod.fst) :
    writeAll values ws = correct := by
  refine List.ext_getElem? fun j => ?_
  rw [getElem?_writeAll hlen h]
  split_ifs with hj
  · rfl
  · have hle : correct.length ≤ j := not_lt.mp fun hlt => hj (hall j hlt)
    rw [List.getElem?_eq_none hle, List.getElem?_eq_none (hlen ▸ hle)]

theorem writeAll_append {vs : List (Nat × α)} :
    writeAll (writeAll values ws) vs = writeAll values (ws ++ vs) := by
  unfold writeAll
  rw [List.foldl_append]

end Writes

end Llmops.Lib
