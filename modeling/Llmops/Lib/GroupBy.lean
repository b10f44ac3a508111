import Llmops.Lib.Json

/-!
# Grouping rows and adding them up

`groupBy key rows` are the groups of `GROUP BY`: each key that occurs, with its rows. SQL leaves the
order of the groups open, so facts about them are about permutations. `accumulate` is the loop that
adds up rows in a dictionary, whose entries begin at their first row.

* `sum_groupBy`: the sums of the groups add up to the sum of the rows;
* `filter_groupBy`: the groups of some keys are those of their rows;
* `get_accumulate`: an entry is what its own rows add up to.
-/

namespace Llmops.Lib

section Groups

variable {ρ κ : Type*} [DecidableEq κ] {key : ρ → κ} {rows : List ρ} {k : κ} {g : List ρ}

/-- The keys of the rows, each with its rows. -/
def groupBy (key : ρ → κ) (rows : List ρ) : List (κ × List ρ) :=
  (rows.map key).dedup.map fun k => (k, rows.filter fun r => key r = k)

theorem mem_groupBy : (k, g) ∈ groupBy key rows ↔
    (∃ r ∈ rows, key r = k) ∧ g = rows.filter fun r => key r = k := by
  unfold groupBy
  rw [List.mem_map]
  constructor
  · rintro ⟨k', hk, heq⟩
    obtain ⟨rfl, rfl⟩ := Prod.mk.inj heq
    exact ⟨List.mem_map.mp (List.mem_dedup.mp hk), rfl⟩
  · rintro ⟨hk, rfl⟩
    exact ⟨k, List.mem_dedup.mpr (List.mem_map.mpr hk), rfl⟩

theorem keys_groupBy : (groupBy key rows).map Prod.fst = (rows.map key).dedup := by
  unfold groupBy
  rw [List.map_map]
  exact List.map_id _

theorem nodup_groupBy : ((groupBy key rows).map Prod.fst).Nodup := by
  rw [keys_groupBy]
  exact List.nodup_dedup _

/-- The sums over these keys add up to the sum of all, if no row has another key. -/
theorem sum_filter_keys {M : Type*} [AddCommMonoid M] (f : ρ → M) {keys : List κ}
    (hkeys : keys.Nodup) (hrows : ∀ r ∈ rows, key r ∈ keys) :
    (keys.map fun k => ((rows.filter fun r => key r = k).map f).sum).sum = (rows.map f).sum := by
  induction rows with
  | nil => simp
  | cons r rows ih =>
    obtain ⟨hr, hrows⟩ := List.forall_mem_cons.mp hrows
    have hstep (k : κ) : (((r :: rows).filter fun r => key r = k).map f).sum =
        (if key r = k then f r else 0) + ((rows.filter fun r => key r = k).map f).sum := by
      rw [List.filter_cons]
      by_cases hk : key r = k
      · rw [if_pos (decide_eq_true hk), if_pos hk, List.map_cons, List.sum_cons]
      · rw [if_neg (by simpa using hk), if_neg hk, zero_add]
    have hone : (keys.map fun k => if key r = k then f r else 0).sum = f r := by
      rw [← List.sum_toFinset _ hkeys, Finset.sum_ite_eq, if_pos (List.mem_toFinset.mpr hr)]
    simp only [hstep, List.sum_map_add]
    rw [hone, ih hrows, List.map_cons, List.sum_cons]

/-- **The sums of the groups** add up to the sum of the rows. -/
theorem sum_groupBy {M : Type*} [AddCommMonoid M] (key : ρ → κ) (f : ρ → M) :
    ((groupBy key rows).map fun g => (g.2.map f).sum).sum = (rows.map f).sum := by
  unfold groupBy
  rw [List.map_map]
  exact sum_filter_keys f (List.nodup_dedup _) fun r hr =>
    List.mem_dedup.mpr (List.mem_map_of_mem hr)

/-- **The groups of some keys** are those of their rows. -/
theorem filter_groupBy (key : ρ → κ) (rows : List ρ) (p : κ → Prop) [DecidablePred p] :
    ((groupBy key rows).filter fun g => p g.1).Perm (groupBy key (rows.filter fun r => p (key r))) := by
  refine (List.perm_ext_iff_of_nodup (nodup_groupBy.of_map.filter _) nodup_groupBy.of_map).mpr ?_
  rintro ⟨k, g⟩
  rw [List.mem_filter, mem_groupBy, mem_groupBy, decide_eq_true_iff]
  have hsame (hk : p k) : (rows.filter fun r => p (key r)).filter (fun r => key r = k) =
      rows.filter fun r => key r = k := by
    rw [List.filter_filter]
    refine List.filter_congr fun r _ => ?_
    by_cases hr : key r = k
    · simp [hr, hk]
    · simp [hr]
  constructor
  · rintro ⟨⟨⟨r, hr, hk⟩, rfl⟩, hp⟩
    exact ⟨⟨r, List.mem_filter.mpr ⟨hr, decide_eq_true (hk ▸ hp)⟩, hk⟩, (hsame hp).symm⟩
  · rintro ⟨⟨r, hr, hk⟩, rfl⟩
    obtain ⟨hr, hp⟩ := List.mem_filter.mp hr
    have hp : p k := hk ▸ of_decide_eq_true hp
    exact ⟨⟨⟨r, hr, hk⟩, hsame hp⟩, hp⟩

end Groups

section Accumulate

variable {α V : Type*} {key : α → String} {f : V → α → V} {zero : String → V} {xs : List α}

/-- `f(d.setdefault(key(x), zero), x)`, of every `x`. -/
def accumulate (key : α → String) (f : V → α → V) (zero : String → V) (xs : List α) : Dict V :=
  xs.foldl (fun d x => d.set (key x) (f ((d.get (key x)).getD (zero (key x))) x)) []

theorem accumulate_concat (x : α) : accumulate key f zero (xs ++ [x]) =
    (accumulate key f zero xs).set (key x)
      (f (((accumulate key f zero xs).get (key x)).getD (zero (key x))) x) := List.foldl_concat ..

theorem unique_accumulate : (accumulate key f zero xs).Unique := by
  induction xs using List.reverseRecOn with
  | nil => exact List.nodup_nil
  | append_singleton xs x ih =>
    rw [accumulate_concat]
    exact ih.set

/-- **An entry** is what its own rows add up to; there is one if there are any. -/
theorem get_accumulate (k : String) : (accumulate key f zero xs).get k =
    if k ∈ xs.map key then some ((xs.filter fun x => key x = k).foldl f (zero k)) else none := by
  induction xs using List.reverseRecOn with
  | nil => rfl
  | append_singleton xs x ih =>
    rw [accumulate_concat, List.filter_append, List.map_append]
    by_cases hk : k = key x
    · subst hk
      have hlast : key x ∈ xs.map key ++ [x].map key := List.mem_append_right _ List.mem_cons_self
      rw [Dict.get_set_self, ih, if_pos hlast, List.filter_cons_of_pos (by simp), List.filter_nil,
        List.foldl_concat]
      split_ifs with hmem
      · rfl
      · have hnone : (xs.filter fun y => key y = key x) = [] := by
          rw [List.filter_eq_nil_iff]
          intro y hy heq
          exact hmem (List.mem_map.mpr ⟨y, hy, of_decide_eq_true heq⟩)
        rw [hnone]
        rfl
    · rw [Dict.get_set_ne hk, ih, List.filter_cons_of_neg (by simpa using fun h => hk h.symm),
        List.filter_nil, List.append_nil]
      have hmem : k ∈ xs.map key ++ [x].map key ↔ k ∈ xs.map key := by
        rw [List.mem_append, List.map_singleton, List.mem_singleton, or_iff_left hk]
      simp only [hmem]

end Accumulate

end Llmops.Lib
