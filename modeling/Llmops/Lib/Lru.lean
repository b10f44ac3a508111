import Mathlib

/-!
# A memoised function with a least-recently-used cache (`functools.lru_cache`)

A cache of a bounded number of results, the one used last at the end. What a call returns is the
value of the function at the time the result was stored: `Fresh value cache` says that the results
are those of `value`, the function as it is now. `none` is a call that raises, which stores nothing.

* `call_again`: a second call returns the same and leaves the cache as it is;
* `Fresh.call`, `Fresh.call_fst`: calls keep a fresh cache fresh, and return the value of now;
* `fresh_iff`: a cache is fresh exactly if every call returns the value of now.
-/

namespace Llmops.Lib.Lru

section Call

variable {K V : Type*} [DecidableEq K]

/-- A call of the function with the value that it would compute. -/
def call (maxsize : Nat) (cache : List (K × V)) (key : K) (compute : Option V) :
    Option V × List (K × V) :=
  match cache.find? fun p => p.1 = key with
  | some p => (some p.2, (cache.filter fun q => q.1 ≠ key) ++ [p])
  | none =>
    match compute with
    | none => (none, cache)
    | some v => (some v, (if cache.length < maxsize then cache else cache.tail) ++ [(key, v)])

variable {cache : List (K × V)} {key : K} {maxsize : Nat} {compute : Option V} {v : V}
  {p : K × V}

theorem call_of_find (h : (cache.find? fun p => p.1 = key) = some p) :
    call maxsize cache key compute = (some p.2, (cache.filter fun q => q.1 ≠ key) ++ [p]) := by
  unfold call
  rw [h]

theorem call_of_missing (h : (cache.find? fun p => p.1 = key) = none) :
    call maxsize cache key (some v) =
      (some v, (if cache.length < maxsize then cache else cache.tail) ++ [(key, v)]) := by
  unfold call
  rw [h]

theorem key_of_find (h : (cache.find? fun p => p.1 = key) = some p) : p.1 = key := by
  simpa using List.find?_some h

/-- The key of a result that stands last and nowhere else. -/
theorem call_of_last (hkey : p.1 = key) (h : ∀ q ∈ cache, q.1 ≠ key) :
    call maxsize (cache ++ [p]) key compute = (some p.2, cache ++ [p]) := by
  have hnone : (cache.find? fun q => q.1 = key) = none :=
    List.find?_eq_none.mpr fun q hq => by simpa using h q hq
  have hfind : ((cache ++ [p]).find? fun q => q.1 = key) = some p := by
    rw [List.find?_append, hnone, Option.none_or, List.find?_singleton]
    simp [hkey]
  have hfilter : cache.filter (fun q => q.1 ≠ key) = cache :=
    List.filter_eq_self.mpr fun q hq => by simpa using h q hq
  rw [call_of_find hfind, List.filter_append, hfilter]
  simp [hkey]

/-- **A second call** returns what the first one did, whatever it would compute. -/
theorem call_again (compute' : Option V) (h : (call maxsize cache key compute).1 = some v) :
    call maxsize (call maxsize cache key compute).2 key compute' =
      (some v, (call maxsize cache key compute).2) := by
  cases hfind : cache.find? fun p => p.1 = key with
  | some p =>
    rw [call_of_find hfind] at h ⊢
    rw [call_of_last (key_of_find hfind) fun q hq => by simpa using (List.mem_filter.mp hq).2]
    rw [Option.some.inj h]
  | none =>
    cases compute with
    | none =>
      unfold call at h
      rw [hfind] at h
      cases h
    | some w =>
      have hmissing := List.find?_eq_none.mp hfind
      rw [call_of_missing hfind] at h ⊢
      rw [call_of_last rfl, Option.some.inj h]
      intro q hq
      split_ifs at hq with hlen
      · simpa using hmissing q hq
      · simpa using hmissing q (List.mem_of_mem_tail hq)

/-- Every key once. -/
theorem nodup_call (h : (cache.map Prod.fst).Nodup) :
    ((call maxsize cache key compute).2.map Prod.fst).Nodup := by
  have hadd : ∀ {c : List (K × V)} {p : K × V}, (c.map Prod.fst).Nodup → (∀ q ∈ c, q.1 ≠ p.1) →
      ((c ++ [p]).map Prod.fst).Nodup := fun {c p} hc hp => by
    rw [List.map_append, List.nodup_append]
    refine ⟨hc, List.nodup_singleton _, fun a ha b hb => ?_⟩
    obtain ⟨q, hq, rfl⟩ := List.mem_map.mp ha
    rw [List.mem_singleton.mp hb]
    exact hp q hq
  cases hfind : cache.find? fun p => p.1 = key with
  | some p =>
    rw [call_of_find hfind]
    refine hadd (h.sublist (List.filter_sublist.map _)) fun q hq => ?_
    rw [key_of_find hfind]
    simpa using (List.mem_filter.mp hq).2
  | none =>
    cases compute with
    | none =>
      unfold call
      rw [hfind]
      exact h
    | some w =>
      have hmissing := List.find?_eq_none.mp hfind
      rw [call_of_missing hfind]
      split_ifs with hlen
      · exact hadd h fun q hq => by simpa using hmissing q hq
      · refine hadd (h.sublist ((List.tail_sublist _).map _)) fun q hq => ?_
        simpa using hmissing q (List.mem_of_mem_tail hq)

end Call

/-! ## Fresh results -/

section Fresh

variable {K V : Type*}

/-- Every stored result is the value of now. -/
def Fresh (value : K → Option V) (cache : List (K × V)) : Prop := ∀ p ∈ cache, value p.1 = some p.2

variable {value value' : K → Option V} {cache : List (K × V)} {maxsize : Nat}

theorem Fresh.nil : Fresh value [] := fun _ h => absurd h List.not_mem_nil

/-- **The function changes**: the results stay fresh if it did not change where they are stored. -/
theorem Fresh.change_iff (h : Fresh value cache) :
    Fresh value' cache ↔ ∀ p ∈ cache, value' p.1 = value p.1 :=
  forall₂_congr fun p hp => by rw [h p hp]

variable [DecidableEq K]

theorem Fresh.call_fst (h : Fresh value cache) (key : K) :
    (call maxsize cache key (value key)).1 = value key := by
  unfold Lru.call
  cases hfind : cache.find? fun p => p.1 = key with
  | some p =>
    rw [← key_of_find hfind]
    exact (h p (List.mem_of_find?_eq_some hfind)).symm
  | none => cases value key <;> rfl

/-- **Calls** keep the cache fresh. -/
theorem Fresh.call (h : Fresh value cache) (key : K) :
    Fresh value (call maxsize cache key (value key)).2 := by
  unfold Lru.call
  cases hfind : cache.find? fun p => p.1 = key with
  | some p =>
    intro q hq
    rcases List.mem_append.mp hq with hq | hq
    · exact h q (List.mem_of_mem_filter hq)
    · rw [List.mem_singleton.mp hq]
      exact h p (List.mem_of_find?_eq_some hfind)
  | none =>
    cases hvalue : value key with
    | none => exact h
    | some v =>
      intro q hq
      rcases List.mem_append.mp hq with hq | hq
      · split_ifs at hq with hlen
        · exact h q hq
        · exact h q (List.mem_of_mem_tail hq)
      · rw [List.mem_singleton.mp hq, hvalue]

/-- **Fresh results** are what calls return. -/
theorem fresh_iff (maxsize : Nat) (hnodup : (cache.map Prod.fst).Nodup) :
    Fresh value cache ↔ ∀ key, (Lru.call maxsize cache key (value key)).1 = value key := by
  constructor
  · intro h key
    exact h.call_fst key
  · intro h p hp
    have hfind : (cache.find? fun q => q.1 = p.1) = some p := by
      cases hq : cache.find? fun q => q.1 = p.1 with
      | none => simpa using List.find?_eq_none.mp hq p hp
      | some q =>
        have hmem := List.mem_of_find?_eq_some hq
        rw [List.inj_on_of_nodup_map hnodup hmem hp (key_of_find hq)]
    rw [← h p.1, call_of_find hfind]

end Fresh

end Llmops.Lib.Lru
