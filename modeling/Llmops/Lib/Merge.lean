import Llmops.Lib.Json

/-!
# Merging dictionaries key by key

The entries of one dictionary are put into another one after the other; what a key gets depends on
what it had (`mergeWith`). Plain updates, maps of maps and overlays are of this kind.

* `get_mergeWith`: the merged value of each key;
* `mergeWith_again`: what merging the same entries again does, if it is known for one value; with
  nothing to change for one value it changes nothing (`mergeWith_idem`).
-/

namespace Llmops.Lib.Dict

variable {V W : Type*} {d m : Dict V} {e : Dict W}
  {F : String → Option V → W → Option V} {key : String}

/-- `d[key] = F(key, d.get(key), w)` for every entry; `none` where that raises. -/
def mergeWith (F : String → Option V → W → Option V) (d : Dict V) (e : Dict W) : Option (Dict V) :=
  e.foldlM (fun d p => (F p.1 (d.get p.1) p.2).map fun v => d.set p.1 v) d

theorem mergeWith_cons_eq_some {p : String × W} :
    mergeWith F d (p :: e) = some m ↔
      ∃ v, F p.1 (d.get p.1) p.2 = some v ∧ mergeWith F (d.set p.1 v) e = some m := by
  unfold mergeWith
  rw [List.foldlM_cons, Option.bind_eq_bind, Option.bind_eq_some_iff]
  constructor
  · rintro ⟨_, hset, h⟩
    obtain ⟨v, hv, rfl⟩ := Option.map_eq_some_iff.mp hset
    exact ⟨v, hv, h⟩
  · rintro ⟨v, hv, h⟩
    exact ⟨_, Option.map_eq_some_iff.mpr ⟨v, hv, rfl⟩, h⟩

theorem get_mergeWith_of_notMem (hkey : key ∉ e.keys) (h : mergeWith F d e = some m) :
    m.get key = d.get key := by
  induction e generalizing d with
  | nil =>
    cases h
    rfl
  | cons p e ih =>
    obtain ⟨hne, hkey⟩ := not_or.mp (mt List.mem_cons.mpr hkey)
    obtain ⟨v, -, h⟩ := mergeWith_cons_eq_some.mp h
    rw [ih hkey h, get_set_ne hne]

/-- **The merged value of a key**, from the value it had and the entry for it. -/
theorem get_mergeWith {w : W} (he : e.Unique) (hkey : e.get key = some w)
    (h : mergeWith F d e = some m) : ∃ v, F key (d.get key) w = some v ∧ m.get key = some v := by
  induction e generalizing d with
  | nil => cases hkey
  | cons p e ih =>
    obtain ⟨hp, he⟩ := List.nodup_cons.mp he
    obtain ⟨v, hv, h⟩ := mergeWith_cons_eq_some.mp h
    by_cases heq : key = p.1
    · rw [heq, get_cons_self, Option.some.injEq] at hkey
      refine ⟨v, by rw [heq, ← hkey, hv], ?_⟩
      rw [heq, get_mergeWith_of_notMem hp h, get_set_self]
    · rw [get_cons_ne heq] at hkey
      obtain ⟨x, hx, hm⟩ := ih he hkey h
      rw [get_set_ne heq] at hx
      exact ⟨x, hx, hm⟩

theorem Unique.mergeWith (hd : d.Unique) (h : mergeWith F d e = some m) : m.Unique := by
  induction e generalizing d with
  | nil =>
    cases h
    exact hd
  | cons p e ih =>
    obtain ⟨v, -, h⟩ := mergeWith_cons_eq_some.mp h
    exact ih hd.set h

/-- Entries can be merged if each of them can be. -/
theorem mergeWith_isSome (he : e.Unique) (h : ∀ p ∈ e, (F p.1 (d.get p.1) p.2).isSome) :
    (mergeWith F d e).isSome := by
  induction e generalizing d with
  | nil => rfl
  | cons p e ih =>
    obtain ⟨hp, he⟩ := List.nodup_cons.mp he
    obtain ⟨v, hv⟩ := Option.isSome_iff_exists.mp (h p List.mem_cons_self)
    have hrest : (Dict.mergeWith F (d.set p.1 v) e).isSome := by
      refine ih he fun q hq => ?_
      have hne : q.1 ≠ p.1 := fun heq => hp (heq ▸ List.mem_map_of_mem hq)
      rw [get_set_ne hne]
      exact h q (List.mem_cons_of_mem _ hq)
    obtain ⟨m, hm⟩ := Option.isSome_iff_exists.mp hrest
    rw [mergeWith_cons_eq_some.mpr ⟨v, hv, hm⟩]
    rfl

theorem mem_of_mem_set {p : String × V} {v : V} (h : p ∈ d.set key v) : p ∈ d ∨ p = (key, v) := by
  induction d with
  | nil => exact .inr (List.mem_singleton.mp h)
  | cons q d ih =>
    rw [set] at h
    split_ifs at h
    · obtain h | h := List.mem_cons.mp h
      · exact .inr h
      · exact .inl (List.mem_cons_of_mem _ h)
    · obtain rfl | h := List.mem_cons.mp h
      · exact .inl List.mem_cons_self
      · exact (ih h).imp_left (List.mem_cons_of_mem _)

/-- Updated with entries that are there. -/
theorem update_eq_self {u : Dict V} (h : ∀ p ∈ u, d.get p.1 = some p.2) : d.update u = d := by
  induction u with
  | nil => rfl
  | cons p u ih =>
    rw [update_cons, set_eq_self (h p List.mem_cons_self)]
    exact ih fun q hq => h q (List.mem_cons_of_mem _ hq)

/-- The values of some keys changed. -/
def change (keys : List String) (G : V → V) (d : Dict V) : Dict V :=
  d.map fun p => if p.1 ∈ keys then (p.1, G p.2) else p

theorem set_eq_change {G : V → V} {v : V} (hd : d.Unique) (h : d.get key = some v) :
    d.set key (G v) = d.change [key] G := by
  induction d with
  | nil => cases h
  | cons p d ih =>
    obtain ⟨k, x⟩ := p
    obtain ⟨hp, hd'⟩ := List.nodup_cons.mp hd
    unfold change at ih ⊢
    rw [set, List.map_cons]
    by_cases hk : k = key
    · have hrest : List.map (fun p : String × V => if p.1 ∈ [key] then (p.1, G p.2) else p) d = d := by
        refine (List.map_congr_left fun q hq => ?_).trans (List.map_id d)
        have hne : q.1 ∉ [key] := by
          rw [List.mem_singleton, ← hk]
          intro heq
          exact hp (List.mem_map.mpr ⟨q, hq, heq⟩)
        rw [if_neg hne, id]
      rw [hk, get_cons_self, Option.some.injEq] at h
      rw [if_pos hk, if_pos (by simpa using hk), hrest, h, hk]
    · rw [get_cons_ne (Ne.symm hk)] at h
      rw [if_neg hk, if_neg (by simpa using hk), ih hd' h]

theorem change_change {G : V → V} {keys : List String} (hkey : key ∉ keys) :
    (d.change [key] G).change keys G = d.change (key :: keys) G := by
  unfold change
  rw [List.map_map]
  refine List.map_congr_left fun p _ => ?_
  simp only [Function.comp_apply]
  by_cases hp : p.1 = key
  · simp [hp, hkey]
  · simp [hp]

/-- **Merging the same entries again** changes each of their values as merging it again does. -/
theorem mergeWith_again {G : V → V} (he : e.Unique) (hm : m.Unique)
    (h : ∀ p ∈ e, ∃ v, m.get p.1 = some v ∧ F p.1 (some v) p.2 = some (G v)) :
    mergeWith F m e = some (m.change e.keys G) := by
  induction e generalizing m with
  | nil =>
    refine congrArg some ((List.map_congr_left fun p _ => ?_).trans (List.map_id m)).symm
    exact if_neg List.not_mem_nil
  | cons p e ih =>
    obtain ⟨hp, he⟩ := List.nodup_cons.mp he
    obtain ⟨v, hv, hF⟩ := h p List.mem_cons_self
    refine mergeWith_cons_eq_some.mpr ⟨G v, hv ▸ hF, ?_⟩
    have hkeys : change (keys (p :: e)) G m = (change [p.1] G m).change (keys e) G :=
      (change_change hp).symm
    rw [ih he hm.set, set_eq_change hm hv, hkeys]
    · intro q hq
      have hne : q.1 ≠ p.1 := fun heq => hp (heq ▸ List.mem_map_of_mem hq)
      obtain ⟨w, hw, hF⟩ := h q (List.mem_cons_of_mem _ hq)
      exact ⟨w, (get_set_ne hne).trans hw, hF⟩

theorem change_id (keys : List String) : d.change keys id = d := by
  refine (List.map_congr_left fun p _ => ?_).trans (List.map_id d)
  split_ifs <;> rfl

/-- **Merging is idempotent** if it is for each value. -/
theorem mergeWith_idem
    (hF : ∀ p ∈ e, ∀ v, F p.1 (d.get p.1) p.2 = some v → F p.1 (some v) p.2 = some v)
    (hd : d.Unique) (he : e.Unique) (h : mergeWith F d e = some m) :
    mergeWith F m e = some m := by
  have hagain : mergeWith F m e = some (m.change e.keys id) := by
    refine mergeWith_again he (hd.mergeWith h) fun p hp => ?_
    obtain ⟨v, hv, hm⟩ := get_mergeWith he (get_of_mem he hp) h
    exact ⟨v, hm, hF p hp v hv⟩
  rw [hagain, change_id]

end Llmops.Lib.Dict
