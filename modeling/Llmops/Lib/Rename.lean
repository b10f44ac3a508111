import Llmops.Lib.Json

/-!
# Dictionaries up to the order of their keys

What is looked up does not depend on the order, and a key that gets another name takes its value to
the end: `d[new] = d.pop(old)`.

* `get_of_perm`: equal entries in any order, equal lookups;
* `nodup_filterMap_iff`: what is made of the entries has names that differ exactly if no two entries
  make the same;
* `renameAll_perm`: renaming keys one after the other renames them all at once.
-/

namespace Llmops.Lib.Dict

variable {V : Type*} {d e : Dict V} {a b k : String} {v : V}

theorem get_of_perm (hd : d.Unique) (h : d.Perm e) : d.get k = e.get k := by
  cases hk : e.get k with
  | some v => exact get_of_mem hd (h.mem_iff.mpr (mem_of_get hk))
  | none =>
    rw [get_eq_none_iff] at hk ⊢
    exact mt (h.map Prod.fst).mem_iff.mp hk

theorem pop_eq_self (h : k ∉ d.keys) : d.pop k = d := by
  refine List.filter_eq_self.mpr fun p hp => decide_eq_true fun hk => h ?_
  exact hk ▸ List.mem_map_of_mem hp

theorem pop_append : (d ++ e).pop k = d.pop k ++ e.pop k := List.filter_append _ _

/-- An entry that was taken out is put in front. -/
theorem cons_pop_perm (hd : d.Unique) (h : d.get k = some v) : ((k, v) :: d.pop k).Perm d := by
  induction d with
  | nil => cases h
  | cons p d ih =>
    obtain ⟨hp, hd⟩ := List.nodup_cons.mp hd
    by_cases hk : k = p.1
    · rw [get_cons, if_pos hk, Option.some.injEq] at h
      have hpop : pop (p :: d) k = d := by
        have hrest := @pop_eq_self _ d k (hk ▸ hp)
        unfold pop at hrest ⊢
        rw [List.filter_cons_of_neg (by simp [hk]), hrest]
      rw [hpop, hk, ← h]
    · rw [get_cons_ne hk] at h
      have hpop : pop (p :: d) k = p :: pop d k :=
        List.filter_cons_of_pos (by simpa using fun heq => hk heq.symm)
      rw [hpop]
      exact (List.Perm.swap _ _ _).trans ((ih hd h).cons p)

theorem set_eq_append (h : k ∉ d.keys) : d.set k v = d ++ [(k, v)] :=
  @update_eq_append _ d [(k, v)] (List.nodup_singleton _) fun k' hk' => by
    rw [List.mem_singleton.mp hk']
    exact h

/-- What is made of the entries, if one is taken out and comes last, by default with a value. -/
theorem filterMap_pop_perm {β : Type*} (g : String × V → Option β) (hd : d.Unique) :
    ((d.pop k).filterMap g ++ (g (k, (d.get k).getD v)).toList).Perm
      (d.filterMap g ++ if k ∈ d.keys then [] else (g (k, v)).toList) := by
  cases hk : d.get k with
  | none =>
    have hnone := get_eq_none_iff.mp hk
    rw [pop_eq_self hnone, if_neg hnone, Option.getD_none]
  | some x =>
    have hmem : k ∈ d.keys := by
      by_contra hnone
      rw [get_eq_none_iff.mpr hnone] at hk
      cases hk
    have hperm := (cons_pop_perm hd hk).filterMap g
    rw [if_pos hmem, List.append_nil, Option.getD_some]
    refine List.Perm.trans ?_ hperm
    cases hg : g (k, x) with
    | none =>
      rw [List.filterMap_cons_none hg]
      simp
    | some b =>
      rw [List.filterMap_cons_some hg]
      exact List.perm_append_comm

/-! ## What is made of the entries -/

section Made

variable {β γ : Type*} {g : String × V → Option β}

theorem Unique.eq_of_fst (hd : d.Unique) {p q : String × V} (hp : p ∈ d) (hq : q ∈ d)
    (h : p.1 = q.1) : p = q := List.inj_on_of_nodup_map hd hp hq h

/-- Every name is made once exactly if no two entries make it. -/
theorem nodup_filterMap_iff (hd : d.Unique) (name : β → γ) :
    ((d.filterMap g).map name).Nodup ↔ ∀ p ∈ d, ∀ q ∈ d, p.1 ≠ q.1 →
      ∀ b, g p = some b → ∀ b', g q = some b' → name b ≠ name b' := by
  unfold List.Nodup
  rw [List.pairwise_map, List.pairwise_filterMap]
  constructor
  · intro h p hp q hq hne b hb b' hb'
    have hsymm : Std.Symm fun p q : String × V =>
        ∀ b, g p = some b → ∀ b', g q = some b' → name b ≠ name b' :=
      ⟨fun p q hpq b hb b' hb' => Ne.symm (hpq b' hb' b hb)⟩
    exact h.forall hp hq (fun heq => hne (congrArg Prod.fst heq)) b hb b' hb'
  · intro h
    refine (List.Nodup.of_map _ hd).pairwise_of_forall_ne fun p hp q hq hne => ?_
    exact h p hp q hq fun hfst => hne (hd.eq_of_fst hp hq hfst)

/-- One entry alone makes what is looked for. -/
theorem filter_filterMap_eq_singleton (hd : d.Unique) {p : String × V} (hp : p ∈ d) {b : β}
    (hb : g p = some b) {P : β → Bool} (hP : P b = true)
    (honly : ∀ q ∈ d, ∀ b', g q = some b' → P b' = true → q.1 = p.1) :
    (d.filterMap g).filter P = [b] := by
  induction d with
  | nil => cases hp
  | cons q d ih =>
    obtain ⟨hq, hd⟩ := List.nodup_cons.mp hd
    rcases List.mem_cons.mp hp with rfl | hp
    · have hrest : (List.filterMap g d).filter P = [] := by
        refine List.filter_eq_nil_iff.mpr fun b' hb' hP' => ?_
        obtain ⟨q, hqd, hgq⟩ := List.mem_filterMap.mp hb'
        have hfst := honly q (List.mem_cons_of_mem _ hqd) b' hgq hP'
        exact hq (hfst ▸ List.mem_map_of_mem hqd)
      rw [List.filterMap_cons_some hb, List.filter_cons_of_pos hP, hrest]
    · have hne : q.1 ≠ p.1 := fun heq => hq (heq ▸ List.mem_map_of_mem hp)
      have ih := ih hd hp fun q hqd => honly q (List.mem_cons_of_mem _ hqd)
      cases hgq : g q with
      | none => rw [List.filterMap_cons_none hgq, ih]
      | some b' =>
        have hP' : ¬ P b' = true := fun hP' => hne (honly q List.mem_cons_self b' hgq hP')
        rw [List.filterMap_cons_some hgq, List.filter_cons_of_neg hP', ih]

end Made

/-! ## Renaming -/

/-- `if a in d: d[b] = d.pop(a)`. -/
def rename (d : Dict V) (a b : String) : Dict V :=
  match d.get a with
  | some v => (d.pop a).set b v
  | none => d

theorem rename_perm (hd : d.Unique) (hb : b ∉ d.keys) :
    (d.rename a b).Perm (d.map fun p => (if p.1 = a then b else p.1, p.2)) := by
  have hsame {e : Dict V} (h : a ∉ e.keys) :
      (e.map fun p => (if p.1 = a then b else p.1, p.2)) = e := by
    refine (List.map_congr_left fun p hp => ?_).trans (List.map_id e)
    have hne : p.1 ≠ a := by
      rintro rfl
      exact h (List.mem_map_of_mem hp)
    rw [if_neg hne]
    rfl
  unfold rename
  cases ha : d.get a with
  | none =>
    rw [hsame (get_eq_none_iff.mp ha)]
  | some v =>
    have hpop : a ∉ (d.pop a).keys := fun h => (mem_keys_pop.mp h).2 rfl
    have hnew : b ∉ (d.pop a).keys := fun h => hb (mem_keys_pop.mp h).1
    have hmap := (cons_pop_perm hd ha).map fun p => (if p.1 = a then b else p.1, p.2)
    rw [List.map_cons, if_pos rfl, hsame hpop] at hmap
    simp only
    rw [set_eq_append hnew]
    exact (@List.perm_append_comm _ (d.pop a) [(b, v)]).trans hmap

theorem Unique.rename (hd : d.Unique) : (d.rename a b).Unique := by
  unfold Dict.rename
  cases d.get a with
  | none => exact hd
  | some v => exact hd.pop.set

theorem Unique.renameAll (names : Dict String) (hd : d.Unique) :
    Unique (names.foldl (fun d p => d.rename p.1 p.2) d) := by
  induction names generalizing d with
  | nil => exact hd
  | cons n names ih => exact ih hd.rename

/-- **Renaming keys one after the other** renames them all at once, if the new names are new. -/
theorem renameAll_perm {names : Dict String} (hd : d.Unique) (hvalues : (names.map Prod.snd).Nodup)
    (hkeys : ∀ b ∈ names.map Prod.snd, b ∉ names.keys)
    (hnew : ∀ b ∈ names.map Prod.snd, b ∉ d.keys) :
    (names.foldl (fun d p => d.rename p.1 p.2) d).Perm
      (d.map fun p => ((names.get p.1).getD p.1, p.2)) := by
  induction names generalizing d with
  | nil =>
    simp
  | cons n names ih =>
    obtain ⟨hn, hvalues⟩ := List.nodup_cons.mp hvalues
    have hfirst := @rename_perm _ d n.1 n.2 hd (hnew _ List.mem_cons_self)
    have hmem {k : String} (hk : k ∈ (d.rename n.1 n.2).keys) : k = n.2 ∨ k ∈ d.keys := by
      obtain ⟨q, hq, rfl⟩ := List.mem_map.mp hk
      obtain ⟨p, hp, rfl⟩ := List.mem_map.mp (hfirst.mem_iff.mp hq)
      by_cases hpn : p.1 = n.1
      · exact Or.inl (if_pos hpn)
      · rw [if_neg hpn]
        exact Or.inr (List.mem_map_of_mem hp)
    rw [List.foldl_cons]
    refine (ih hd.rename hvalues ?_ ?_).trans ?_
    · intro b hb hk
      exact hkeys b (List.mem_cons_of_mem _ hb) (List.mem_cons_of_mem _ hk)
    · intro b hb hk
      rcases hmem hk with rfl | hk
      · exact hn hb
      · exact hnew b (List.mem_cons_of_mem _ hb) hk
    · refine (hfirst.map _).trans ?_
      rw [List.map_map]
      refine List.Perm.of_eq (List.map_congr_left fun p _ => ?_)
      have hfresh : get names n.2 = none :=
        get_eq_none_iff.mpr fun h => hkeys n.2 List.mem_cons_self (List.mem_cons_of_mem _ h)
      obtain ⟨old, new⟩ := n
      by_cases hpn : p.1 = old
      · simp only [Function.comp_apply, hpn, if_true, get_cons, Option.getD_some]
        rw [hfresh]
        rfl
      · simp only [Function.comp_apply, hpn, if_false, get_cons]

end Llmops.Lib.Dict
