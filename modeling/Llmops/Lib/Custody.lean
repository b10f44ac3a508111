import Mathlib

/-!
# Custody of the rows of a table

A table has rows by key, each with a status, and some statuses are **live**: somebody has the row in
hand. `Custody` says that the holders and the table agree: what is held is live and has the status of
its row, every live row is held, and no key twice.

* `Custody.change`: a holder that takes a new row, changes the status of one that it holds or ends
  one keeps it, if the table is written with it;
* `Custody.unique`: a live row has exactly one holder.
-/

namespace Llmops.Lib

variable {ρ κ σ : Type*}

/-- The holders have in hand the live rows of the table, each once. -/
structure Custody (Live : σ → Prop) (held : ρ → Multiset (κ × σ)) (rows : κ → Option σ) : Prop where
  live : ∀ r, ∀ p ∈ held r, Live p.2
  agrees : ∀ r, ∀ p ∈ held r, rows p.1 = some p.2
  kept : ∀ k s, rows k = some s → Live s → ∃ r, (k, s) ∈ held r
  once : ∀ r, ((held r).map Prod.fst).Nodup
  apart : ∀ r r' p p', p ∈ held r → p' ∈ held r' → p.1 = p'.1 → r = r'

namespace Custody

variable {Live : σ → Prop} {held : ρ → Multiset (κ × σ)} {rows rows' : κ → Option σ} {r : ρ} {k : κ}
  {s : σ}

/-- A table without live rows, and holders with nothing in hand. -/
theorem empty (hdead : ∀ k s, rows k = some s → ¬ Live s) :
    Custody Live (fun _ : ρ => (0 : Multiset (κ × σ))) rows where
  live r p hp := absurd hp (Multiset.notMem_zero p)
  agrees r p hp := absurd hp (Multiset.notMem_zero p)
  kept k s hk hs := absurd hs (hdead k s hk)
  once r := by simp
  apart r r' p p' hp := absurd hp (Multiset.notMem_zero p)

/-- A live row has exactly one holder. -/
theorem unique (h : Custody Live held rows) (hk : rows k = some s) (hs : Live s) :
    ∃! r, (k, s) ∈ held r := by
  obtain ⟨r, hr⟩ := h.kept k s hk hs
  exact ⟨r, hr, fun r' hr' => h.apart r' r _ _ hr' hr rfl⟩

/-- A holder has no other entry under the key of one. -/
theorem ne_of_once {m : Multiset (κ × σ)} {p : κ × σ} (h : Custody Live held rows)
    (hr : held r = (k, s) ::ₘ m) (hp : p ∈ m) : p.1 ≠ k := by
  have honce := h.once r
  rw [hr, Multiset.map_cons, Multiset.nodup_cons] at honce
  intro hk
  exact honce.1 (Multiset.mem_map.mpr ⟨p, hp, hk⟩)

/-- Neither has another holder. -/
theorem ne_of_apart {m : Multiset (κ × σ)} {p : κ × σ} (h : Custody Live held rows)
    (hr : held r = (k, s) ::ₘ m) {r' : ρ} (hne : r' ≠ r) (hp : p ∈ held r') : p.1 ≠ k := by
  intro hk
  have hmem : (k, s) ∈ held r := by
    rw [hr]
    exact Multiset.mem_cons_self _ _
  exact hne (h.apart r' r p (k, s) hp hmem hk)

/-- A row that is not there is held by nobody. -/
theorem ne_of_none {p : κ × σ} (h : Custody Live held rows) (hk : rows k = none) (hp : p ∈ held r) :
    p.1 ≠ k := by
  rintro rfl
  rw [h.agrees r p hp] at hk
  cases hk

section Change

variable [DecidableEq κ] [DecidableEq ρ] {m m' : Multiset (κ × σ)} {p : κ × σ} {t : σ}

omit [DecidableEq κ] in
/-- Who holds what, after the change of one holder. -/
theorem mem_update {r' : ρ} (hp : p ∈ Function.update held r m r') :
    (r' = r ∧ p ∈ m) ∨ (r' ≠ r ∧ p ∈ held r') := by
  by_cases hr : r' = r
  · subst hr
    rw [Function.update_self] at hp
    exact .inl ⟨rfl, hp⟩
  · rw [Function.update_of_ne hr] at hp
    exact .inr ⟨hr, hp⟩

/-- An entry that is given up, and the row with it. -/
theorem release (h : Custody Live held rows) (hr : held r = (k, s) ::ₘ m) :
    Custody Live (Function.update held r m) (Function.update rows k none) := by
  have hsub {r' : ρ} {p : κ × σ} (hp : p ∈ Function.update held r m r') :
      p ∈ held r' ∧ p.1 ≠ k := by
    obtain ⟨rfl, hm⟩ | ⟨hne, hp⟩ := mem_update hp
    · exact ⟨hr ▸ Multiset.mem_cons_of_mem hm, h.ne_of_once hr hm⟩
    · exact ⟨hp, h.ne_of_apart hr hne hp⟩
  refine ⟨fun r' p hp => h.live r' p (hsub hp).1, fun r' p hp => ?_, fun k' s' hk hs => ?_,
    fun r' => ?_, fun r₁ r₂ p q hp hq => h.apart r₁ r₂ p q (hsub hp).1 (hsub hq).1⟩
  · rw [Function.update_of_ne (hsub hp).2, h.agrees r' p (hsub hp).1]
  · by_cases hne : k' = k
    · rw [hne, Function.update_self] at hk
      cases hk
    · rw [Function.update_of_ne hne] at hk
      obtain ⟨r', hmem⟩ := h.kept k' s' hk hs
      refine ⟨r', ?_⟩
      by_cases hr' : r' = r
      · subst hr'
        rw [Function.update_self]
        rw [hr] at hmem
        exact (Multiset.mem_cons.mp hmem).resolve_left fun heq => hne (congrArg Prod.fst heq)
      · rw [Function.update_of_ne hr']
        exact hmem
  · by_cases hr' : r' = r
    · subst hr'
      rw [Function.update_self]
      have honce := h.once r'
      rw [hr, Multiset.map_cons] at honce
      exact (Multiset.nodup_cons.mp honce).2
    · rw [Function.update_of_ne hr']
      exact h.once r'

omit [DecidableEq ρ] in
/-- A row that ends while nobody holds it. -/
theorem close (h : Custody Live held rows) (hk : rows k = none) (ht : ¬ Live t) :
    Custody Live held (Function.update rows k (some t)) := by
  refine ⟨h.live, fun r p hp => ?_, fun k' s' hk' hs => ?_, h.once, h.apart⟩
  · rw [Function.update_of_ne (h.ne_of_none hk hp), h.agrees r p hp]
  · by_cases hne : k' = k
    · rw [hne, Function.update_self] at hk'
      cases hk'
      exact absurd hs ht
    · rw [Function.update_of_ne hne] at hk'
      exact h.kept k' s' hk' hs

/-- A new row, in the hands of one holder. -/
theorem take (h : Custody Live held rows) (hk : rows k = none) (ht : Live t) (hr : held r = m) :
    Custody Live (Function.update held r ((k, t) ::ₘ m)) (Function.update rows k (some t)) := by
  have hcases {r' : ρ} {p : κ × σ} (hp : p ∈ Function.update held r ((k, t) ::ₘ m) r') :
      (r' = r ∧ p = (k, t)) ∨ p ∈ held r' := by
    obtain ⟨rfl, hm⟩ | ⟨-, hp⟩ := mem_update hp
    · exact (Multiset.mem_cons.mp hm).imp (fun heq => ⟨rfl, heq⟩) fun hm => hr ▸ hm
    · exact .inr hp
  refine ⟨fun r' p hp => ?_, fun r' p hp => ?_, fun k' s' hk' hs => ?_, fun r' => ?_,
    fun r₁ r₂ p q hp hq hpq => ?_⟩
  · obtain ⟨-, rfl⟩ | hp := hcases hp
    · exact ht
    · exact h.live r' p hp
  · obtain ⟨-, rfl⟩ | hp := hcases hp
    · exact Function.update_self ..
    · rw [Function.update_of_ne (h.ne_of_none hk hp), h.agrees r' p hp]
  · by_cases hne : k' = k
    · rw [hne, Function.update_self] at hk'
      cases hk'
      refine ⟨r, ?_⟩
      rw [Function.update_self, hne]
      exact Multiset.mem_cons_self _ _
    · rw [Function.update_of_ne hne] at hk'
      obtain ⟨r', hmem⟩ := h.kept k' s' hk' hs
      refine ⟨r', ?_⟩
      by_cases hr' : r' = r
      · subst hr'
        rw [Function.update_self]
        exact Multiset.mem_cons_of_mem (hr ▸ hmem)
      · rw [Function.update_of_ne hr']
        exact hmem
  · by_cases hr' : r' = r
    · subst hr'
      rw [Function.update_self, Multiset.map_cons, Multiset.nodup_cons]
      refine ⟨fun hmem => ?_, hr ▸ h.once r'⟩
      obtain ⟨p, hp, heq⟩ := Multiset.mem_map.mp hmem
      exact h.ne_of_none hk (hr ▸ hp) heq
    · rw [Function.update_of_ne hr']
      exact h.once r'
  · obtain ⟨rfl, rfl⟩ | hp := hcases hp
    · obtain ⟨rfl, -⟩ | hq := hcases hq
      · rfl
      · exact absurd hpq.symm (h.ne_of_none hk hq)
    · obtain ⟨-, rfl⟩ | hq := hcases hq
      · exact absurd hpq (h.ne_of_none hk hp)
      · exact h.apart r₁ r₂ p q hp hq hpq

/-- What one holder has in hand, and the table with it. -/
inductive Change (Live : σ → Prop) : Multiset (κ × σ) → (κ → Option σ) → Multiset (κ × σ) →
    (κ → Option σ) → Prop
  | keep (m : Multiset (κ × σ)) (rows : κ → Option σ) : Change Live m rows m rows
  | enter (m : Multiset (κ × σ)) (rows : κ → Option σ) (k : κ) (s : σ) (hnew : rows k = none)
      (hs : Live s) : Change Live m rows ((k, s) ::ₘ m) (Function.update rows k (some s))
  | turn (m : Multiset (κ × σ)) (rows : κ → Option σ) (k : κ) (s t : σ) (ht : Live t) :
      Change Live ((k, s) ::ₘ m) rows ((k, t) ::ₘ m) (Function.update rows k (some t))
  | leave (m : Multiset (κ × σ)) (rows : κ → Option σ) (k : κ) (s t : σ) (ht : ¬ Live t) :
      Change Live ((k, s) ::ₘ m) rows m (Function.update rows k (some t))

/-- **A change of one holder**, written to the table. -/
theorem change (h : Custody Live held rows) (hc : Change Live (held r) rows m' rows') :
    Custody Live (Function.update held r m') rows' := by
  generalize hm : held r = m at hc
  cases hc with
  | keep _ _ =>
    rw [← hm, Function.update_eq_self]
    exact h
  | enter _ _ k s hnew hs => exact h.take hnew hs hm
  | turn m _ k s t ht =>
    have htake := (h.release hm).take (Function.update_self ..) ht (Function.update_self ..)
    rwa [Function.update_idem, Function.update_idem] at htake
  | leave _ _ k s t ht =>
    have hclose := (h.release hm).close (Function.update_self ..) ht
    rwa [Function.update_idem] at hclose

end Change

end Custody

end Llmops.Lib
