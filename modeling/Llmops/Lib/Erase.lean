import Llmops.Lib.Run

/-!
# What one party sees of a run

A party sees some of the events of a system, and a part of its state. `erase` throws the rest of the
state away. The system is **private** to the party (`Private`) when an event that the party does not
see changes nothing that it keeps, and an event that it sees does the same with the rest erased.
Then a run, erased, is the run of the seen events alone (`Private.run`): whatever else happened, it
is as if nothing had. Two runs in which the party sees the same events end alike for it
(`Private.run_eq`), which is noninterference.

The guard `G` and the invariant `I` are those of the full run.
-/

namespace Llmops.Lib

variable {σ τ ε : Type*}

/-- The part that `erase` keeps moves with the seen events only, and as they say. -/
structure Private (step : σ → ε → Option σ) (step' : τ → ε → Option τ) (G : σ → ε → Prop)
    (I : σ → Prop) (sees : ε → Bool) (erase : σ → τ) : Prop where
  inv : ∀ {s e t}, I s → G s e → step s e = some t → I t
  seen : ∀ {s e t}, I s → G s e → sees e = true → step s e = some t →
    step' (erase s) e = some (erase t)
  unseen : ∀ {s e t}, I s → G s e → sees e = false → step s e = some t → erase t = erase s

namespace Private

variable {step : σ → ε → Option σ} {step' : τ → ε → Option τ} {G : σ → ε → Prop} {I : σ → Prop}
  {sees : ε → Bool} {erase : σ → τ}

/-- A run, erased, is the run of the events that are seen. -/
theorem run (h : Private step step' G I sees erase) {es : List ε} {s t : σ} (hs : I s)
    (hG : Along step G s es) (hrun : Lib.run step s es = some t) :
    Lib.run step' (erase s) (es.filter sees) = some (erase t) := by
  induction es generalizing s with
  | nil =>
    rw [show s = t from Option.some.inj hrun]
    rfl
  | cons e es ih =>
    obtain ⟨u, hu, hrun⟩ := Option.bind_eq_some_iff.mp hrun
    have hrest := ih (h.inv hs hG.1 hu) (hG.2 u hu) hrun
    by_cases he : sees e = true
    · rw [List.filter_cons_of_pos he, Lib.run, h.seen hs hG.1 he hu]
      exact hrest
    · rw [List.filter_cons_of_neg he, ← h.unseen hs hG.1 (Bool.eq_false_iff.mpr he) hu]
      exact hrest

/-- **Noninterference**: two runs that differ in unseen events only end alike. -/
theorem run_eq (h : Private step step' G I sees erase) {es es' : List ε} {s s' t t' : σ} (hs : I s)
    (hs' : I s') (hG : Along step G s es) (hG' : Along step G s' es')
    (hrun : Lib.run step s es = some t) (hrun' : Lib.run step s' es' = some t')
    (hstart : erase s = erase s') (hsame : es.filter sees = es'.filter sees) :
    erase t = erase t' := by
  have ht := h.run hs hG hrun
  have ht' := h.run hs' hG' hrun'
  rw [hstart, hsame, ht'] at ht
  exact (Option.some.inj ht).symm

end Private

end Llmops.Lib
