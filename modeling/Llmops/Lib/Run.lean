import Mathlib

/-!
# Guarded runs of an executable transition system

A system is a partial step function `step : σ → ε → Option σ`: the state after the event, `none`
when the event cannot happen in that state. A **guard** `G : σ → ε → Prop` is a condition on the
state before an event and the event itself; `Reach step G s₀ s` says that `s` is reached from `s₀`
by events that all met the guard. With `anyEvent` as the guard these are the plain runs.

* `Reach.invariant`: what holds at the start and is kept by every guarded step holds of every
  state a guarded run reaches;
* `Reach.of_run`, `Reach.of_guarded_run`: a list of events that `run` executes is a run, so that a
  concrete run can be evaluated instead of built step by step;
* `Reach.mono`: a stronger guard has fewer runs;
* `Reach.forall_run_iff_along`: the guard under which a property is kept, exactly.
-/

namespace Llmops.Lib

variable {σ ε : Type*}

/-- Execute a list of events; `none` as soon as one of them cannot happen. -/
def run (step : σ → ε → Option σ) : σ → List ε → Option σ
  | s, [] => some s
  | s, e :: es => (step s e).bind fun t => run step t es

theorem run_append (step : σ → ε → Option σ) (s : σ) (es fs : List ε) :
    run step s (es ++ fs) = (run step s es).bind fun t => run step t fs := by
  induction es generalizing s with
  | nil => rfl
  | cons e es ih =>
    rw [List.cons_append, run, run, Option.bind_assoc]
    exact Option.bind_congr fun t _ => ih t

/-- A run by its last event. -/
theorem run_concat {step : σ → ε → Option σ} {s t : σ} {es : List ε} {e : ε}
    (h : run step s (es ++ [e]) = some t) : ∃ u, run step s es = some u ∧ step u e = some t := by
  rw [run_append] at h
  obtain ⟨u, hu, h⟩ := Option.bind_eq_some_iff.mp h
  obtain ⟨v, hv, h⟩ := Option.bind_eq_some_iff.mp h
  exact ⟨u, hu, hv.trans h⟩

/-- A system with a record beside it runs as the system itself does. -/
theorem run_project {τ : Type*} {step : σ → ε → Option σ} {step' : τ → ε → Option τ} {p : τ → σ}
    (hp : ∀ {v e v'}, step' v e = some v' → step (p v) e = some (p v')) {es : List ε} {v v' : τ}
    (h : run step' v es = some v') : run step (p v) es = some (p v') := by
  induction es generalizing v with
  | nil =>
    rw [show v = v' from Option.some.inj h]
    rfl
  | cons e es ih =>
    obtain ⟨u, hu, h⟩ := Option.bind_eq_some_iff.mp h
    rw [run, hp hu]
    exact ih h

/-- The guard that lets every event pass. -/
def anyEvent : σ → ε → Prop := fun _ _ => True

/-- One guarded step, the event forgotten. -/
def Next (step : σ → ε → Option σ) (G : σ → ε → Prop) (s t : σ) : Prop :=
  ∃ e, G s e ∧ step s e = some t

/-- The states that runs from `s₀` reach when every event meets the guard. -/
def Reach (step : σ → ε → Option σ) (G : σ → ε → Prop) : σ → σ → Prop :=
  Relation.ReflTransGen (Next step G)

/-- Every event of the list meets the guard in the state it finds. -/
def Along (step : σ → ε → Option σ) (G : σ → ε → Prop) : σ → List ε → Prop
  | _, [] => True
  | s, e :: es => G s e ∧ ∀ t, step s e = some t → Along step G t es

/-- Guards that agree everywhere agree along every list of events. -/
theorem along_congr {step : σ → ε → Option σ} {G H : σ → ε → Prop} (h : ∀ s e, G s e ↔ H s e)
    {s : σ} {es : List ε} : Along step G s es ↔ Along step H s es := by
  have hGH : G = H := by
    funext s e
    exact propext (h s e)
  rw [hGH]

/-- A decidable guard is decided along a list of events. -/
instance decidableAlong (step : σ → ε → Option σ) (G : σ → ε → Prop)
    [∀ s e, Decidable (G s e)] : ∀ s es, Decidable (Along step G s es)
  | _, [] => isTrue trivial
  | s, e :: es =>
    match h : step s e with
    | none => decidable_of_iff (G s e)
        ⟨fun hG => ⟨hG, fun _ ht => nomatch h.symm.trans ht⟩, And.left⟩
    | some t =>
      have := decidableAlong step G t es
      decidable_of_iff (G s e ∧ Along step G t es)
        ⟨fun ⟨hG, hes⟩ => ⟨hG, fun _ ht => Option.some.inj (h.symm.trans ht) ▸ hes⟩,
          fun ⟨hG, hes⟩ => ⟨hG, hes t h⟩⟩

namespace Reach

variable {step : σ → ε → Option σ} {G H : σ → ε → Prop} {s t u : σ}

theorem refl : Reach step G s s := Relation.ReflTransGen.refl

theorem tail (h : Reach step G s t) {e : ε} (hG : G t e) (he : step t e = some u) :
    Reach step G s u :=
  Relation.ReflTransGen.tail h ⟨e, hG, he⟩

theorem trans (h : Reach step G s t) (h' : Reach step G t u) : Reach step G s u :=
  Relation.ReflTransGen.trans h h'

/-- **The invariant rule**: an invariant of every guarded step, true at the start, is true of
every state reached. -/
theorem invariant {I : σ → Prop} (hs : I s)
    (hstep : ∀ {a b e}, I a → G a e → step a e = some b → I b) (h : Reach step G s t) :
    I t := by
  induction h with
  | refl => exact hs
  | tail _ hnext ih =>
    obtain ⟨e, hG, he⟩ := hnext
    exact hstep ih hG he

theorem mono (hGH : ∀ a e, G a e → H a e) (h : Reach step G s t) : Reach step H s t := by
  refine invariant (I := Reach step H s) refl (fun ha hG he => ?_) h
  exact ha.tail (hGH _ _ hG) he

/-- A run whose events all meet the guard, evaluated. -/
theorem of_guarded_run : ∀ {es : List ε} {s : σ}, run step s es = some t → Along step G s es →
    Reach step G s t
  | [], s, h, _ => by
    rw [show s = t from Option.some.inj h]
    exact refl
  | e :: es, s, h, ⟨hG, hes⟩ => by
    obtain ⟨a, ha, h⟩ := Option.bind_eq_some_iff.mp h
    exact (refl.tail hG ha).trans (of_guarded_run h (hes a ha))

/-- Events that meet the guard in every state meet it along every run. -/
theorem along_of_forall : ∀ {es : List ε} {s : σ}, (∀ e ∈ es, ∀ a, G a e) → Along step G s es
  | [], _, _ => trivial
  | e :: _, _, h => ⟨h e List.mem_cons_self _, fun _ _ =>
      along_of_forall fun e' he' => h e' (List.mem_cons_of_mem e he')⟩

/-- A list of events that is seen to execute under the guard reaches a state as seen. -/
theorem exists_of_any {P : σ → Prop} [DecidablePred P] {es : List ε}
    (hes : Along step G s es) (h : (run step s es).any (P ·) = true) :
    ∃ t, run step s es = some t ∧ Reach step G s t ∧ P t := by
  obtain ⟨t, ht, hP⟩ := (Option.any_eq_true _ _).mp h
  exact ⟨t, ht, of_guarded_run ht hes, of_decide_eq_true hP⟩

/-- **What a run keeps, exactly when its events meet a guard**: if a step from a state that has `Q`
leads to one that has `Q` exactly when the event meets `M`, all the states of a run have `Q` exactly
when all its events meet `M`. -/
theorem forall_run_iff_along {I Q : σ → Prop} {M : σ → ε → Prop} (hI : I s) (hQ : Q s)
    (hstep : ∀ {a b e}, I a → G a e → step a e = some b → I b ∧ (Q a → (Q b ↔ M a e)))
    {es : List ε} (hG : Along step G s es) (h : run step s es = some t) :
    (∀ fs, fs <+: es → ∀ u, run step s fs = some u → Q u) ↔ Along step M s es := by
  induction es generalizing s with
  | nil =>
    refine iff_of_true (fun fs hfs u hu => ?_) trivial
    rw [List.prefix_nil.mp hfs] at hu
    exact Option.some.inj hu ▸ hQ
  | cons e es ih =>
    obtain ⟨a, ha, hrun⟩ := Option.bind_eq_some_iff.mp h
    obtain ⟨hIa, hQa⟩ := hstep hI hG.1 ha
    constructor
    · intro hall
      have hQa' : Q a := hall [e] ⟨es, rfl⟩ a (by rw [run, ha]; rfl)
      refine ⟨(hQa hQ).mp hQa', fun b hb => ?_⟩
      obtain rfl := Option.some.inj (ha.symm.trans hb)
      refine (ih hIa hQa' (hG.2 a ha) hrun).mp fun fs hfs u hu => ?_
      exact hall (e :: fs) ((List.prefix_cons_inj e).mpr hfs) u (by rw [run, ha]; exact hu)
    · intro hM fs hfs u hu
      cases fs with
      | nil => exact Option.some.inj hu ▸ hQ
      | cons f fs =>
        obtain ⟨rfl, htail⟩ := List.cons_prefix_cons.mp hfs
        rw [run, ha] at hu
        exact (ih hIa ((hQa hQ).mpr hM.1) (hG.2 a ha) hrun).mpr (hM.2 a ha) fs htail u hu

/-- A list of events that executes is an unguarded run. -/
theorem of_run {es : List ε} (h : run step s es = some t) : Reach step anyEvent s t :=
  of_guarded_run h (along_of_forall fun _ _ _ => trivial)

end Reach

end Llmops.Lib
