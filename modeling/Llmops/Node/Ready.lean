import Llmops.Node.Ownership
import Llmops.Node.Resume

/-!
# READY against the processes and the probes

`reconcile_once` is to derive READY from two signals, the process and the probe
(`reconciler.py:1-15`), so that it cannot lie. `_reconcile_instance` (`:78-156`) leaves a READY
instance whose probe fails to the check of its process, and `_check_process_exit` only looks at a
managed instance with a process object; `adopt_running` (`:361-379`) makes instances READY that are
not managed.

A `Watch` keeps beside the world which passes found no live process of ours when they took the lock,
which of them found READY on an instance that the check leaves alone, and whether the last step ended
the locked part of a pass without a live process and without a probe that returned 200.

* `Resumed.lockStep`: who holds the lock, and what the others can do meanwhile;
* `readyHonest_of_reach`: while every pass whose probe fails had found READY only on an instance that
  it can check, READY is honest after every pass;
* `adopted_stays`: an adopted instance whose backend is gone stays READY.
-/

namespace Llmops.Node

open Llmops.Lib

variable {N : Type*}

/-! ## The lock -/

/-- A coroutine suspended inside a section that it keeps locked. -/
def Pc.Holds (pc : Pc N) : Prop := pc.mark = .probe ∨ pc.mark = .held

/-- The lock is held by the coroutine that is inside its section. -/
def LockHeld (w : World N) : Prop := ∀ i, (w.pc i).Holds → w.lock = some i

/-- What a step of a coroutine that does not hold the lock leaves of it. Only a pass keeps it for a
probe. -/
inductive LockStep (w : World N) (i : Nat) (pc : Pc N) (w' : World N) : Prop
  | keep (hlock : w'.lock = w.lock) (hpc : ¬ (w'.pc i).Holds)
      (hstate : w.lock ≠ none → w'.inst.state = w.inst.state)
  | take (hfree : w.lock = none) (hlock : w'.lock = some i)
      (hprobe : w'.pc i = .passProbe → pc = .passLock)

section Lock

variable {cfg : Settings} {me : N} {w w' : World N} {i : Nat} {inp : Input} {pc : Pc N}

theorem not_holds {m : Mark} (h : pc.mark = m) (hprobe : m ≠ .probe) (hheld : m ≠ .held) :
    ¬ pc.Holds := by
  unfold Pc.Holds
  rw [h]
  exact not_or.mpr ⟨hprobe, hheld⟩

theorem plain_not_holds {target : Pc N} (h : target.mark = .plain) : ¬ target.Holds :=
  not_holds h (by decide) (by decide)

theorem passRecord_not_holds (target : ModelState) : ¬ (Pc.passRecord target : Pc N).Holds := by
  by_cases ht : target = .ready
  · exact not_holds (if_pos ht) (by decide) (by decide)
  · exact plain_not_holds (if_neg ht)

/-- A section that gives the lock back. -/
theorem LockStep.free (hfree : w.lock = none) (hlock : w'.lock = none) (hpc : ¬ (w'.pc i).Holds) :
    LockStep w i pc w' :=
  .keep (hlock.trans hfree.symm) hpc fun hheld => absurd hfree hheld

/-- **A step without the lock**, of a coroutine that does not hold it. -/
theorem Resumed.lockStep (h : Resumed cfg w i inp pc w') (hpc : ¬ pc.Holds) :
    LockStep w i pc w' := by
  cases h with
  | move _ hto hinst hlock _ =>
    refine .keep hlock ?_ fun _ => by rw [hinst]
    obtain hto | hto := hto
    · exact plain_not_holds hto
    · exact not_holds hto (by decide) (by decide)
  | change _ hto hfree _ hlock _ => exact .free hfree hlock (plain_not_holds hto)
  | admitted _ _ _ hto hfree _ hlock _ =>
    exact .free hfree hlock (not_holds hto (by decide) (by decide))
  | unspawned _ hto hfree _ hlock _ => exact .free hfree hlock (plain_not_holds hto)
  | woken _ hto hfree _ hlock _ => exact .free hfree hlock (not_holds hto (by decide) (by decide))
  | exit _ _ hto hfree _ hlock _ => exact .free hfree hlock (plain_not_holds hto)
  | holdProbe hfrom _ hfree _ hlock _ => exact .take hfree hlock fun _ => hfrom
  | holdStop _ hto hfree _ hlock _ =>
    refine .take hfree hlock fun hprobe => ?_
    rw [hprobe] at hto
    cases hto
  | probe hfrom _ =>
    rw [hfrom] at hpc
    exact absurd (.inl rfl) hpc
  | release hfrom _ _ _ _ => exact absurd (.inr hfrom) hpc
  | announce target _ hto hworld =>
    rw [hworld]
    refine .keep rfl (plain_not_holds (mark_goto hto)) fun _ => ?_
    obtain ⟨f, hinst⟩ := recordStep_inst cfg w .ready
    show (recordStep cfg w .ready).inst.state = _
    rw [hinst]

theorem LockStep.held (h : LockStep w i pc w') (hheld : LockHeld w)
    (hothers : ∀ j, j ≠ i → w'.pc j = w.pc j) : LockHeld w' := by
  intro j hj
  by_cases hji : j = i
  · subst hji
    cases h with
    | keep _ hpc _ => exact absurd hj hpc
    | take _ hlock _ => exact hlock
  · rw [hothers j hji] at hj
    have hlock := hheld j hj
    cases h with
    | keep hkeep _ _ => rw [hkeep, hlock]
    | take hfree _ _ =>
      rw [hfree] at hlock
      cases hlock

/-- While a section is kept locked, nobody else changes the state. -/
theorem LockStep.state (h : LockStep w i pc w') (hheld : LockHeld w) {j : Nat}
    (hj : (w.pc j).Holds) :
    w'.inst.state = w.inst.state := by
  have hlock := hheld j hj
  cases h with
  | keep _ _ hstate => exact hstate (by rw [hlock]; exact Option.some_ne_none j)
  | take hfree _ _ =>
    rw [hfree] at hlock
    cases hlock

/-- The holder lets the lock go. -/
theorem Resumed.released (h : Resumed cfg w i inp pc w') (hpc : pc.Holds) :
    w'.lock = none ∧ ¬ (w'.pc i).Holds := by
  have hnot {m : Mark} (hfrom : pc.mark = m) (hprobe : m ≠ .probe) (hheld : m ≠ .held) :
      w'.lock = none ∧ ¬ (w'.pc i).Holds := absurd hpc (not_holds hfrom hprobe hheld)
  cases h with
  | probe _ hworld =>
    rw [hworld]
    refine ⟨?_, ?_⟩
    · unfold probeStep
      obtain ⟨inst, tr, kill⟩ := reconcileProbe cfg w.inst inp.ok inp.size w.clock
      cases kill <;> rfl
    · obtain hp | ⟨target, hp⟩ := (probeStep_eq cfg w i inp).2.2 <;> rw [hp]
      · exact plain_not_holds rfl
      · exact passRecord_not_holds target
  | release _ hto _ hlock _ => exact ⟨hlock, plain_not_holds hto⟩
  | move hfrom _ _ _ _ =>
    obtain hfrom | hfrom := hfrom
    · exact hnot hfrom (by decide) (by decide)
    · exact hnot hfrom (by decide) (by decide)
  | change hfrom _ _ _ _ _ => exact hnot hfrom (by decide) (by decide)
  | admitted _ _ hfrom _ _ _ _ _ => exact hnot hfrom (by decide) (by decide)
  | unspawned hfrom _ _ _ _ _ => exact hnot hfrom (by decide) (by decide)
  | woken hfrom _ _ _ _ _ => exact hnot hfrom (by decide) (by decide)
  | exit _ hfrom _ _ _ _ _ | holdProbe hfrom _ _ _ _ _ =>
    rw [hfrom] at hpc
    exact absurd hpc (plain_not_holds rfl)
  | holdStop hfrom _ _ _ _ _ => exact hnot hfrom (by decide) (by decide)
  | announce _ hfrom _ _ => exact hnot hfrom (by decide) (by decide)

theorem lockHeld_released (hheld : LockHeld w) (hpc : (w.pc i).Holds)
    (hothers : ∀ j, j ≠ i → w'.pc j = w.pc j) (hi : ¬ (w'.pc i).Holds) : LockHeld w' := by
  intro j hj
  by_cases hji : j = i
  · subst hji
    exact absurd hj hi
  · rw [hothers j hji] at hj
    have hsame := (hheld j hj).symm.trans (hheld i hpc)
    exact absurd (Option.some.inj hsame) hji

end Lock

/-! ## Passes without a process -/

/-- The section of `adopt_running` for an instance whose backend answers at boot. -/
def adoptSection (inst : ModelInstance) : ModelInstance :=
  { inst with managed := false, desired := .running, state := .ready }

/-- The backend owns a live process for the instance. -/
def World.runs (w : World N) : Bool := w.inst.managed && w.inst.proc.any w.alive

/-- A READY instance that `_check_process_exit` does not look at. -/
def Unchecked (inst : ModelInstance) : Prop :=
  inst.state = .ready ∧ ¬ (inst.managed = true ∧ inst.proc ≠ none)

instance (inst : ModelInstance) : Decidable (Unchecked inst) := inferInstanceAs (Decidable (_ ∧ _))

/-- A node, the passes that found no live process of ours, those that found an unchecked instance, and
whether the last step `ended` the locked part of one of the former without a probe that returned
200. -/
structure Watch (N : Type*) where
  world : World N
  unowned : Nat → Bool := fun _ => false
  unchecked : Nat → Bool := fun _ => false
  ended : Bool := false

namespace Watch

def init (w : World N) : Watch N := { world := w }

/-- The pass finds the instance in the registry, and no live process of ours. -/
def finds (v : Watch N) : Bool := v.world.registered && !v.world.runs

/-- The coroutine that was suspended at an await has moved. -/
def noteRun (v : Watch N) (i : Nat) (ok : Bool) (w' : World N) : Pc N → Watch N
  | .passLock =>
    { world := w'
      unowned := Function.update v.unowned i v.finds
      unchecked := Function.update v.unchecked i (decide (Unchecked v.world.inst))
      ended := v.finds && decide (w'.lock ≠ some i) }
  | .passProbe => { v with world := w', ended := v.unowned i && !ok }
  | _ => { v with world := w', ended := false }

def note (v : Watch N) (e : Event N) (w' : World N) : Watch N :=
  match e with
  | .run i inp => v.noteRun i inp.ok w' (v.world.pc i)
  | _ => { v with world := w', ended := false }

end Watch

def watchStep [DecidableEq N] (cfg : Settings) (me : N) (v : Watch N) (e : Event N) :
    Option (Watch N) :=
  (step cfg me v.world e).map (v.note e)

/-- **READY is honest**: after a pass that found no live process, and no answer of the probe. -/
def ReadyHonest (v : Watch N) : Prop := v.ended = true → v.world.inst.state ≠ .ready

/-- A probe fails only in a pass that did not find an unchecked instance. -/
def Checkable (v : Watch N) : Event N → Prop
  | .run i inp => v.world.pc i = .passProbe → inp.ok = false → v.unchecked i = false
  | _ => True

structure WatchInv (v : Watch N) : Prop where
  held : LockHeld v.world
  probing : ∀ i, v.world.pc i = .passProbe → v.unowned i = true → v.unchecked i = false →
    v.world.inst.state ≠ .ready
  honest : ReadyHonest v

section Watching

variable {cfg : Settings} {me : N} {w w' : World N} {v v' : Watch N} {i : Nat} {inp : Input}
  {e : Event N}

/-- A pass that finds no live process of a READY instance that it can check fails it. -/
theorem passStep_honest (hreg : w.registered = true) (hruns : w.runs = false)
    (hcheck : ¬ Unchecked w.inst) : (passStep cfg w i).inst.state ≠ .ready := by
  unfold passStep
  rw [if_neg (by simp [hreg])]
  cases hexit : reconcileExit cfg w.alive w.clock w.inst with
  | some r =>
    obtain ⟨inst, tr⟩ := r
    obtain ⟨p, -, -, -, ⟨-, rfl, -⟩ | ⟨-, -, t, rfl⟩⟩ := reconcileExit_eq_some hexit
    · rintro ⟨⟩
    · rintro ⟨⟩
  | none =>
    have hstate : w.inst.state ≠ .ready := by
      intro hs
      obtain ⟨hm, hp⟩ := by_contra fun hnot => hcheck ⟨hs, hnot⟩
      obtain ⟨p, hp⟩ := Option.ne_none_iff_exists'.mp hp
      have hdead : w.alive p = false := by simpa [World.runs, hm, hp] using hruns
      simp [reconcileExit, checkProcessExit, hm, hp, hdead, hs] at hexit
    dsimp only
    split_ifs <;> exact hstate

theorem reconcileExit_of_unchecked (h : Unchecked w.inst) :
    reconcileExit cfg w.alive w.clock w.inst = none := by
  unfold reconcileExit checkProcessExit
  cases hm : w.inst.managed with
  | false => rfl
  | true =>
    have hp : w.inst.proc = none := by simpa [hm] using h.2
    rw [hp]
    rfl

/-- A pass probes an unchecked instance. -/
theorem passStep_lock_of_unchecked (hreg : w.registered = true) (h : Unchecked w.inst) :
    (passStep cfg w i).lock = some i := by
  unfold passStep
  rw [if_neg (by simp [hreg]), reconcileExit_of_unchecked h]
  dsimp only
  rw [if_pos (.inr h.1)]
  rfl

/-- And it stays READY, whatever its backend does. -/
theorem unchecked_stays (h : Unchecked w.inst) :
    (probeStep cfg (passStep cfg w i) i inp).inst.state = .ready := by
  have hpass : (passStep cfg w i).inst = w.inst := by
    unfold passStep
    rw [reconcileExit_of_unchecked h]
    dsimp only
    split_ifs <;> rfl
  rw [(probeStep_eq cfg (passStep cfg w i) i inp).1, hpass]
  simp [reconcileProbe, h.1]

/-- A probe that does not return 200 makes nothing READY. -/
theorem probeStep_honest (hok : inp.ok = false) (hs : w.inst.state ≠ .ready) :
    (probeStep cfg w i inp).inst.state ≠ .ready := by
  rw [(probeStep_eq cfg w i inp).1]
  obtain ⟨n, t, h⟩ | ⟨-, hready, -⟩ | ⟨-, -, -, n, t, r, h⟩ :=
    reconcileProbe_cases cfg w.inst inp.ok inp.size w.clock
  · rw [h]
    exact hs
  · rw [hok] at hready
    cases hready
  · rw [h]
    rintro ⟨⟩

theorem WatchInv.quiet {u : World N} (hv : WatchInv v) (hlock : u.lock = v.world.lock)
    (hstate : u.inst.state = v.world.inst.state)
    (hpc : ∀ j, (u.pc j).Holds → u.pc j = v.world.pc j) :
    WatchInv { v with world := u, ended := false } where
  held j hj := by
    show u.lock = some j
    rw [hlock]
    refine hv.held j ?_
    rw [← hpc j hj]
    exact hj
  probing j hj hun hchecked := by
    have hholds : (u.pc j).Holds := by
      rw [show u.pc j = .passProbe from hj]
      exact .inl rfl
    show u.inst.state ≠ .ready
    rw [hstate]
    exact hv.probing j ((hpc j hholds).symm.trans hj) hun hchecked
  honest h := by cases h

theorem goto_holds {target : Pc N} (hpc : ¬ target.Holds) (j : Nat)
    (hj : ((w.goto i target).pc j).Holds) : (w.goto i target).pc j = w.pc j := by
  by_cases hji : j = i
  · subst hji
    rw [World.goto_self] at hj
    exact absurd hj hpc
  · exact World.goto_pc_of_ne _ _ hji

/-- The step of a coroutine that holds the lock. -/
theorem WatchInv.release [DecidableEq N] (hv : WatchInv v) (hG : Checkable v (.run i inp))
    (hpc : (v.world.pc i).Holds)
    (h : resume cfg me v.world i inp (v.world.pc i) = some w') :
    WatchInv (v.note (.run i inp) w') := by
  obtain ⟨-, hi⟩ := (resume_resumed h).released hpc
  have hothers (j : Nat) (hj : j ≠ i) : w'.pc j = v.world.pc j := resume_pc_of_ne h hj
  have hheld : LockHeld w' := lockHeld_released hv.held hpc hothers hi
  have hnone (j : Nat) : w'.pc j ≠ .passProbe := by
    intro hj
    by_cases hji : j = i
    · subst hji
      rw [hj] at hi
      exact hi (.inl rfl)
    · rw [hothers j hji] at hj
      have hlock : v.world.lock = some j := hv.held j (by rw [hj]; exact .inl rfl)
      exact hji (Option.some.inj (hlock.symm.trans (hv.held i hpc)))
  cases hat : v.world.pc i with
  | passProbe =>
    rw [hat] at h
    show WatchInv (v.noteRun i inp.ok w' (v.world.pc i))
    rw [hat]
    refine ⟨hheld, fun j hj => absurd hj (hnone j), fun hended => ?_⟩
    obtain ⟨hun, hok⟩ : v.unowned i = true ∧ inp.ok = false := by
      simpa [Watch.noteRun] using hended
    cases h
    exact probeStep_honest hok (hv.probing i hat hun (hG hat hok))
  | stopHeld c =>
    show WatchInv (v.noteRun i inp.ok w' (v.world.pc i))
    rw [hat]
    exact ⟨hheld, fun j hj => absurd hj (hnone j), fun hended => by cases hended⟩
  | passRecord target =>
    rw [hat] at hpc
    exact absurd hpc (passRecord_not_holds target)
  | _ =>
    rw [hat] at hpc
    exact absurd hpc (not_holds rfl (by rintro ⟨⟩) (by rintro ⟨⟩))

/-- The step of a coroutine that does not. -/
theorem WatchInv.move [DecidableEq N] (hv : WatchInv v) (hpc : ¬ (v.world.pc i).Holds)
    (h : resume cfg me v.world i inp (v.world.pc i) = some w') :
    WatchInv (v.note (.run i inp) w') := by
  have hlock : LockStep v.world i (v.world.pc i) w' := (resume_resumed h).lockStep hpc
  have hothers (j : Nat) (hj : j ≠ i) : w'.pc j = v.world.pc j := resume_pc_of_ne h hj
  have hheld : LockHeld w' := hlock.held hv.held hothers
  have hother (j : Nat) (hji : j ≠ i) (hj : w'.pc j = .passProbe) (hun : v.unowned j = true)
      (hchecked : v.unchecked j = false) : w'.inst.state ≠ .ready := by
    rw [hothers j hji] at hj
    rw [hlock.state hv.held (by rw [hj]; exact .inl rfl)]
    exact hv.probing j hj hun hchecked
  by_cases hat : v.world.pc i = .passLock
  · rw [hat] at h
    obtain ⟨-, rfl⟩ := World.locked_eq_some.mp h
    have hhonest (hfinds : v.finds = true) (hchecked : ¬ Unchecked v.world.inst) :
        (passStep cfg v.world i).inst.state ≠ .ready := by
      obtain ⟨hreg, hruns⟩ : v.world.registered = true ∧ v.world.runs = false := by
        simpa [Watch.finds] using hfinds
      exact passStep_honest hreg hruns hchecked
    show WatchInv (v.noteRun i inp.ok _ (v.world.pc i))
    rw [hat]
    refine ⟨hheld, fun j hj hun hchecked => ?_, fun hended => ?_⟩
    · dsimp only [Watch.noteRun] at hj hun hchecked
      by_cases hji : j = i
      · subst hji
        rw [Function.update_self] at hun hchecked
        exact hhonest hun (of_decide_eq_false hchecked)
      · rw [Function.update_of_ne hji] at hun hchecked
        exact hother j hji hj hun hchecked
    · -- a pass that does not go on to the probe has found no unchecked instance
      obtain ⟨hfinds, hlock⟩ := Bool.and_eq_true_iff.mp hended
      refine hhonest hfinds fun hun => ?_
      have hreg : v.world.registered = true := by
        simp only [Watch.finds, Bool.and_eq_true] at hfinds
        exact hfinds.1
      exact of_decide_eq_true hlock (passStep_lock_of_unchecked hreg hun)
  · have hnote : v.noteRun i inp.ok w' (v.world.pc i) =
        { v with world := w', ended := false } := by
      cases hpc' : v.world.pc i <;> rw [hpc'] at hpc hat <;>
        first | rfl | exact absurd rfl hat | exact absurd (.inl rfl) hpc
    show WatchInv (v.noteRun i inp.ok w' (v.world.pc i))
    rw [hnote]
    refine ⟨hheld, fun j hj hun hchecked => ?_, fun hended => by cases hended⟩
    by_cases hji : j = i
    · subst hji
      cases hlock with
      | keep _ hnot _ =>
        rw [show w'.pc j = .passProbe from hj] at hnot
        exact absurd (.inl rfl) hnot
      | take _ _ hprobe => exact absurd (hprobe hj) hat
    · exact hother j hji hj hun hchecked

/-- **One step.** -/
theorem WatchInv.step [DecidableEq N] (hv : WatchInv v) (hG : Checkable v e)
    (h : step cfg me v.world e = some w') : WatchInv (v.note e w') := by
  cases e with
  | request i op =>
    simp only [Node.step] at h
    split_ifs at h
    cases h
    exact hv.quiet rfl rfl (goto_holds (plain_not_holds rfl))
  | pass i =>
    simp only [Node.step] at h
    split_ifs at h
    cases h
    exact hv.quiet rfl rfl (goto_holds (plain_not_holds rfl))
  | replay i =>
    simp only [Node.step] at h
    split_ifs at h
    cases h
    exact hv.quiet rfl rfl (goto_holds (plain_not_holds rfl))
  | run i inp =>
    by_cases hpc : (v.world.pc i).Holds
    · exact hv.release hG hpc h
    · exact hv.move hpc h
  | exit p =>
    simp only [Node.step] at h
    split_ifs at h
    cases h
    exact hv.quiet rfl rfl fun j _ => rfl
  | clock now =>
    cases h
    exact hv.quiet rfl rfl fun j _ => rfl
  | store rows =>
    cases h
    exact hv.quiet rfl rfl fun j _ => rfl

end Watching

/-- **READY is honest** after every pass of a run in which the passes whose probe fails had found READY
only on instances that they can check. The record may be anything at boot. -/
theorem readyHonest_of_reach [DecidableEq N] {cfg : Settings} {me : N} {w₀ : World N} {v : Watch N}
    (hidle : ∀ i, w₀.pc i = .idle) (h : Reach (watchStep cfg me) Checkable (.init w₀) v) :
    ReadyHonest v := by
  have hinit : WatchInv (.init w₀) := by
    refine ⟨fun i hi => ?_, fun i hi => ?_, fun hended => by cases hended⟩
    · rw [show (Watch.init w₀).world.pc i = .idle from hidle i] at hi
      exact absurd hi (plain_not_holds rfl)
    · rw [show (Watch.init w₀).world.pc i = .idle from hidle i] at hi
      cases hi
  have hv : WatchInv v := by
    refine h.invariant (I := WatchInv) hinit fun {a b e} ha hG he => ?_
    obtain ⟨w', hstep, rfl⟩ := Option.map_eq_some_iff.mp he
    exact ha.step hG hstep
  exact hv.honest

/-! ## An adopted instance -/

instance decidableCheckable [DecidableEq N] (v : Watch N) : ∀ e, Decidable (Checkable v e)
  | .run i inp => inferInstanceAs (Decidable (v.world.pc i = .passProbe → inp.ok = false →
      v.unchecked i = false))
  | .request .. | .pass _ | .replay _ | .exit _ | .clock _ | .store _ => isTrue trivial

/-- The model comes up, its process ends, and the next pass notices. -/
def crashAfterReady : List (Event Unit) :=
  startEvents 0 ++ [.pass 1, .go 1, .go 1, .go 1, .exit 0, .pass 2, .go 2]

/-- A crashed model is FAILED after the pass. -/
theorem readyHonest_crash : ∃ v, run (watchStep {} ()) (.init bootWorld) crashAfterReady = some v ∧
    v.ended = true ∧ v.world.inst.state = .failed ∧ ReadyHonest v := by
  have halong : Along (watchStep {} ()) Checkable (.init bootWorld) crashAfterReady := by
    decide +kernel
  have hany : (run (watchStep {} ()) (.init bootWorld) crashAfterReady).any (fun v =>
      v.ended = true ∧ v.world.inst.state = .failed) = true := by decide +kernel
  obtain ⟨v, hrun, hv⟩ := (Option.any_eq_true _ _).mp hany
  obtain ⟨hended, hstate⟩ := of_decide_eq_true hv
  exact ⟨v, hrun, hended, hstate,
    readyHonest_of_reach (fun _ => rfl) (Reach.of_guarded_run hrun halong)⟩

/-- A backend that was up when the node booted. -/
def adoptedWorld : World Unit where
  inst := adoptSection (.ofSpec sampleSpec)

/-- A pass whose probe gets no answer. -/
def unanswered : List (Event Unit) := [.pass 0, .go 0, .run 0 { ok := false }]

/-- **An adopted instance stays READY** when its backend is gone. -/
theorem adopted_stays : ∃ v, Reach (watchStep {} ()) anyEvent (.init adoptedWorld) v ∧
    v.world.alive = (fun _ => false) ∧ ¬ ReadyHonest v := by
  have hany : (run (watchStep {} ()) (.init adoptedWorld) unanswered).any (fun v =>
      v.ended = true ∧ v.world.inst.state = .ready) = true := by decide +kernel
  obtain ⟨v, hrun, hv⟩ := (Option.any_eq_true _ _).mp hany
  obtain ⟨hended, hstate⟩ := of_decide_eq_true hv
  refine ⟨v, Reach.of_run hrun, ?_, fun hhonest => hhonest hended hstate⟩
  cases hrun
  rfl

end Llmops.Node
