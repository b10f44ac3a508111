import Llmops.Lib.Slot
import Llmops.Node.Step

/-!
# Who owns the processes of an instance

`inst.proc` is a slot in the sense of `Lib/Slot.lean`: `start` creates and stores, `stop` takes
and clears, the reconciler finds the loss of a process and expels a hung one. `step_move` says
that every event of `step` is a `Slot.Move`, with the premises of the discipline supplied by
`OneAtATime`. The code does not enforce them: `start` admits every state but STARTING and READY,
so also STOPPING, SLEEPING, and a state that another start or stop is about to overwrite.

* `process_owned_of_oneAtATime`: disciplined runs keep every running process in `inst.proc`;
* `start_during_stop_forgotten`: a start during a stop breaks it.
-/

namespace Llmops.Node

open Llmops.Lib

variable {N : Type*}

/-- What a suspended coroutine is about to do to `inst.proc`. -/
def Pc.role : Pc N → Role Pid
  | .startSpawn _ _ => .spawn
  | .startStore _ proc => .store proc
  | .startFail _ => .fail
  | .stopDrain _ proc => .drain proc
  | .stopReap _ proc => .reap proc
  | _ => .away

/-- A start between its admission and its last locked section. -/
def Pc.Spawning (pc : Pc N) : Prop := pc.role.Spawning

/-- A stop between its first and its last locked section. -/
def Pc.Stopping (pc : Pc N) : Prop := pc.role.Stopping

namespace World

/-- The processes of the key as a slot. -/
def slot (w : World N) : Slot Nat Pid where
  held := w.inst.proc
  managed := w.inst.managed
  born := fun p => p < w.nextPid
  live := w.alive
  stored := w.stored
  given := w.handed
  role := fun i => (w.pc i).role

theorem slot_goto (w : World N) (i : Nat) (pc : Pc N) :
    (w.goto i pc).slot = w.slot.setRole i pc.role := by
  simp only [slot, goto, Slot.setRole, Slot.mk.injEq, true_and]
  funext j
  by_cases hj : j = i
  · rw [hj, Function.update_self, Function.update_self]
  · rw [Function.update_of_ne hj, Function.update_of_ne hj]

@[simp] theorem slot_setRow (w : World N) (ok : Bool) (desired : Desired) :
    (w.setRow ok desired).slot = w.slot := by
  cases ok <;> rfl

@[simp] theorem slot_setAssignment (w : World N) (ok : Bool) (owner : Option N) :
    (w.setAssignment ok owner).slot = w.slot := by
  cases ok <;> rfl

end World

/-! ## Every step is a move -/

/-- The start suspended in its pre-flight is admitted when it is resumed. -/
def Admits (w : World N) (i : Nat) (inp : Input) : Prop :=
  (∃ c spec, w.pc i = .startPreflight c spec) ∧ inp.ok = true ∧
    w.inst.state ≠ .starting ∧ w.inst.state ≠ .ready

/-- The stop that waits for the lock takes a process when it is resumed. -/
def Takes (w : World N) (i : Nat) : Prop :=
  (∃ c, w.pc i = .stopLock c) ∧ w.inst.managed = true ∧ w.inst.proc ≠ none

/-- **The discipline that keeps `inst.proc` honest.** A start is admitted only when the record
names no live process and no other start or stop is between its locked sections; a stop takes a
process only when no start is. -/
def OneAtATime (w : World N) : Event N → Prop
  | .run i inp =>
    (Admits w i inp → (∀ p, w.inst.proc = some p → w.alive p = false) ∧
      ∀ j, ¬ (w.pc j).Spawning ∧ ¬ (w.pc j).Stopping) ∧
    (Takes w i → ∀ j, ¬ (w.pc j).Spawning)
  | _ => True

/-- A coroutine that does nothing to the slot, before and after. -/
theorem quiet_goto {w v : World N} {i : Nat} {pc : Pc N} (hv : v.slot = w.slot)
    (hi : (w.pc i).role = .away) (hpc : pc.role = .away) :
    Slot.Move w.slot (v.goto i pc).slot := by
  rw [World.slot_goto, hv, hpc, Slot.setRole_self hi]
  exact .quiet _

@[simp] theorem role_resume (c : Caller) : (c.resume : Pc N).role = .away := by
  cases c <;> rfl

theorem role_enter (cfg : Settings) (w : World N) (c : Caller) (op : Op) (inp : Input) :
    (w.enter cfg c op inp).role = .away := by
  obtain h | ⟨h, -⟩ | ⟨-, spec, -, h⟩ | ⟨-, h⟩ | ⟨-, h⟩ | ⟨-, h⟩ := w.enter_cases cfg c op inp
  · rw [h, role_resume]
  all_goals rw [h]; rfl

theorem role_afterForeign (cfg : Settings) (foreign : Bool) :
    (afterForeign cfg foreign : Pc N).role = .away := by
  rcases afterForeign_cases (N := N) cfg foreign with h | h <;> rw [h] <;> rfl

theorem slot_recordStep (cfg : Settings) (w : World N) (target : ModelState) :
    (recordStep cfg w target).slot = w.slot := by
  unfold recordStep emitTransition
  split_ifs <;> rfl

variable {w w' : World N}

/-- The part of a pass up to its probe. -/
theorem passStep_move (cfg : Settings) (i : Nat) (hi : (w.pc i).role = .away) :
    Slot.Move w.slot (passStep cfg w i).slot := by
  obtain h | ⟨inst, tr, hexit, h⟩ | ⟨-, h⟩ := passStep_cases cfg w i
  · rw [h]; exact quiet_goto rfl hi rfl
  · obtain ⟨p, hm, hp, hdead, hinst⟩ := reconcileExit_eq_some hexit
    have hnone : inst.proc = none ∧ inst.managed = w.inst.managed := by
      rcases hinst with ⟨-, rfl, -⟩ | ⟨-, -, t, rfl⟩ <;> exact ⟨rfl, rfl⟩
    have hslot : ({ w with inst := inst }.goto i (.passRecord tr.2)).slot =
        { w.slot with held := none } := by
      rw [World.slot_goto]
      refine (Slot.setRole_self hi).trans ?_
      simp only [World.slot, hnone]
    rw [h, hslot]
    exact .lost _ p hp hdead
  · rw [h]; exact quiet_goto rfl hi rfl

/-- The part of a pass after its probe. -/
theorem probeStep_move (cfg : Settings) (i : Nat) (inp : Input) (hi : (w.pc i).role = .away) :
    Slot.Move w.slot (probeStep cfg w i inp).slot := by
  unfold probeStep
  obtain ⟨n, t, h⟩ | ⟨-, -, h⟩ | ⟨-, -, -, n, t, r, h⟩ :=
    reconcileProbe_cases cfg w.inst inp.ok inp.size w.clock
  · rw [h]; exact quiet_goto rfl hi rfl
  · rw [h]; exact quiet_goto rfl hi rfl
  · rw [h]
    cases hproc : w.inst.proc with
    | none =>
      refine quiet_goto ?_ hi rfl
      simp only [World.hand, World.slot, hproc]
    | some p =>
      have hslot : (({ w with
          inst := { w.inst with lastLogSize := n, lastProgressAt := t, proc := none,
                                state := .failed, wasFailed := true, nextRestartAt := r }
          lock := none }.hand (some p)).goto i (.passRecord .failed)).slot =
          { w.slot with held := none, given := Function.update w.handed p true } := by
        rw [World.slot_goto]
        exact Slot.setRole_self hi
      exact hslot ▸ Slot.Move.expel w.slot p hproc

section

variable [DecidableEq N] {cfg : Settings} {me : N}

/-- **Every resumption is a move**, under the discipline. -/
theorem resume_move {i : Nat} {inp : Input} (hG : OneAtATime w (.run i inp))
    (h : resume cfg me w i inp (w.pc i) = some w') : Slot.Move w.slot w'.slot := by
  generalize hpc : w.pc i = pc at h
  have hi : (w.pc i).role = pc.role := congrArg Pc.role hpc
  cases pc with
  | idle => cases h
  | call c op =>
    cases h
    exact quiet_goto rfl hi (role_enter ..)
  | startPreflight c spec =>
    simp only [resume] at h
    split_ifs at h with hok
    · split at h
      · obtain ⟨-, rfl⟩ := World.locked_eq_some.mp h
        exact quiet_goto rfl hi (role_resume c)
      · rename_i inst hsec
        obtain ⟨-, rfl⟩ := World.locked_eq_some.mp h
        obtain ⟨hs, hr, rfl⟩ := startSection_eq_ok hsec
        obtain ⟨hdead, halone⟩ := hG.1 ⟨⟨c, spec, hpc⟩, hok, hs, hr⟩
        rw [World.slot_goto]
        exact .begin w.slot i hdead halone
    · cases h
      exact quiet_goto rfl hi (role_resume c)
  | startSpawn c spec =>
    simp only [resume] at h
    split_ifs at h
    · cases h
      have hslot : ({ w with alive := Function.update w.alive w.nextPid true,
                             nextPid := w.nextPid + 1 }.goto i (.startStore c w.nextPid)).slot =
          ({ w.slot with live := Function.update w.slot.live w.nextPid true,
                         born := fun q => w.slot.born q ∨ q = w.nextPid }.setRole i
            (.store w.nextPid)) := by
        rw [World.slot_goto]
        simp only [World.slot, Pc.role, Slot.setRole, Slot.mk.injEq, true_and, and_true]
        funext p
        exact propext Nat.lt_succ_iff_lt_or_eq
      rw [hslot]
      exact .create _ i w.nextPid hi (lt_irrefl w.nextPid)
    · cases h
      rw [World.slot_goto]
      exact .abort _ i hi
  | startStore c proc =>
    obtain ⟨-, rfl⟩ := World.locked_eq_some.mp h
    rw [World.slot_goto]
    exact .store w.slot i proc hi
  | startFail c =>
    obtain ⟨-, rfl⟩ := World.locked_eq_some.mp h
    rw [World.slot_goto]
    exact .fail w.slot i hi
  | startFailRecord c =>
    cases h
    exact quiet_goto (slot_recordStep ..) hi (role_resume c)
  | stopLock c =>
    obtain ⟨p, hm, hp, hsec⟩ | ⟨-, hsec⟩ | ⟨hidle, -, hsec⟩ := stopSection_cases w.inst
    · simp only [resume, hsec] at h
      obtain ⟨-, rfl⟩ := World.locked_eq_some.mp h
      rw [World.slot_goto]
      refine .take w.slot i p hp (hG.2 ⟨⟨c, hpc⟩, hm, ?_⟩)
      rw [hp]
      exact Option.some_ne_none p
    · simp only [resume, hsec] at h
      obtain ⟨-, rfl⟩ := World.locked_eq_some.mp h
      exact quiet_goto rfl hi rfl
    · simp only [resume, hsec] at h
      obtain ⟨-, rfl⟩ := World.locked_eq_some.mp h
      have hslot : ({ w with
          inst := { w.inst with desired := .stopped, proc := none, state := .stopped }
          lock := some i }.goto i (.stopHeld c)).slot = { w.slot with held := none } := by
        rw [World.slot_goto]
        exact Slot.setRole_self hi
      rw [hslot]
      exact .drop _ hidle
  | stopHeld c =>
    cases h
    exact quiet_goto (World.slot_setRow ..) hi (role_resume c)
  | stopDrain c proc =>
    cases h
    rw [World.slot_goto]
    exact .hand w.slot i proc hi
  | stopReap c proc =>
    simp only [resume] at h
    split_ifs at h with hdead
    obtain ⟨-, rfl⟩ := World.locked_eq_some.mp h
    rw [World.slot_goto]
    exact .clear w.slot i proc hi (Bool.eq_false_iff.mpr hdead)
  | sleepLock c =>
    simp only [resume, sleepSection] at h
    split_ifs at h <;> obtain ⟨-, rfl⟩ := World.locked_eq_some.mp h
    · exact quiet_goto rfl hi (role_resume c)
    · exact quiet_goto rfl hi rfl
  | sleepPost c | wakePost c =>
    simp only [resume] at h
    split_ifs at h <;> obtain ⟨-, rfl⟩ := World.locked_eq_some.mp h
    · exact quiet_goto rfl hi rfl
    · exact quiet_goto rfl hi (role_resume c)
  | wakeLock c =>
    simp only [resume, wakeSection] at h
    split_ifs at h <;> obtain ⟨-, rfl⟩ := World.locked_eq_some.mp h
    · exact quiet_goto rfl hi (role_resume c)
    · exact quiet_goto rfl hi rfl
  | persistRow c desired | deferRow c desired =>
    cases h
    refine quiet_goto (World.slot_setRow ..) hi ?_
    split_ifs
    · exact role_resume c
    · rfl
  | persistAssign c | deferAssign c =>
    cases h
    exact quiet_goto (World.slot_setAssignment ..) hi (role_resume c)
  | deferLock c desired =>
    obtain ⟨-, rfl⟩ := World.locked_eq_some.mp h
    exact quiet_goto rfl hi rfl
  | passLock =>
    obtain ⟨-, rfl⟩ := World.locked_eq_some.mp h
    exact passStep_move cfg i hi
  | passProbe =>
    cases h
    exact probeStep_move cfg i inp hi
  | wakeRecord _ | passRecord _ =>
    cases h
    exact quiet_goto (slot_recordStep ..) hi rfl
  | passAssignments =>
    cases h
    refine quiet_goto rfl hi ?_
    split_ifs
    · rfl
    · exact role_afterForeign ..
  | passNodes owner =>
    cases h
    exact quiet_goto rfl hi (role_afterForeign ..)
  | passRestarts _ | replayNodes _ _ =>
    cases h
    exact quiet_goto rfl hi rfl
  | passRestartsLock foreign now =>
    obtain ⟨-, rfl⟩ := World.locked_eq_some.mp h
    split_ifs
    · exact quiet_goto rfl hi rfl
    · exact quiet_goto rfl hi rfl
  | passDesired _ | replayDesired =>
    cases h
    refine quiet_goto rfl hi ?_
    split <;> rfl
  | passSnapshot foreign want =>
    obtain ⟨-, rfl⟩ := World.locked_eq_some.mp h
    refine quiet_goto rfl hi ?_
    split_ifs
    · rfl
    · split <;> rfl
  | replayAssignments want =>
    cases h
    refine quiet_goto rfl hi ?_
    split_ifs <;> rfl
  | replayStart want foreign =>
    cases h
    refine quiet_goto rfl hi ?_
    split_ifs
    · exact role_enter ..
    · rfl

/-- Every event is a move, under the discipline. -/
theorem step_move {e : Event N} (hG : OneAtATime w e) (h : step cfg me w e = some w') :
    Slot.Move w.slot w'.slot := by
  cases e with
  | request i op =>
    simp only [step] at h
    split_ifs at h with hi
    cases h
    exact quiet_goto rfl (by rw [hi]; rfl) rfl
  | pass i =>
    simp only [step] at h
    split_ifs at h with hi
    cases h
    exact quiet_goto rfl (by rw [hi]; rfl) rfl
  | replay i =>
    simp only [step] at h
    split_ifs at h with hi
    cases h
    exact quiet_goto rfl (by rw [hi]; rfl) rfl
  | run i inp => exact resume_move hG h
  | exit p =>
    simp only [step] at h
    split_ifs at h
    cases h
    exact .exit w.slot p
  | clock now => cases h; exact .quiet _
  | store rows => cases h; exact .quiet _

/-! ## Runs -/

/-- Where runs start: no coroutine is suspended, and no process was spawned yet. The record, the
rows and the clock are arbitrary (an adopted instance is READY without a process of ours). -/
structure Fresh (w : World N) : Prop where
  proc : w.inst.proc = none
  idle : ∀ i, w.pc i = .idle
  stored : ∀ p, w.stored p = false

omit [DecidableEq N] in
theorem Fresh.owned (h : Fresh w) : w.slot.Owned :=
  .of_empty h.proc h.stored fun i => by simp only [World.slot, h.idle i, Pc.role]

/-- A process that the registry still answers for: stored by its start, alive, and not passed to
`terminate_process_group`. -/
def Running (w : World N) (p : Pid) : Prop :=
  w.stored p = true ∧ w.alive p = true ∧ w.handed p = false

/-- **Process ownership.** Whatever runs is `inst.proc`, so at most one process does. -/
def ProcessOwned (w : World N) : Prop :=
  (∀ p, Running w p → w.inst.proc = some p) ∧ ∀ p q, Running w p → Running w q → p = q

/-- **Disciplined runs keep ownership**: as long as starts are admitted one at a time, over no
live process and over no stop, and stops take no process from under a start, every process the
registry answers for is `inst.proc`. -/
theorem process_owned_of_oneAtATime {w₀ : World N} (h₀ : Fresh w₀)
    (hr : Reach (step cfg me) OneAtATime w₀ w) : ProcessOwned w := by
  have howned : w.slot.Owned :=
    hr.invariant (I := fun w => w.slot.Owned) h₀.owned fun h hG he => (step_move hG he).owned h
  have howner : ∀ p, Running w p → w.inst.proc = some p :=
    fun p hp => howned.owner p hp.1 hp.2.1 hp.2.2
  exact ⟨howner, fun p q hp hq => Option.some.inj ((howner p hp).symm.trans (howner q hq))⟩

end

/-! ## A start during a stop -/

/-- The world right after `build_registry`. -/
def bootWorld : World Unit where
  inst := ModelInstance.ofSpec sampleSpec

theorem fresh_bootWorld : Fresh bootWorld := ⟨rfl, fun _ => rfl, fun _ => rfl⟩

/-- A coroutine that is alone with a record that names no process keeps the discipline. -/
theorem oneAtATime_of_alone {i : Nat} (hproc : w.inst.proc = none)
    (hidle : ∀ j, j ≠ i → w.pc j = .idle) (inp : Input) : OneAtATime w (.run i inp) := by
  have away : ∀ j, (w.pc i).role = .away → (w.pc j).role = .away := by
    intro j hi
    by_cases hj : j = i
    · rw [hj, hi]
    · rw [hidle j hj]; rfl
  refine ⟨fun ⟨⟨c, spec, hpc⟩, _⟩ => ⟨fun p hp => absurd (hproc.symm.trans hp) (by rintro ⟨⟩),
    fun j => ?_⟩,
    fun ⟨_, _, hp⟩ => absurd hproc hp⟩
  have hj := away j (by rw [hpc]; rfl)
  simp only [Pc.Spawning, Pc.Stopping, hj]
  exact ⟨id, id⟩

/-- A first start keeps the discipline. -/
theorem along_startEvents : Along (step {} ()) OneAtATime bootWorld (startEvents 0) := by
  have idle : ∀ {w w' : World Unit} {inp : Input}, step {} () w (.run 0 inp) = some w' →
      (∀ j, j ≠ 0 → w.pc j = .idle) → ∀ j, j ≠ 0 → w'.pc j = .idle :=
    fun he hw j hj => (resume_pc_of_ne he hj).trans (hw j hj)
  refine ⟨trivial, fun w₁ e₁ => ?_⟩
  have h₁ : ∀ j, j ≠ 0 → w₁.pc j = .idle := fun j hj => by
    cases e₁
    exact World.goto_pc_of_ne _ _ hj
  refine ⟨oneAtATime_of_alone (by cases e₁; rfl) h₁ _, fun w₂ e₂ => ?_⟩
  refine ⟨oneAtATime_of_alone (by cases e₁; cases e₂; rfl) (idle e₂ h₁) _, fun w₃ e₃ => ?_⟩
  refine ⟨oneAtATime_of_alone (by cases e₁; cases e₂; cases e₃; rfl) (idle e₃ (idle e₂ h₁)) _,
    fun w₄ e₄ => ?_⟩
  exact ⟨oneAtATime_of_alone (by cases e₁; cases e₂; cases e₃; cases e₄; rfl)
    (idle e₄ (idle e₃ (idle e₂ h₁))) _, fun _ _ => trivial⟩

/-- After a first start one process runs, and the registry names it. -/
theorem process_owned_start : ∃ w, run (step {} ()) bootWorld (startEvents 0) = some w ∧
    Running w 0 ∧ ProcessOwned w := by
  have hr : ∀ {w}, run (step {} ()) bootWorld (startEvents 0) = some w →
      Reach (step {} ()) OneAtATime bootWorld w := fun h => Reach.of_guarded_run h along_startEvents
  exact ⟨_, rfl, ⟨rfl, rfl, rfl⟩, process_owned_of_oneAtATime fresh_bootWorld (hr rfl)⟩

/-- The model is up; a stop drains it; a second start is admitted and stores its process; the
first process is terminated and the stop clears `inst.proc`. -/
def startDuringStop : List (Event Unit) :=
  startEvents 0 ++ [.request 1 .stop, .go 1, .go 1] ++ startEvents 2 ++ [.go 1, .exit 0, .go 1]

/-- **A start during a stop is forgotten.** The second process runs and `inst.proc` is `None`. -/
theorem start_during_stop_forgotten :
    ¬ ∀ (cfg : Settings) (w₀ w : World Unit), Fresh w₀ → Reach (step cfg ()) anyEvent w₀ w →
      ProcessOwned w := by
  intro h
  obtain ⟨w, hrun, hw, hproc⟩ : ∃ w, run (step {} ()) bootWorld startDuringStop = some w ∧
      Running w 1 ∧ w.inst.proc = none := ⟨_, rfl, ⟨rfl, rfl, rfl⟩, rfl⟩
  have howned := (h {} bootWorld w fresh_bootWorld (Reach.of_run hrun)).1 1 hw
  rw [hproc] at howned
  cases howned

end Llmops.Node
