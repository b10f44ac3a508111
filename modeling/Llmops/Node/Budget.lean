import Llmops.Lib.Backoff
import Llmops.Node.Pass

/-!
# The restart budget of an instance that is left alone

After a user's start nobody operates the instance any more: reconcile passes follow each other,
processes exit and time passes. `_maybe_schedule_restart`, `_process_restarts`, a READY and
`start` then work the counter and the deadline of the record as a `Backoff` of `Lib/Backoff.lean`
(`run_moved`), so that its rules bound the restarts.

A `Ledger` keeps beside the world what the bound is about: the moment of the failure that armed the
restart, and the restarts issued since the last READY. What carries the induction is where the one
pass that runs may be (`BudgetPc`): `start` is admitted for a restart alone, because a STOPPED
record has a `stopped` row.

* `budget_of_reach`: at most `max_restarts` restarts, the `k`-th not before
  `restart_backoff_base * 2 ^ k` after its failure, only of an instance that is wanted.
-/

namespace Llmops.Node

open Llmops.Lib

variable {N : Type*}

/-- A node, and its restarts since the last READY: the failure that armed each, and its moment. -/
structure Ledger (N : Type*) where
  world : World N
  armed : Option Time := none
  issued : List (Option Time × Time) := []

/-- A coroutine that is about to call `start` for `_process_restarts`. -/
def Pc.Issues : Pc N → Bool
  | .call (.restart _) .start => true
  | _ => false

def Event.Issues (w' : World N) : Event N → Bool
  | .run i _ => (w'.pc i).Issues
  | _ => false

namespace Ledger

def init (w : World N) : Ledger N := { world := w }

/-- What a step to `w'` adds. A restart is armed by the step that sets its deadline. -/
def note (v : Ledger N) (e : Event N) (w' : World N) : Ledger N where
  world := w'
  armed :=
    if w'.inst.nextRestartAt = none ∨ w'.inst.nextRestartAt = v.world.inst.nextRestartAt then v.armed
    else some v.world.clock
  issued :=
    if v.world.inst.state ≠ .ready ∧ w'.inst.state = .ready then []
    else if e.Issues w' then v.issued ++ [(v.armed, v.world.clock)]
    else v.issued

/-- The counter, the deadline and the ledger as a supervisor's. -/
def backoff (v : Ledger N) : Backoff Time where
  count := v.world.inst.restartCount
  due := v.world.inst.nextRestartAt
  armed := v.armed
  taken := v.issued

end Ledger

def ledgerStep [DecidableEq N] (cfg : Settings) (me : N) (v : Ledger N) (e : Event N) :
    Option (Ledger N) :=
  (step cfg me v.world e).map (v.note e)

/-- Nobody operates the instance: one pass after the other, exits, and time that does not go
backwards. Another replica may write the rows of the key, but not what the user asked for. -/
def Unattended (v : Ledger N) : Event N → Prop
  | .request _ _ | .replay _ => False
  | .pass _ => ∀ j, v.world.pc j = .idle
  | .clock now => v.world.clock ≤ now
  | .store rows => rows.desired = v.world.store.desired
  | .run _ _ | .exit _ => True

/-- A start of the user or a READY has given the instance a fresh budget, on a node that can run
it. -/
structure Launched (cfg : Settings) (w : World N) : Prop where
  idle : ∀ i, w.pc i = .idle
  canRun : cfg.nodeCanRun w.inst.engine = true
  state : w.inst.state = .starting ∨ w.inst.state = .ready
  count : w.inst.restartCount = 0
  unarmed : w.inst.nextRestartAt = none

/-- What the restarts of an instance are held to. -/
structure Budget (cfg : Settings) (v : Ledger N) : Prop where
  issued : v.issued.length ≤ cfg.maxRestarts
  spaced : ∀ k armed at_, v.issued[k]? = some (armed, at_) →
    ∃ t, armed = some t ∧ t + cfg.restartBackoffBase * 2 ^ k ≤ at_
  count : v.world.inst.restartCount ≤ cfg.maxRestarts
  wanted : ∀ i foreign, (v.world.pc i = .call (.restart foreign) .start ∨
    ∃ spec, v.world.pc i = .startPreflight (.restart foreign) spec) →
      v.world.inst.desired = .running
  converge : ∀ i, v.world.pc i ≠ .call .converge .start

/-! ## Where the pass may be -/

/-- Where the coroutine of the pass may be, and what it knows of the record and the row there. -/
inductive BudgetPc (w : World N) : Pc N → Prop
  | pass {pc : Pc N} (hpc : pc.InPass)
      (hrow : ∀ f want, pc = .passSnapshot f want → w.store.desired = some want)
      (hnow : ∀ f now, pc = .passRestartsLock f now → now ≤ w.clock) : BudgetPc w pc
  | restart (f : Bool) (hs : w.inst.state = .failed) (hd : w.inst.desired = .running) :
      BudgetPc w (.call (.restart f) .start)
  | preflight (f : Bool) (spec : LaunchSpec) (hs : w.inst.state = .failed)
      (hd : w.inst.desired = .running) : BudgetPc w (.startPreflight (.restart f) spec)
  | spawn (f : Bool) (spec : LaunchSpec) (hs : w.inst.state = .starting) :
      BudgetPc w (.startSpawn (.restart f) spec)
  | store (f : Bool) (p : Pid) (hs : w.inst.state = .starting) :
      BudgetPc w (.startStore (.restart f) p)
  | fail (f : Bool) : BudgetPc w (.startFail (.restart f))
  | failRecord (f : Bool) : BudgetPc w (.startFailRecord (.restart f))
  | stop (hrow : w.store.desired = some .stopped) : BudgetPc w (.call .converge .stop)
  | stopLock (hrow : w.store.desired = some .stopped) : BudgetPc w (.stopLock .converge)
  | stopHeld (hrow : w.store.desired = some .stopped) : BudgetPc w (.stopHeld .converge)
  | stopDrain (p : Pid) (hrow : w.store.desired = some .stopped) :
      BudgetPc w (.stopDrain .converge p)
  | stopReap (p : Pid) (hrow : w.store.desired = some .stopped) :
      BudgetPc w (.stopReap .converge p)
  | sleep : BudgetPc w (.call .converge .sleep)
  | sleepLock : BudgetPc w (.sleepLock .converge)
  | sleepPost (hs : w.inst.state = .ready) : BudgetPc w (.sleepPost .converge)
  | wake : BudgetPc w (.call .converge .wake)
  | wakeLock : BudgetPc w (.wakeLock .converge)
  | wakePost (hs : w.inst.state = .sleeping) : BudgetPc w (.wakePost .converge)
  | wakeRecord (hs : w.inst.state = .ready) : BudgetPc w (.wakeRecord .converge)
  | row (c : Caller) (want : Desired) (hs : want = .stopped ∧ w.store.desired = some .stopped ∨
      want ≠ .stopped ∧ w.inst.state ≠ .stopped ∧ w.inst.state ≠ .stopping) :
      BudgetPc w (.persistRow c want)
  | assign (c : Caller) : BudgetPc w (.persistAssign c)

structure BudgetInv (cfg : Settings) (v : Ledger N) : Prop where
  canRun : cfg.nodeCanRun v.world.inst.engine = true
  down : v.world.inst.state = .stopped ∨ v.world.inst.state = .stopping →
    v.world.store.desired = some .stopped
  healthy : v.world.inst.state = .ready ∨ v.world.inst.state = .sleeping →
    v.world.inst.restartCount = 0
  active : ∃ i, (∀ j, j ≠ i → v.world.pc j = .idle) ∧ BudgetPc v.world (v.world.pc i)
  kept : v.backoff.Kept cfg.restartBackoffBase cfg.maxRestarts

theorem Launched.inv {cfg : Settings} {w : World N} (h : Launched cfg w) :
    BudgetInv cfg (.init w) where
  canRun := h.canRun
  down hs := by
    obtain hst | hst := h.state <;> obtain hs | hs := hs <;> cases hst.symm.trans hs
  healthy _ := h.count
  active := by
    refine ⟨0, fun j _ => h.idle j, .pass ?_ ?_ ?_⟩ <;> rw [Ledger.init, h.idle 0]
    · trivial
    · rintro _ _ ⟨⟩
    · rintro _ _ ⟨⟩
  kept := by
    have hfresh : (Ledger.init w).backoff = .fresh none := by
      simp only [Ledger.backoff, Ledger.init, h.count, h.unarmed, Backoff.fresh]
    rw [hfresh]
    exact .fresh none

/-! ## Moves of the supervisor -/

/-- The counter stays, and a deadline that is set anew is the one of this failure. -/
def Arms (cfg : Settings) (now : Time) (inst inst' : ModelInstance) : Prop :=
  inst'.restartCount = inst.restartCount ∧ (inst'.nextRestartAt = inst.nextRestartAt ∨
    inst.restartCount < cfg.maxRestarts ∧ inst'.nextRestartAt =
      some (now + cfg.restartBackoffBase * 2 ^ inst.restartCount))

theorem arms_maybeScheduleRestart (cfg : Settings) (inst : ModelInstance) (now : Time) :
    Arms cfg now inst (maybeScheduleRestart cfg inst now) := by
  unfold maybeScheduleRestart
  split_ifs with h
  · exact ⟨rfl, .inr ⟨h.2.2.2, rfl⟩⟩
  · exact ⟨rfl, .inl rfl⟩

theorem arms_reconcileExit {cfg : Settings} {alive : Pid → Bool} {now : Time}
    {inst inst' : ModelInstance} {tr : Transition}
    (h : reconcileExit cfg alive now inst = some (inst', tr)) : Arms cfg now inst inst' := by
  unfold reconcileExit checkProcessExit at h
  split at h
  · split_ifs at h
    · cases h
    · cases h
      exact ⟨rfl, .inl rfl⟩
    · simp only [Option.map_some, if_true, Option.some.injEq, Prod.mk.injEq] at h
      rw [← h.1]
      exact arms_maybeScheduleRestart cfg _ now
  · cases h

/-- A probe that does not find the instance ready leaves the counter, and may arm a restart. -/
theorem arms_reconcileProbe {cfg : Settings} {inst : ModelInstance} {ready : Bool}
    {size : Option Nat} {now : Time} (h : ¬ (inst.state = .starting ∧ ready = true)) :
    Arms cfg now inst (reconcileProbe cfg inst ready size now).1 := by
  unfold reconcileProbe
  by_cases hs : inst.state = .starting
  · have hr : ¬ ready = true := fun hr => h ⟨hs, hr⟩
    obtain ⟨n, t, hnote⟩ := noteProgress_eq inst size now
    rw [if_pos hs, if_neg hr, hnote]
    dsimp only
    split_ifs
    · exact arms_maybeScheduleRestart cfg { inst with
        lastLogSize := n, lastProgressAt := t, proc := none, state := .failed, wasFailed := true } now
    · exact ⟨rfl, .inl rfl⟩
  · rw [if_neg hs]
    exact ⟨rfl, .inl rfl⟩

section Moves

variable {cfg : Settings} {v : Ledger N} {e : Event N} {w' : World N}

theorem backoff_note (v : Ledger N) (e : Event N) (w' : World N) : (v.note e w').backoff =
    ⟨w'.inst.restartCount, w'.inst.nextRestartAt, (v.note e w').armed, (v.note e w').issued⟩ := rfl

/-- A deadline that is cleared or stays leaves the failure that armed it. -/
theorem armed_note (h : w'.inst.nextRestartAt = none ∨
    w'.inst.nextRestartAt = v.world.inst.nextRestartAt) : (v.note e w').armed = v.armed :=
  if_pos h

/-- A step that neither issues a restart nor finds the instance READY adds none. -/
theorem issued_note (hready : w'.inst.state = .ready → v.world.inst.state = .ready ∨ v.issued = [])
    (hi : e.Issues w' = false) : (v.note e w').issued = v.issued := by
  simp only [Ledger.note, hi, Bool.false_eq_true, if_false]
  split_ifs with h
  · obtain hr | hnil := hready h.2
    · exact absurd hr h.1
    · exact hnil.symm
  · rfl

theorem move_of_arms (ha : Arms cfg v.world.clock v.world.inst w'.inst)
    (hready : w'.inst.state = .ready → v.world.inst.state = .ready ∨ v.issued = [])
    (hi : e.Issues w' = false) :
    Backoff.Move cfg.restartBackoffBase cfg.maxRestarts v.world.clock v.backoff
      (v.note e w').backoff := by
  rw [backoff_note, issued_note hready hi]
  obtain ⟨hcount, hnext | ⟨hlt, hnext⟩⟩ := ha
  · rw [armed_note (.inr hnext), hcount, hnext]
    exact .quiet
  · by_cases hold : w'.inst.nextRestartAt = v.world.inst.nextRestartAt
    · rw [armed_note (.inr hold), hcount, hold]
      exact .quiet
    · have harm : (v.note e w').armed = some v.world.clock :=
        if_neg (not_or.mpr ⟨by rw [hnext]; exact Option.some_ne_none _, hold⟩)
      rw [harm, hcount, hnext]
      exact .arm hlt

/-- A READY gives a fresh budget. -/
theorem move_of_ready (hs : v.world.inst.state ≠ .ready) (hs' : w'.inst.state = .ready)
    (hcount : w'.inst.restartCount = 0) (hnext : w'.inst.nextRestartAt = none) :
    Backoff.Move cfg.restartBackoffBase cfg.maxRestarts v.world.clock v.backoff
      (v.note e w').backoff := by
  have hissued : (v.note e w').issued = [] := if_pos ⟨hs, hs'⟩
  rw [backoff_note, hissued, armed_note (.inl hnext), hcount, hnext]
  exact .reset

/-- An admitted start of a restart clears the deadline. -/
theorem move_of_clear (hs' : w'.inst.state ≠ .ready)
    (hcount : w'.inst.restartCount = v.world.inst.restartCount)
    (hnext : w'.inst.nextRestartAt = none) (hi : e.Issues w' = false) :
    Backoff.Move cfg.restartBackoffBase cfg.maxRestarts v.world.clock v.backoff
      (v.note e w').backoff := by
  rw [backoff_note, issued_note (fun h => absurd h hs') hi, armed_note (.inl hnext), hcount, hnext]
  exact .clear

/-- A restart that is due is issued. -/
theorem move_of_take {foreign : Bool} {now : Time} (hnow : now ≤ v.world.clock)
    (hdue : restartDue cfg foreign now v.world.inst = true)
    (hinst : w'.inst = takeRestart v.world.inst) (hi : e.Issues w' = true) :
    Backoff.Move cfg.restartBackoffBase cfg.maxRestarts v.world.clock v.backoff
      (v.note e w').backoff := by
  simp only [restartDue, Bool.and_eq_true, decide_eq_true_eq, Option.any_eq_true] at hdue
  obtain ⟨⟨-, t, ht, hle⟩, hlt⟩ := hdue
  have hissued : (v.note e w').issued = v.issued ++ [(v.armed, v.world.clock)] := by
    simp only [Ledger.note, hi, if_true, hinst, takeRestart]
    split_ifs with h
    · exact absurd h.2 h.1
    · rfl
  rw [backoff_note, hissued, armed_note (.inl (by rw [hinst]; rfl)), hinst]
  exact .take t ht (hle.trans hnow) hlt

/-- What a step of the pass on coroutine `i` does to the invariant. -/
structure Moved (cfg : Settings) (v : Ledger N) (e : Event N) (i : Nat) (w' : World N) : Prop where
  move : Backoff.Move cfg.restartBackoffBase cfg.maxRestarts v.world.clock v.backoff
    (v.note e w').backoff
  engine : w'.inst.engine = v.world.inst.engine
  down : w'.inst.state = .stopped ∨ w'.inst.state = .stopping → w'.store.desired = some .stopped
  healthy : w'.inst.state = .ready ∨ w'.inst.state = .sleeping → w'.inst.restartCount = 0
  pc : BudgetPc w' (w'.pc i)

theorem issues_goto {w : World N} {i : Nat} {inp : Input} {pc : Pc N} (h : pc.Issues = false) :
    (Event.run i inp).Issues (w.goto i pc) = false := by
  show ((w.goto i pc).pc i).Issues = false
  rw [World.goto_self]
  exact h

/-- A step that leaves the state and the supervisor's fields of the record alone. -/
theorem moved_of_same {i : Nat} {inp : Input} {u : World N} {pc : Pc N} (hv : BudgetInv cfg v)
    (hstate : u.inst.state = v.world.inst.state)
    (hcount : u.inst.restartCount = v.world.inst.restartCount)
    (hnext : u.inst.nextRestartAt = v.world.inst.nextRestartAt)
    (heng : u.inst.engine = v.world.inst.engine)
    (hrow : u.store.desired = v.world.store.desired ∨ u.store.desired = some .stopped ∨
      (v.world.inst.state ≠ .stopped ∧ v.world.inst.state ≠ .stopping))
    (hissue : pc.Issues = false) (hpc : BudgetPc (u.goto i pc) pc) :
    Moved cfg v (.run i inp) i (u.goto i pc) := by
  refine ⟨move_of_arms ⟨hcount, .inl hnext⟩ (fun h => .inl (hstate ▸ h)) (issues_goto hissue), heng,
    ?_, ?_, ?_⟩
  · intro hs
    replace hs : u.inst.state = .stopped ∨ u.inst.state = .stopping := hs
    rw [hstate] at hs
    obtain hrow | hrow | ⟨hstopped, hstopping⟩ := hrow
    · exact hrow.trans (hv.down hs)
    · exact hrow
    · exact absurd hs (not_or.mpr ⟨hstopped, hstopping⟩)
  · intro hs
    exact hcount.trans (hv.healthy (hstate ▸ hs))
  · rw [World.goto_self]
    exact hpc

/-- A step that only moves coroutine `i` on. -/
theorem moved_goto {i : Nat} {inp : Input} {u : World N} {pc : Pc N} (hv : BudgetInv cfg v)
    (hinst : u.inst = v.world.inst) (hrow : u.store.desired = v.world.store.desired)
    (hissue : pc.Issues = false) (hpc : BudgetPc (u.goto i pc) pc) :
    Moved cfg v (.run i inp) i (u.goto i pc) := by
  refine moved_of_same hv ?_ ?_ ?_ ?_ (.inl hrow) hissue hpc
  all_goals rw [hinst]

end Moves

theorem BudgetPc.away {w : World N} {pc : Pc N} (hpc : pc.InPass)
    (hrow : ∀ f want, pc ≠ .passSnapshot f want) (hnow : ∀ f now, pc ≠ .passRestartsLock f now) :
    BudgetPc w pc :=
  .pass hpc (fun f want h => absurd h (hrow f want)) fun f now h => absurd h (hnow f now)

/-- It depends on the record, the wanted state and the clock alone. -/
theorem BudgetPc.mono {w u : World N} {pc : Pc N} (h : BudgetPc w pc) (hinst : u.inst = w.inst)
    (hrow : u.store.desired = w.store.desired) (hclock : w.clock ≤ u.clock) : BudgetPc u pc := by
  cases h with
  | pass hpc hsnap hnow =>
    exact .pass hpc (fun f want h => hrow.trans (hsnap f want h))
      fun f now h => (hnow f now h).trans hclock
  | restart f hs hd => exact .restart f (hinst ▸ hs) (hinst ▸ hd)
  | preflight f spec hs hd => exact .preflight f spec (hinst ▸ hs) (hinst ▸ hd)
  | spawn f spec hs => exact .spawn f spec (hinst ▸ hs)
  | store f p hs => exact .store f p (hinst ▸ hs)
  | fail f => exact .fail f
  | failRecord f => exact .failRecord f
  | stop h => exact .stop (hrow.trans h)
  | stopLock h => exact .stopLock (hrow.trans h)
  | stopHeld h => exact .stopHeld (hrow.trans h)
  | stopDrain p h => exact .stopDrain p (hrow.trans h)
  | stopReap p h => exact .stopReap p (hrow.trans h)
  | sleep => exact .sleep
  | sleepLock => exact .sleepLock
  | sleepPost hs => exact .sleepPost (hinst ▸ hs)
  | wake => exact .wake
  | wakeLock => exact .wakeLock
  | wakePost hs => exact .wakePost (hinst ▸ hs)
  | wakeRecord hs => exact .wakeRecord (hinst ▸ hs)
  | row c want hs =>
    refine .row c want ?_
    rw [hinst, hrow]
    exact hs
  | assign c => exact .assign c

theorem BudgetPc.afterForeign {cfg : Settings} {w : World N} (foreign : Bool) :
    BudgetPc w (afterForeign cfg foreign) := by
  obtain h | h := afterForeign_cases (N := N) cfg foreign <;> rw [h]
  · exact .away trivial (by rintro _ _ ⟨⟩) (by rintro _ _ ⟨⟩)
  · exact .away trivial (by rintro _ _ ⟨⟩) (by rintro _ _ ⟨⟩)

theorem issues_of_inPass {pc : Pc N} (h : pc.InPass) : pc.Issues = false := by
  cases pc <;> first | rfl | exact h.elim

theorem inPass_afterForeign (cfg : Settings) (foreign : Bool) :
    (afterForeign cfg foreign : Pc N).InPass := by
  obtain h | h := afterForeign_cases (N := N) cfg foreign <;> rw [h] <;> trivial

theorem BudgetPc.resume {w : World N} {c : Caller} : BudgetPc w c.resume := by
  cases c <;> exact .away trivial (by rintro _ _ ⟨⟩) (by rintro _ _ ⟨⟩)

theorem issues_resume (c : Caller) : (c.resume : Pc N).Issues = false := by
  cases c <;> rfl

/-! ## The steps of the pass -/

section Steps

variable {cfg : Settings} {v : Ledger N} {w' : World N} {i : Nat} {inp : Input}

theorem passStep_moved (hv : BudgetInv cfg v) :
    Moved cfg v (.run i inp) i (passStep cfg v.world i) := by
  obtain h | ⟨inst, tr, hexit, h⟩ | ⟨-, h⟩ := passStep_cases cfg v.world i
  · rw [h]
    exact moved_goto hv rfl rfl rfl (.away trivial (by rintro _ _ ⟨⟩) (by rintro _ _ ⟨⟩))
  · have hpc : (passStep cfg v.world i).pc i = .passRecord tr.2 := by
      rw [h]
      exact Function.update_self ..
    have hinst : (passStep cfg v.world i).inst = inst := by
      rw [h]
      rfl
    have hrow : (passStep cfg v.world i).store = v.world.store := by
      rw [h]
      rfl
    obtain ⟨p, -, -, -, hcase⟩ := reconcileExit_eq_some hexit
    have hstate : inst.engine = v.world.inst.engine ∧ ((v.world.inst.state = .stopping ∧
        inst.state = .stopped) ∨ inst.state = .failed) := by
      obtain ⟨hs, rfl, -⟩ | ⟨-, -, t, rfl⟩ := hcase
      · exact ⟨rfl, .inl ⟨hs, rfl⟩⟩
      · exact ⟨rfl, .inr rfl⟩
    refine ⟨move_of_arms (hinst ▸ arms_reconcileExit hexit) ?_ ?_, hinst ▸ hstate.1, ?_, ?_, ?_⟩
    · rw [hinst]
      intro hr
      obtain ⟨-, hs⟩ | hs := hstate.2 <;> cases hs.symm.trans hr
    · show ((passStep cfg v.world i).pc i).Issues = false
      rw [hpc]
      rfl
    · rw [hinst, hrow]
      intro hd
      obtain ⟨hs, -⟩ | hs := hstate.2
      · exact hv.down (.inr hs)
      · obtain hd | hd := hd <;> cases hs.symm.trans hd
    · rw [hinst]
      intro hr
      obtain ⟨-, hs⟩ | hs := hstate.2 <;> obtain hr | hr := hr <;> cases hs.symm.trans hr
    · rw [hpc]
      exact .away trivial (by rintro _ _ ⟨⟩) (by rintro _ _ ⟨⟩)
  · rw [h]
    exact moved_goto hv rfl rfl rfl (.away trivial (by rintro _ _ ⟨⟩) (by rintro _ _ ⟨⟩))

theorem probeStep_moved (hv : BudgetInv cfg v) :
    Moved cfg v (.run i inp) i (probeStep cfg v.world i inp) := by
  obtain ⟨hinst, hstore, hpc⟩ := probeStep_eq cfg v.world i inp
  have hissue : ((probeStep cfg v.world i inp).pc i).Issues = false := by
    obtain h | ⟨target, h⟩ := hpc <;> rw [h] <;> rfl
  have hstage : BudgetPc (probeStep cfg v.world i inp) ((probeStep cfg v.world i inp).pc i) := by
    obtain h | ⟨target, h⟩ := hpc <;> rw [h] <;>
      exact .away trivial (by rintro _ _ ⟨⟩) (by rintro _ _ ⟨⟩)
  by_cases hok : v.world.inst.state = .starting ∧ inp.ok = true
  · have hready : (probeStep cfg v.world i inp).inst =
        { v.world.inst with restartCount := 0, nextRestartAt := none, state := .ready } := by
      rw [hinst, reconcileProbe, if_pos hok.1, if_pos hok.2]
    refine ⟨move_of_ready ?_ ?_ ?_ ?_, ?_, ?_, ?_, hstage⟩
    · rw [hok.1]
      rintro ⟨⟩
    all_goals rw [hready]
    · rintro (⟨⟨⟩⟩ | ⟨⟨⟩⟩)
    · exact fun _ => rfl
  · have hsame : (probeStep cfg v.world i inp).inst.engine = v.world.inst.engine ∧
        ((probeStep cfg v.world i inp).inst.state = v.world.inst.state ∨
          (probeStep cfg v.world i inp).inst.state = .failed) := by
      rw [hinst]
      obtain ⟨n, t, h⟩ | ⟨hs, hr, -⟩ | ⟨-, -, -, n, t, r, h⟩ :=
        reconcileProbe_cases cfg v.world.inst inp.ok inp.size v.world.clock
      · rw [h]
        exact ⟨rfl, .inl rfl⟩
      · exact absurd ⟨hs, hr⟩ hok
      · rw [h]
        exact ⟨rfl, .inr rfl⟩
    have harms : Arms cfg v.world.clock v.world.inst (probeStep cfg v.world i inp).inst := by
      rw [hinst]
      exact arms_reconcileProbe hok
    refine ⟨move_of_arms harms ?_ hissue, hsame.1, ?_, ?_, hstage⟩
    · intro hr
      obtain hs | hs := hsame.2
      · exact .inl (hs.symm.trans hr)
      · cases hs.symm.trans hr
    · intro hd
      rw [hstore]
      obtain hs | hs := hsame.2
      · exact hv.down (by rwa [hs] at hd)
      · obtain hd | hd := hd <;> cases hs.symm.trans hd
    · intro hr
      rw [harms.1]
      obtain hs | hs := hsame.2
      · exact hv.healthy (by rwa [hs] at hr)
      · obtain hr | hr := hr <;> cases hs.symm.trans hr

theorem recordStep_moved {target : ModelState} {pc : Pc N} (hv : BudgetInv cfg v)
    (hissue : pc.Issues = false)
    (hpc : BudgetPc ((recordStep cfg v.world target).goto i pc) pc) :
    Moved cfg v (.run i inp) i ((recordStep cfg v.world target).goto i pc) := by
  obtain ⟨f, hinst⟩ := recordStep_inst cfg v.world target
  refine moved_of_same hv ?_ ?_ ?_ ?_ (.inl rfl) hissue hpc
  all_goals rw [hinst]

variable [DecidableEq N] {me : N}

/-- **Steps of a pass.** -/
theorem pass_moved (hv : BudgetInv cfg v) {pc : Pc N} (hpc : pc.InPass)
    (hrow : ∀ f want, pc = .passSnapshot f want → v.world.store.desired = some want)
    (hnow : ∀ f now, pc = .passRestartsLock f now → now ≤ v.world.clock)
    (h : resume cfg me v.world i inp pc = some w') : Moved cfg v (.run i inp) i w' := by
  have away : ∀ {pc : Pc N}, pc.InPass → (∀ f want, pc ≠ .passSnapshot f want) →
      (∀ f now, pc ≠ .passRestartsLock f now) →
      Moved cfg v (.run i inp) i (v.world.goto i pc) := fun h₁ h₂ h₃ =>
    moved_goto hv rfl rfl (issues_of_inPass h₁) (.away h₁ h₂ h₃)
  have after (foreign : Bool) : Moved cfg v (.run i inp) i
      (v.world.goto i (afterForeign cfg foreign)) :=
    moved_goto hv rfl rfl (issues_of_inPass (inPass_afterForeign cfg foreign)) (.afterForeign _)
  cases pc <;> try exact hpc.elim
  case idle => cases h
  case passLock =>
    obtain ⟨-, rfl⟩ := World.locked_eq_some.mp h
    exact passStep_moved hv
  case passProbe =>
    cases h
    exact probeStep_moved hv
  case passRecord target =>
    cases h
    exact recordStep_moved hv rfl (.away trivial (by rintro _ _ ⟨⟩) (by rintro _ _ ⟨⟩))
  case passAssignments =>
    cases h
    split_ifs
    · exact away trivial (by rintro _ _ ⟨⟩) (by rintro _ _ ⟨⟩)
    · exact after false
  case passNodes owner =>
    cases h
    exact after _
  case passRestarts foreign =>
    cases h
    refine moved_goto hv rfl rfl rfl (.pass trivial (by rintro _ _ ⟨⟩) ?_)
    rintro f now ⟨⟩
    exact le_refl _
  case passRestartsLock foreign now =>
    obtain ⟨-, rfl⟩ := World.locked_eq_some.mp h
    split_ifs with hdue
    · have hs : v.world.inst.state = .failed ∧ v.world.inst.desired = .running := by
        have := hdue.2
        simp only [restartDue, Bool.and_eq_true, decide_eq_true_eq] at this
        exact this.1.1.1.1
      have hpc : ({ v.world with inst := takeRestart v.world.inst }.goto i
          (.call (.restart foreign) .start)).pc i = .call (.restart foreign) .start :=
        Function.update_self ..
      refine ⟨move_of_take (hnow foreign now rfl) hdue.2 rfl ?_, rfl, ?_, ?_, ?_⟩
      · show Pc.Issues _ = true
        rw [hpc]
        rfl
      · exact hv.down
      · rintro (hr | hr) <;> cases hs.1.symm.trans hr
      · rw [hpc]
        exact .restart foreign hs.1 hs.2
    · exact away trivial (by rintro _ _ ⟨⟩) (by rintro _ _ ⟨⟩)
  case passDesired foreign =>
    cases h
    cases hdesired : v.world.store.desired with
    | none =>
      refine away ?_ ?_ ?_ <;> cases inp.ok <;> first | trivial | rintro _ _ ⟨⟩
    | some want =>
      cases inp.ok with
      | false => exact away trivial (by rintro _ _ ⟨⟩) (by rintro _ _ ⟨⟩)
      | true =>
        refine moved_goto hv rfl rfl rfl (.pass trivial ?_ (by rintro _ _ ⟨⟩))
        rintro f want' ⟨⟩
        exact hdesired
  case passSnapshot foreign want =>
    obtain ⟨-, rfl⟩ := World.locked_eq_some.mp h
    have hwant := hrow foreign want rfl
    split_ifs
    · exact away trivial (by rintro _ _ ⟨⟩) (by rintro _ _ ⟨⟩)
    · cases hact : convergeAction want v.world.inst.state with
      | none => exact away trivial (by rintro _ _ ⟨⟩) (by rintro _ _ ⟨⟩)
      | some op =>
        refine moved_goto hv rfl rfl rfl ?_
        cases op with
        | start =>
          -- a STOPPED record has a `stopped` row
          have hs : want = .running ∧ v.world.inst.state = .stopped := by
            unfold convergeAction at hact
            split at hact <;> cases hact
            next hst => exact ⟨rfl, hst⟩
          have := hwant.symm.trans (hv.down (.inl hs.2))
          rw [hs.1] at this
          cases this
        | stop =>
          have hs : want = .stopped := by
            unfold convergeAction at hact
            split at hact <;> cases hact <;> rfl
          exact .stop (hs ▸ hwant)
        | sleep => exact .sleep
        | wake => exact .wake

omit [DecidableEq N] in
/-- A step that changes the state alone, to one that is neither down nor newly READY. -/
theorem moved_of_state {u : World N} {pc : Pc N} (hv : BudgetInv cfg v)
    (hready : u.inst.state = .ready → v.world.inst.restartCount = 0)
    (hdown : ¬ (u.inst.state = .stopped ∨ u.inst.state = .stopping) ∨
      u.store.desired = some .stopped)
    (hsleep : u.inst.state = .sleeping → v.world.inst.restartCount = 0)
    (hcount : u.inst.restartCount = v.world.inst.restartCount)
    (hnext : u.inst.nextRestartAt = v.world.inst.nextRestartAt)
    (heng : u.inst.engine = v.world.inst.engine) (hissue : pc.Issues = false)
    (hpc : BudgetPc (u.goto i pc) pc) : Moved cfg v (.run i inp) i (u.goto i pc) := by
  have hnone : v.world.inst.restartCount = 0 → v.issued = [] := by
    intro hzero
    have hlen : v.issued.length = v.world.inst.restartCount := hv.kept.counted
    exact List.length_eq_zero_iff.mp (hlen.trans hzero)
  refine ⟨move_of_arms ⟨hcount, .inl hnext⟩ (fun h => .inr (hnone (hready h))) (issues_goto hissue),
    heng, ?_, ?_, ?_⟩
  · intro hd
    obtain hno | hrow := hdown
    · exact absurd hd hno
    · exact hrow
  · rintro (hr | hr)
    · exact hcount.trans (hready hr)
    · exact hcount.trans (hsleep hr)
  · rw [World.goto_self]
    exact hpc

omit [DecidableEq N] in
theorem enter_moved {c : Caller} {op : Op} (hv : BudgetInv cfg v)
    (hstart : op = .start → ∀ spec, BudgetPc v.world (.startPreflight c spec))
    (hstop : op = .stop → BudgetPc v.world (.stopLock c))
    (hsleep : op = .sleep → BudgetPc v.world (.sleepLock c))
    (hwake : op = .wake → BudgetPc v.world (.wakeLock c)) :
    Moved cfg v (.run i inp) i (v.world.goto i (v.world.enter cfg c op inp)) := by
  have mono : ∀ {pc : Pc N}, BudgetPc v.world pc →
      BudgetPc (v.world.goto i (v.world.enter cfg c op inp)) pc :=
    fun h => h.mono rfl rfl (le_refl _)
  obtain h | ⟨-, hno⟩ | ⟨rfl, spec, -, h⟩ | ⟨rfl, h⟩ | ⟨rfl, h⟩ | ⟨rfl, h⟩ :=
    v.world.enter_cases cfg c op inp
  · rw [h]
    exact moved_goto hv rfl rfl (issues_resume c) .resume
  · rw [hv.canRun] at hno
    cases hno
  · refine moved_goto hv rfl rfl (by rw [h]; rfl) (mono ?_)
    rw [h]
    exact hstart rfl spec
  · refine moved_goto hv rfl rfl (by rw [h]; rfl) (mono ?_)
    rw [h]
    exact hstop rfl
  · refine moved_goto hv rfl rfl (by rw [h]; rfl) (mono ?_)
    rw [h]
    exact hsleep rfl
  · refine moved_goto hv rfl rfl (by rw [h]; rfl) (mono ?_)
    rw [h]
    exact hwake rfl

/-- **Every step of the coroutine of the pass is a move of the supervisor.** -/
theorem run_moved (hv : BudgetInv cfg v) (hpc : BudgetPc v.world (v.world.pc i))
    (h : step cfg me v.world (.run i inp) = some w') : Moved cfg v (.run i inp) i w' := by
  have back (c : Caller) : Moved cfg v (.run i inp) i (v.world.goto i c.resume) :=
    moved_goto hv rfl rfl (issues_resume c) .resume
  simp only [step] at h
  generalize v.world.pc i = pc at h hpc
  cases hpc with
  | pass hpc hrow hnow => exact pass_moved hv hpc hrow hnow h
  | restart f hs hd =>
    cases h
    exact enter_moved hv (fun _ spec => .preflight f spec hs hd) (by rintro ⟨⟩) (by rintro ⟨⟩)
      (by rintro ⟨⟩)
  | preflight f spec hs hd =>
    simp only [resume] at h
    split_ifs at h
    · split at h
      · obtain ⟨-, rfl⟩ := World.locked_eq_some.mp h
        exact back _
      next inst hstart =>
        obtain ⟨-, rfl⟩ := World.locked_eq_some.mp h
        obtain ⟨-, -, rfl⟩ := startSection_eq_ok hstart
        refine ⟨move_of_clear ?_ rfl rfl ?_, rfl, ?_, ?_, ?_⟩
        · rintro ⟨⟩
        · exact issues_goto rfl
        · rintro (⟨⟨⟩⟩ | ⟨⟨⟩⟩)
        · rintro (⟨⟨⟩⟩ | ⟨⟨⟩⟩)
        · rw [World.goto_self]
          exact .spawn f _ rfl
    · cases h
      exact back _
  | spawn f spec hs =>
    simp only [resume] at h
    split_ifs at h
    · cases h
      exact moved_goto hv rfl rfl rfl (.store f _ hs)
    · cases h
      exact moved_goto hv rfl rfl rfl (.fail f)
  | store f p hs =>
    obtain ⟨-, rfl⟩ := World.locked_eq_some.mp h
    refine moved_of_same hv rfl rfl rfl rfl (.inl rfl) rfl (.row _ _ (.inr ⟨by rintro ⟨⟩, ?_⟩))
    show v.world.inst.state ≠ .stopped ∧ v.world.inst.state ≠ .stopping
    rw [hs]
    exact ⟨by rintro ⟨⟩, by rintro ⟨⟩⟩
  | fail f =>
    obtain ⟨-, rfl⟩ := World.locked_eq_some.mp h
    refine moved_of_state hv (by rintro ⟨⟩) (.inl ?_) (by rintro ⟨⟩) rfl rfl rfl rfl (.failRecord f)
    rintro (⟨⟨⟩⟩ | ⟨⟨⟩⟩)
  | failRecord f =>
    cases h
    exact recordStep_moved hv rfl .resume
  | stop hrow =>
    cases h
    exact enter_moved hv (by rintro ⟨⟩) (fun _ => .stopLock hrow) (by rintro ⟨⟩) (by rintro ⟨⟩)
  | stopLock hrow =>
    simp only [resume] at h
    obtain ⟨p, -, -, hstop⟩ | ⟨-, hstop⟩ | ⟨-, -, hstop⟩ := stopSection_cases v.world.inst
    all_goals
      rw [hstop] at h
      obtain ⟨-, rfl⟩ := World.locked_eq_some.mp h
    · exact moved_of_state hv (by rintro ⟨⟩) (.inr hrow) (by rintro ⟨⟩) rfl rfl rfl rfl
        (.stopDrain p hrow)
    · exact moved_of_same hv rfl rfl rfl rfl (.inl rfl) rfl (.stopHeld hrow)
    · exact moved_of_state hv (by rintro ⟨⟩) (.inr hrow) (by rintro ⟨⟩) rfl rfl rfl rfl
        (.stopHeld hrow)
  | stopHeld hrow =>
    cases h
    refine moved_goto hv ?_ ?_ (issues_resume _) .resume
    · rw [World.setRow_inst]
    · cases inp.ok
      · rfl
      · exact hrow.symm
  | stopDrain p hrow =>
    cases h
    exact moved_goto hv rfl rfl rfl (.stopReap p hrow)
  | stopReap p hrow =>
    simp only [resume] at h
    split_ifs at h
    obtain ⟨-, rfl⟩ := World.locked_eq_some.mp h
    exact moved_of_state hv (by rintro ⟨⟩) (.inr hrow) (by rintro ⟨⟩) rfl rfl rfl rfl
      (.row _ _ (.inl ⟨rfl, hrow⟩))
  | sleep =>
    cases h
    exact enter_moved hv (by rintro ⟨⟩) (by rintro ⟨⟩) (fun _ => .sleepLock) (by rintro ⟨⟩)
  | sleepLock =>
    simp only [resume] at h
    split at h
    · obtain ⟨-, rfl⟩ := World.locked_eq_some.mp h
      exact back _
    next inst hsleep =>
      obtain ⟨-, rfl⟩ := World.locked_eq_some.mp h
      obtain ⟨hs, rfl⟩ := sleepSection_eq_ok hsleep
      exact moved_of_same hv rfl rfl rfl rfl (.inl rfl) rfl (.sleepPost hs)
  | sleepPost hs =>
    simp only [resume] at h
    split_ifs at h <;> obtain ⟨-, rfl⟩ := World.locked_eq_some.mp h
    · refine moved_of_state hv (by rintro ⟨⟩) (.inl ?_) (fun _ => hv.healthy (.inl hs)) rfl rfl rfl
        rfl (.row _ _ (.inr ⟨by rintro ⟨⟩, by rintro ⟨⟩, by rintro ⟨⟩⟩))
      rintro (⟨⟨⟩⟩ | ⟨⟨⟩⟩)
    · exact moved_of_same hv rfl rfl rfl rfl (.inl rfl) (issues_resume _) .resume
  | wake =>
    cases h
    exact enter_moved hv (by rintro ⟨⟩) (by rintro ⟨⟩) (by rintro ⟨⟩) fun _ => .wakeLock
  | wakeLock =>
    simp only [resume] at h
    split at h
    · obtain ⟨-, rfl⟩ := World.locked_eq_some.mp h
      exact back _
    next inst hwake =>
      obtain ⟨-, rfl⟩ := World.locked_eq_some.mp h
      obtain ⟨hs, rfl⟩ := wakeSection_eq_ok hwake
      exact moved_of_same hv rfl rfl rfl rfl (.inl rfl) rfl (.wakePost hs)
  | wakePost hs =>
    simp only [resume] at h
    split_ifs at h <;> obtain ⟨-, rfl⟩ := World.locked_eq_some.mp h
    · refine moved_of_state hv (fun _ => hv.healthy (.inr hs)) (.inl ?_) (by rintro ⟨⟩) rfl rfl rfl
        rfl (.wakeRecord rfl)
      rintro (⟨⟨⟩⟩ | ⟨⟨⟩⟩)
    · exact moved_of_same hv rfl rfl rfl rfl (.inl rfl) (issues_resume _) .resume
  | wakeRecord hs =>
    cases h
    refine recordStep_moved hv rfl (.row _ _ (.inr ⟨by rintro ⟨⟩, ?_⟩))
    show v.world.inst.state ≠ .stopped ∧ v.world.inst.state ≠ .stopping
    rw [hs]
    exact ⟨by rintro ⟨⟩, by rintro ⟨⟩⟩
  | row c want hs =>
    cases h
    have hinst : (v.world.setRow inp.ok want).inst = v.world.inst := World.setRow_inst ..
    refine moved_of_same hv (by rw [hinst]) (by rw [hinst]) (by rw [hinst]) (by rw [hinst]) ?_ ?_ ?_
    · obtain ⟨rfl, hrow⟩ | ⟨-, hup⟩ := hs
      · cases inp.ok
        · exact .inl rfl
        · exact .inl hrow.symm
      · exact .inr (.inr hup)
    all_goals split_ifs
    · exact issues_resume c
    · rfl
    · exact .resume
    · exact .assign c
  | assign c =>
    cases h
    refine moved_goto hv (World.setAssignment_inst ..) ?_ (issues_resume c) .resume
    cases inp.ok <;> rfl

omit [DecidableEq N] in
/-- A step outside the pass: what the invariant speaks of is as it was. -/
theorem BudgetInv.outside {e : Event N} (hv : BudgetInv cfg v) (hinst : w'.inst = v.world.inst)
    (hrow : w'.store.desired = v.world.store.desired) (hclock : v.world.clock ≤ w'.clock)
    (hi : e.Issues w' = false)
    (hactive : ∃ i, (∀ j, j ≠ i → w'.pc j = .idle) ∧ BudgetPc v.world (w'.pc i)) :
    BudgetInv cfg (v.note e w') := by
  have hsame : (v.note e w').backoff = v.backoff := by
    rw [backoff_note, issued_note (fun h => .inl (by rwa [hinst] at h)) hi,
      armed_note (.inr (by rw [hinst])), hinst]
    rfl
  obtain ⟨i, hidle, hpc⟩ := hactive
  refine ⟨?_, ?_, ?_, ⟨i, hidle, hpc.mono hinst hrow hclock⟩, hsame ▸ hv.kept⟩
  · exact hinst.symm ▸ hv.canRun
  · show w'.inst.state = _ ∨ w'.inst.state = _ → w'.store.desired = _
    rw [hinst, hrow]
    exact hv.down
  · show w'.inst.state = _ ∨ w'.inst.state = _ → w'.inst.restartCount = 0
    rw [hinst]
    exact hv.healthy

theorem BudgetInv.step {e : Event N} (hv : BudgetInv cfg v) (hG : Unattended v e)
    (h : step cfg me v.world e = some w') : BudgetInv cfg (v.note e w') := by
  obtain ⟨i, hidle, hpc⟩ := hv.active
  cases e with
  | request j op => exact hG.elim
  | replay j => exact hG.elim
  | pass j =>
    simp only [Node.step] at h
    split_ifs at h
    cases h
    refine hv.outside rfl rfl (le_refl _) rfl ⟨j, fun k hk => ?_, ?_⟩
    · rw [World.goto_pc_of_ne _ _ hk]
      exact hG k
    · rw [World.goto_self]
      exact .away trivial (by rintro _ _ ⟨⟩) (by rintro _ _ ⟨⟩)
  | run j inp =>
    -- only the coroutine of the pass is suspended anywhere
    have hj : j = i := by
      by_contra hj
      simp only [Node.step, hidle j hj] at h
      cases h
    subst hj
    obtain ⟨hmove, heng, hdown, hhealthy, hpc'⟩ := run_moved hv hpc h
    refine ⟨?_, hdown, hhealthy, ⟨j, fun k hk => ?_, hpc'⟩, hmove.kept hv.kept⟩
    · show cfg.nodeCanRun w'.inst.engine = true
      rw [heng]
      exact hv.canRun
    · exact (resume_pc_of_ne h hk).trans (hidle k hk)
  | exit p =>
    simp only [Node.step] at h
    split_ifs at h
    cases h
    exact hv.outside rfl rfl (le_refl _) rfl ⟨i, hidle, hpc⟩
  | clock now =>
    cases h
    exact hv.outside rfl rfl hG rfl ⟨i, hidle, hpc⟩
  | store rows =>
    cases h
    exact hv.outside rfl hG (le_refl _) rfl ⟨i, hidle, hpc⟩

omit [DecidableEq N] in
theorem BudgetInv.budget (hv : BudgetInv cfg v) : Budget cfg v := by
  obtain ⟨i, hidle, hpc⟩ := hv.active
  -- a coroutine that is not idle is that of the pass
  have hat : ∀ j pc, v.world.pc j = pc → pc ≠ .idle → BudgetPc v.world pc := by
    intro j pc hj hne
    by_cases hji : j = i
    · rw [← hj, hji]
      exact hpc
    · exact absurd (hj.symm.trans (hidle j hji)) hne
  refine ⟨hv.kept.taken_le, fun k armed at_ hk => hv.kept.spaced k (armed, at_) hk, hv.kept.within,
    ?_, ?_⟩
  · rintro j foreign (hj | ⟨spec, hj⟩)
    · cases hat j _ hj (by rintro ⟨⟩) with
      | restart f hs hd => exact hd
      | pass h => exact h.elim
    · cases hat j _ hj (by rintro ⟨⟩) with
      | preflight f spec hs hd => exact hd
      | pass h => exact h.elim
  · intro j hj
    cases hat j _ hj (by rintro ⟨⟩) with
    | pass h => exact h.elim

/-- **The restart budget** of an instance that is left alone. -/
theorem budget_of_reach {w : World N} (h₀ : Launched cfg w)
    (h : Reach (ledgerStep cfg me) Unattended (.init w) v) : Budget cfg v := by
  refine (h.invariant (I := BudgetInv cfg) h₀.inv fun {a b e} hi hG he => ?_).budget
  obtain ⟨w', hstep, rfl⟩ := Option.map_eq_some_iff.mp he
  exact hi.step hG hstep

end Steps

/-! ## A crash and its restart -/

/-- A started instance whose process is still the first one. -/
def launchedWorld : World Unit where
  inst := { ModelInstance.ofSpec sampleSpec with
    desired := .running, state := .starting, managed := true, proc := some 0 }
  alive := fun p => p = 0
  nextPid := 1

/-- The process exits; a pass notices it, and six seconds later takes the restart. -/
def crashAndRestart : List (Event Unit) :=
  [.exit 0, .pass 0, .go 0, .clock 6, .go 0, .go 0, .go 0, .go 0, .go 0]

theorem launched_launchedWorld : Launched {} launchedWorld :=
  ⟨fun _ => rfl, rfl, .inl rfl, rfl, rfl⟩

/-- The restart is issued, six seconds after its failure. -/
theorem budget_restarted : ∃ v, run (ledgerStep {} ()) (.init launchedWorld) crashAndRestart = some v ∧
    v.issued = [(some 0, 6)] ∧ Budget {} v := by
  have hany : (run (ledgerStep {} ()) (.init launchedWorld) crashAndRestart).any
      (fun v => v.issued = [(some 0, 6)]) = true := by decide +kernel
  obtain ⟨v, hrun, hissued⟩ := (Option.any_eq_true _ _).mp hany
  have halong : Along (ledgerStep {} ()) Unattended (.init launchedWorld) crashAndRestart := by
    refine ⟨trivial, fun v₁ h₁ => ⟨fun j => ?_, fun v₂ h₂ => ⟨trivial, fun v₃ h₃ =>
      ⟨?_, fun _ _ => ?_⟩⟩⟩⟩
    · cases h₁
      rfl
    · cases h₁
      cases h₂
      cases h₃
      show (0 : Time) ≤ 6
      norm_num
    · exact Reach.along_of_forall fun e he _ => by
        rw [List.eq_of_mem_replicate (show e ∈ List.replicate 5 (Event.go 0) from he)]
        trivial
  exact ⟨v, hrun, by simpa using hissued,
    budget_of_reach launched_launchedWorld (Reach.of_guarded_run hrun halong)⟩

end Llmops.Node
