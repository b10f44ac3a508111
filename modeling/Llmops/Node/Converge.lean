import Llmops.Node.Ownership
import Llmops.Node.Pass

/-!
# The convergence loop against the newest operation

One user operation runs on coroutine `o` while any number of reconcile passes run on the others.
The operation shows its result in `inst.state` long before it writes the `instance_desired` row,
and a pass acts on a row and a state that it read at two different moments.

* `operation_stands`: if the row agrees with the state when the operation arrives, no pass meets a
  state that the operation has already produced while it still holds an older row, and a stop is not
  that of an adopted READY instance, then `converge_desired` calls nothing against the operation, and
  at the end state and row are its target.
* `start_undone_by_stale_row`: without that, a pass stops an instance whose start is in flight.

The invariant has three stages: the operation waits for its first locked section or for its HTTP
call (`Before`: rows, held rows and state agree), its result shows (`After`), or it was refused.
-/

namespace Llmops

/-- The states an operation aims for. -/
def Op.results : Op → ModelState → Prop
  | .start, s => s = .starting ∨ s = .ready
  | .stop, s => s = .stopped
  | .sleep, s => s = .sleeping
  | .wake, s => s = .ready

/-- The operation that undoes another. -/
def Op.opposite : Op → Op
  | .start => .stop
  | .stop => .start
  | .sleep => .wake
  | .wake => .sleep

/-- A desired state asks for nothing of an instance in this state. -/
def Agrees : Desired → ModelState → Prop
  | .running, s => s ≠ .stopped ∧ s ≠ .sleeping
  | .stopped, s => s = .stopped ∨ s = .failed ∨ s = .stopping
  | .asleep, s => s ≠ .ready ∧ s ≠ .starting

theorem Agrees.no_action {d : Desired} {s : ModelState} (h : Agrees d s) :
    convergeAction d s = none := by
  cases d <;> cases s <;> simp [Agrees, convergeAction] at h ⊢

theorem Agrees.ready {d : Desired} (h : Agrees d .starting) : Agrees d .ready := by
  cases d <;> simp [Agrees] at h ⊢

/-- The row of a finished operation asks for nothing of its result. -/
theorem convergeAction_results {op : Op} {s : ModelState} (h : op.results s) :
    convergeAction op.desired s = none := by
  cases op with
  | start => rcases h with rfl | rfl <;> rfl
  | stop => rw [show s = .stopped from h]; rfl
  | sleep => rw [show s = .sleeping from h]; rfl
  | wake => rw [show s = .ready from h]; rfl

end Llmops

namespace Llmops.Node

open Llmops.Lib

variable {N : Type*}

/-! ## The setting -/

/-- What may happen around the operation of coroutine `o`: passes, time, and the exit of a process
that was handed over. Every call succeeds, except that a probe may find the instance not ready
yet while its startup window is open. -/
def Benign (cfg : Settings) (o : Nat) (w : World N) : Event N → Prop
  | .pass i => i ≠ o
  | .run i inp =>
    inp.ok = true ∨ (w.pc i = .passProbe ∧ ¬ TimedOut cfg w.inst inp.size w.clock)
  | .exit p => w.handed p = true
  | .clock _ => True
  | _ => False

/-- A pass that takes its snapshot in a state the operation aims for holds the row the operation
aims for. -/
def NotStale (op : Op) (w : World N) : Event N → Prop
  | .run i _ => ∀ f want, w.pc i = .passSnapshot f want →
      want = op.desired ∨ ¬ op.results w.inst.state
  | _ => True

/-- A stop reaches STOPPED: the instance is not an adopted one that is READY (the backend cannot stop
it: `stop` writes the row, answers, and leaves the state). An instance that is not managed is not
STARTING either, as only a start of this backend makes it so. -/
def Stoppable (inst : ModelInstance) : Prop :=
  inst.managed = false → inst.state ≠ .ready ∧ inst.state ≠ .starting

/-- The operation arrives at a node that can run the instance. No other call of the manager is in
flight and no restart is armed; the process is alive; the row, like every row that a pass still
holds, agrees with the state; and what is stopped can be stopped. -/
structure Settled (cfg : Settings) (o : Nat) (op : Op) (w : World N) : Prop where
  arrived : w.pc o = .call .user op
  passes : ∀ j, j ≠ o → (w.pc j).InPass
  registered : w.registered = true
  canRun : cfg.nodeCanRun w.inst.engine = true
  unarmed : w.inst.nextRestartAt = none
  live : ∀ p, w.inst.proc = some p → w.alive p = true ∧ w.handed p = false
  past : ∀ p, w.handed p = true → p < w.nextPid
  row : ∀ d, w.store.desired = some d → Agrees d w.inst.state
  held : ∀ j f want, w.pc j = .passSnapshot f want → Agrees want w.inst.state
  stoppable : op = .stop → Stoppable w.inst

/-- The operation has just passed its first locked section. -/
def Accepted (o : Nat) (w : World N) : Op → Prop
  | .start => ∃ spec, w.pc o = .startSpawn .user spec
  | .stop => (∃ p, w.pc o = .stopDrain .user p) ∨ w.pc o = .stopHeld .user
  | .sleep => w.pc o = .sleepPost .user
  | .wake => w.pc o = .wakePost .user

/-- `converge_desired` has called the opposite of the operation. -/
def Opposed (op : Op) (w : World N) : Prop := ∃ j, w.pc j = .call .converge op.opposite

/-- **The newest operation stands.** Until the operation is over, and for good once it was
accepted, nothing opposes it; and when an accepted operation and the passes have finished, state
and row are its target. -/
def Stands (step : World N → Event N → Option (World N)) (G : World N → Event N → Prop) (o : Nat)
    (op : Op) (u : World N) : Prop :=
  (u.pc o ≠ .idle → ¬ Opposed op u) ∧
  (Accepted o u op → ∀ w, Reach step G u w → ¬ Opposed op w ∧
    ((∀ j, w.pc j = .idle) → op.results w.inst.state ∧ w.store.desired = some op.desired))

/-! ## The invariant -/

/-- What holds at every stage. -/
structure Base (cfg : Settings) (o : Nat) (w : World N) : Prop where
  passes : ∀ j, j ≠ o → (w.pc j).InPass
  registered : w.registered = true
  canRun : cfg.nodeCanRun w.inst.engine = true
  unarmed : w.inst.nextRestartAt = none

/-- The recorded process will not exit by itself, and a new one is told apart from those handed
over. -/
structure Live (w : World N) : Prop where
  live : ∀ p, w.inst.proc = some p → w.alive p = true ∧ w.handed p = false
  past : ∀ p, w.handed p = true → p < w.nextPid

/-- The operation has not shown any effect. -/
inductive BeforePc (inst : ModelInstance) : Op → Pc N → Prop
  | call (op : Op) (hs : op = .stop → Stoppable inst) : BeforePc inst op (.call .user op)
  | preflight (spec : LaunchSpec) : BeforePc inst .start (.startPreflight .user spec)
  | stopLock (hs : Stoppable inst) : BeforePc inst .stop (.stopLock .user)
  | sleepLock : BeforePc inst .sleep (.sleepLock .user)
  | wakeLock : BeforePc inst .wake (.wakeLock .user)

/-- The operation was accepted, and its HTTP call is in flight. -/
inductive PostPc (inst : ModelInstance) : Op → Pc N → Prop
  | sleep (hs : inst.state = .ready) : PostPc inst .sleep (.sleepPost .user)
  | wake (hs : inst.state = .sleeping) : PostPc inst .wake (.wakePost .user)

/-- The rows and the state agree, and the operation is at a stage that `P` describes. -/
structure Before (P : ModelInstance → Op → Pc N → Prop) (cfg : Settings) (o : Nat) (op : Op)
    (w : World N) : Prop where
  base : Base cfg o w
  live : Live w
  row : ∀ d, w.store.desired = some d → Agrees d w.inst.state
  held : ∀ j f want, w.pc j = .passSnapshot f want → Agrees want w.inst.state
  pc : P w.inst op (w.pc o)

/-- The operation from the moment its result can show. -/
inductive AfterPc (w : World N) : Op → Pc N → Prop
  | spawn (spec : LaunchSpec) : AfterPc w .start (.startSpawn .user spec)
  | store (p : Pid) (hp : w.alive p = true ∧ w.handed p = false) :
      AfterPc w .start (.startStore .user p)
  | drain (p : Pid) : AfterPc w .stop (.stopDrain .user p)
  | reap (p : Pid) : AfterPc w .stop (.stopReap .user p)
  | held (hs : w.inst.state = .stopped) : AfterPc w .stop (.stopHeld .user)
  | record : AfterPc w .wake (.wakeRecord .user)
  | row (op : Op) (hs : w.inst.state ≠ .stopping) : AfterPc w op (.persistRow .user op.desired)
  | assign (op : Op) (hs : w.inst.state ≠ .stopping) (hrow : w.store.desired = some op.desired) :
      AfterPc w op (.persistAssign .user)
  | idle (op : Op) (hs : w.inst.state ≠ .stopping) (hrow : w.store.desired = some op.desired) :
      AfterPc w op .idle

/-- The result shows, or the instance is STOPPING on the way to it. -/
structure After (cfg : Settings) (o : Nat) (op : Op) (w : World N) : Prop where
  base : Base cfg o w
  state : op.results w.inst.state ∨ (op = .stop ∧ w.inst.state = .stopping)
  live : op ≠ .stop → Live w
  gone : op = .stop → w.inst.state = .stopped → w.inst.proc = none
  pc : AfterPc w op (w.pc o)

/-- An accepted operation. -/
def Underway (cfg : Settings) (o : Nat) (op : Op) (w : World N) : Prop :=
  Before PostPc cfg o op w ∨ After cfg o op w

/-- An operation from its arrival on. -/
def Operation (cfg : Settings) (o : Nat) (op : Op) (w : World N) : Prop :=
  Before BeforePc cfg o op w ∨ Underway cfg o op w ∨ w.pc o = .idle

variable {cfg : Settings} {o : Nat} {op : Op} {w w' : World N}

theorem Settled.before (h : Settled cfg o op w) : Before BeforePc cfg o op w where
  base := ⟨h.passes, h.registered, h.canRun, h.unarmed⟩
  live := ⟨h.live, h.past⟩
  row := h.row
  held := h.held
  pc := h.arrived ▸ .call op h.stoppable

theorem restartDue_unarmed {inst : ModelInstance} {foreign : Bool} {now : Time}
    (h : inst.nextRestartAt = none) : restartDue cfg foreign now inst = false := by
  simp [restartDue, h]

theorem Base.of_others (h : Base cfg o w) (hpc : ∀ j, j ≠ o → (w'.pc j).InPass)
    (hreg : w'.registered = w.registered) (heng : w'.inst.engine = w.inst.engine)
    (harm : w'.inst.nextRestartAt = none) : Base cfg o w' :=
  ⟨hpc, hreg ▸ h.registered, heng ▸ h.canRun, harm⟩

/-! ## A step of a pass -/

/-- What a pass can do to the record while nothing fails: nothing, note that the instance is
READY, or note that a process that was handed over has exited. -/
theorem PassChange.calm {inp : Input} {inst : ModelInstance} {handed : Pid → Bool}
    (h : PassChange cfg w inp inst handed) (harm : w.inst.nextRestartAt = none)
    (hok : inp.ok = true ∨ ¬ TimedOut cfg w.inst inp.size w.clock)
    (hexit : ∀ p, w.inst.managed = true → w.inst.proc = some p → w.alive p = false →
      w.inst.state = .stopping) :
    handed = w.handed ∧ inst.engine = w.inst.engine ∧ inst.managed = w.inst.managed ∧
      inst.nextRestartAt = none ∧
      ((inst.proc = w.inst.proc ∧ inst.state = w.inst.state) ∨
      (inst.proc = w.inst.proc ∧ w.inst.state = .starting ∧ inst.state = .ready) ∨
      (inst.proc = none ∧ w.inst.state = .stopping ∧ inst.state = .stopped ∧
        ∃ p, w.inst.proc = some p ∧ w.alive p = false)) := by
  cases h with
  | minor n t f => exact ⟨rfl, rfl, rfl, harm, .inl ⟨rfl, rfl⟩⟩
  | ready hs _ => exact ⟨rfl, rfl, rfl, rfl, .inr (.inl ⟨rfl, hs, rfl⟩)⟩
  | timeout n t r hs hok' ht =>
    rcases hok with hok | hok
    · rw [hok'] at hok
      cases hok
    · exact absurd ht hok
  | stopped p hm hp hdead hs =>
    exact ⟨rfl, rfl, rfl, harm, .inr (.inr ⟨rfl, hs, rfl, p, hp, hdead⟩)⟩
  | crashed p t hm hp hdead hs => exact absurd (hexit p hm hp hdead) hs
  | restart foreign now hdue =>
    rw [restartDue_unarmed harm] at hdue
    cases hdue

/-- Where a pass goes when no restart is armed and its snapshot asks for nothing. -/
theorem PassNext.calm {i : Nat} {pc : Pc N} (h : PassNext cfg w i pc)
    (harm : w.inst.nextRestartAt = none)
    (hact : ∀ want, w.pc i = .passSnapshot false want → convergeAction want w.inst.state = none) :
    pc.InPass ∧ ∀ f want, pc = .passSnapshot f want → w.store.desired = some want := by
  cases h with
  | pass hpc hrow => exact ⟨hpc, hrow⟩
  | restart foreign now hdue =>
    rw [restartDue_unarmed harm] at hdue
    cases hdue
  | converge want op hpc hreg hact' =>
    rw [hact want hpc] at hact'
    cases hact'

/-- The other coroutines stay in their passes. -/
theorem inPass_of_step [DecidableEq N] {me : N} {i : Nat} {inp : Input} (hb : Base cfg o w)
    (h : step cfg me w (.run i inp) = some w') (hi : (w'.pc i).InPass) :
    ∀ j, j ≠ o → (w'.pc j).InPass := by
  intro j hj
  by_cases hji : j = i
  · rw [hji]; exact hi
  · rw [resume_pc_of_ne h hji]; exact hb.passes j hj

/-- A stage that a pass cannot leave: it depends on `managed` and on a state that is not
STARTING. -/
def Steady (P : ModelInstance → Op → Pc N → Prop) : Prop :=
  ∀ {inst inst' : ModelInstance} {op : Op} {pc : Pc N}, P inst op pc →
    inst'.managed = inst.managed →
    (inst'.state = inst.state ∨ (inst.state = .starting ∧ inst'.state = .ready)) → P inst' op pc

theorem Stoppable.keep {inst inst' : ModelInstance} (h : Stoppable inst)
    (hm : inst'.managed = inst.managed)
    (hs : inst'.state = inst.state ∨ (inst.state = .starting ∧ inst'.state = .ready)) :
    Stoppable inst' := by
  intro hnot
  obtain ⟨hready, hstarting⟩ := h (hm.symm.trans hnot)
  rcases hs with hs | ⟨hs, -⟩
  · rw [hs]
    exact ⟨hready, hstarting⟩
  · exact absurd hs hstarting

theorem steady_beforePc : Steady (N := N) BeforePc := by
  intro inst inst' op pc h hm hs
  cases h with
  | call _ hstop => exact .call _ fun hop => (hstop hop).keep hm hs
  | preflight spec => exact .preflight spec
  | stopLock hstop => exact .stopLock (hstop.keep hm hs)
  | sleepLock => exact .sleepLock
  | wakeLock => exact .wakeLock

theorem steady_postPc : Steady (N := N) PostPc := by
  intro inst inst' op pc h hm hs
  cases h with
  | sleep hs' =>
    rcases hs with hs | ⟨hs, -⟩
    · exact .sleep (hs.trans hs')
    · exact absurd (hs'.symm.trans hs) (by rintro ⟨⟩)
  | wake hs' =>
    rcases hs with hs | ⟨hs, -⟩
    · exact .wake (hs.trans hs')
    · exact absurd (hs'.symm.trans hs) (by rintro ⟨⟩)

section

variable [DecidableEq N] {me : N} {i : Nat} {inp : Input}

/-- **A pass before the result shows** changes STARTING to READY at most, and calls nothing. -/
theorem Before.pass {P : ModelInstance → Op → Pc N → Prop} (hP : Steady P)
    (h : Before P cfg o op w) (hi : i ≠ o) (hok : Benign cfg o w (.run i inp))
    (hs : step cfg me w (.run i inp) = some w') : Before P cfg o op w' := by
  have hpass := resume_pass (h.base.passes i hi) hs
  obtain ⟨hpc, hrow⟩ := hpass.next.calm h.base.unarmed
    fun want hw => (h.held i false want hw).no_action
  obtain ⟨hhand, heng, hman, harm, hinst⟩ := hpass.change.calm h.base.unarmed
    (hok.imp_right And.right) fun p _ hp hdead => absurd (h.live.live p hp).1 (by simp [hdead])
  -- a live process is not found dead, so the record keeps its process
  have hkeep : w'.inst.proc = w.inst.proc ∧ (w'.inst.state = w.inst.state ∨
      (w.inst.state = .starting ∧ w'.inst.state = .ready)) := by
    rcases hinst with ⟨hp, hst⟩ | ⟨hp, hst⟩ | ⟨-, -, -, p, hp, hdead⟩
    · exact ⟨hp, .inl hst⟩
    · exact ⟨hp, .inr hst⟩
    · exact absurd (h.live.live p hp).1 (by simp [hdead])
  have hagree : ∀ d, Agrees d w.inst.state → Agrees d w'.inst.state := by
    intro d hd
    rcases hkeep.2 with hst | ⟨hst, hst'⟩
    · rw [hst]; exact hd
    · rw [hst']; exact (hst ▸ hd).ready
  refine ⟨h.base.of_others (inPass_of_step h.base hs hpc) hpass.registered heng harm, ⟨?_, ?_⟩,
    ?_, ?_, ?_⟩
  · rw [hkeep.1, hpass.alive, hhand]; exact h.live.live
  · rw [hpass.nextPid, hhand]; exact h.live.past
  · rw [hpass.store]
    exact fun d hd => hagree d (h.row d hd)
  · intro j f want hj
    by_cases hji : j = i
    · rw [hji] at hj
      exact hagree want (h.row want (hrow f want hj))
    · rw [resume_pc_of_ne hs hji] at hj
      exact hagree want (h.held j f want hj)
  · rw [resume_pc_of_ne hs (Ne.symm hi)]
    exact hP h.pc hman hkeep.2

omit [DecidableEq N] in
/-- The stage of an operation whose result shows, when the record keeps away from STOPPING. -/
theorem AfterPc.keep {pc : Pc N} (h : AfterPc w op pc) (hstore : w'.store = w.store)
    (hlive : ∀ p, w.alive p = true ∧ w.handed p = false → w'.alive p = true ∧ w'.handed p = false)
    (hst : w'.inst.state = w.inst.state ∨ (w.inst.state = .starting ∧ w'.inst.state = .ready) ∨
      (w.inst.state = .stopping ∧ w'.inst.state = .stopped)) : AfterPc w' op pc := by
  have hne : w.inst.state ≠ .stopping → w'.inst.state ≠ .stopping := by
    intro hn
    rcases hst with hst | ⟨-, hst⟩ | ⟨-, hst⟩ <;> rw [hst]
    · exact hn
    · rintro ⟨⟩
    · rintro ⟨⟩
  cases h with
  | spawn spec => exact .spawn spec
  | store p hp => exact .store p (hlive p hp)
  | drain p => exact .drain p
  | reap p => exact .reap p
  | held hs =>
    refine .held ?_
    rcases hst with hst | ⟨hst, -⟩ | ⟨-, hst⟩
    · exact hst.trans hs
    · exact absurd (hs.symm.trans hst) (by rintro ⟨⟩)
    · exact hst
  | record => exact .record
  | row op hs => exact .row op (hne hs)
  | assign op hs hrow => exact .assign op (hne hs) (hstore ▸ hrow)
  | idle op hs hrow => exact .idle op (hne hs) (hstore ▸ hrow)

/-- **A pass after the result shows** keeps the result, and calls nothing, provided it does not
act on an older row. -/
theorem After.pass (h : After cfg o op w) (hi : i ≠ o) (hok : Benign cfg o w (.run i inp))
    (hfresh : NotStale op w (.run i inp)) (hs : step cfg me w (.run i inp) = some w') :
    After cfg o op w' := by
  have hpass := resume_pass (h.base.passes i hi) hs
  obtain ⟨hpc, -⟩ := hpass.next.calm h.base.unarmed fun want hw => by
    rcases h.state with hst | ⟨-, hst⟩
    · rcases hfresh false want hw with rfl | hn
      · exact convergeAction_results hst
      · exact absurd hst hn
    · rw [hst]; cases want <;> rfl
  -- only a stop finds its process dead, and only while the instance is STOPPING
  have hexit : ∀ p, w.inst.managed = true → w.inst.proc = some p → w.alive p = false →
      w.inst.state = .stopping := by
    intro p _ hp hdead
    by_cases hop : op = .stop
    · rcases h.state with hst | ⟨-, hst⟩
      · subst hop
        rw [h.gone rfl hst] at hp
        cases hp
      · exact hst
    · exact absurd ((h.live hop).live p hp).1 (by simp [hdead])
  obtain ⟨hhand, heng, hman, harm, hinst⟩ := hpass.change.calm h.base.unarmed
    (hok.imp_right And.right) hexit
  refine ⟨h.base.of_others (inPass_of_step h.base hs hpc) hpass.registered heng harm, ?_, ?_, ?_,
    ?_⟩
  · rcases hinst with ⟨-, hst⟩ | ⟨-, hst, hst'⟩ | ⟨-, hst, hst', -⟩
    · rw [hst]; exact h.state
    · refine .inl ?_
      rcases h.state with hres | ⟨-, hstop⟩
      · rw [hst] at hres
        rw [hst']
        cases op <;> simp [Op.results] at hres ⊢
      · exact absurd (hst.symm.trans hstop) (by rintro ⟨⟩)
    · refine .inl ?_
      rcases h.state with hres | ⟨rfl, -⟩
      · rw [hst] at hres
        cases op <;> simp [Op.results] at hres
      · exact hst'
  · intro hop
    rcases hinst with ⟨hp, -⟩ | ⟨hp, -⟩ | ⟨-, hst, -⟩
    · exact ⟨by rw [hp, hpass.alive, hhand]; exact (h.live hop).live,
        by rw [hpass.nextPid, hhand]; exact (h.live hop).past⟩
    · exact ⟨by rw [hp, hpass.alive, hhand]; exact (h.live hop).live,
        by rw [hpass.nextPid, hhand]; exact (h.live hop).past⟩
    · rcases h.state with hres | ⟨hop', -⟩
      · rw [hst] at hres
        cases op <;> simp [Op.results] at hres
      · exact absurd hop' hop
  · intro hop hst'
    rcases hinst with ⟨hp, hst⟩ | ⟨-, -, hst⟩ | ⟨hp, -⟩
    · rw [hp]; exact h.gone hop (hst ▸ hst')
    · exact absurd (hst.symm.trans hst') (by rintro ⟨⟩)
    · exact hp
  · rw [resume_pc_of_ne hs (Ne.symm hi)]
    refine h.pc.keep hpass.store (fun p hp => by rw [hpass.alive, hhand]; exact hp) ?_
    rcases hinst with ⟨-, hst⟩ | ⟨-, hst⟩ | ⟨-, hst, hst', -⟩
    · exact .inl hst
    · exact .inr (.inl hst)
    · exact .inr (.inr ⟨hst, hst'⟩)

/-! ## A step of the operation -/

/-- The others do not move, and the passes have not noticed yet. -/
theorem Base.of_op (h : Base cfg o w) (hs : step cfg me w (.run o inp) = some w')
    (hreg : w'.registered = w.registered) (heng : w'.inst.engine = w.inst.engine)
    (harm : w'.inst.nextRestartAt = none) : Base cfg o w' :=
  h.of_others (fun j hj => by rw [resume_pc_of_ne hs hj]; exact h.passes j hj) hreg heng harm

/-- A step of the operation that leaves the state and the rows alone. -/
theorem Before.move {P Q : ModelInstance → Op → Pc N → Prop} (h : Before P cfg o op w)
    (hs : step cfg me w (.run o inp) = some w') (hnext : Q w'.inst op (w'.pc o))
    (hrow : w'.store = w.store) (hreg : w'.registered = w.registered)
    (heng : w'.inst.engine = w.inst.engine) (harm : w'.inst.nextRestartAt = none)
    (hst : w'.inst.state = w.inst.state) (hlive : Live w')
    (hpc : ∀ f want, w'.pc o ≠ .passSnapshot f want) : Before Q cfg o op w' := by
  refine ⟨h.base.of_op hs hreg heng harm, hlive, ?_, ?_, hnext⟩
  · rw [hrow, hst]; exact h.row
  · intro j f want hj
    by_cases hjo : j = o
    · exact absurd (hjo ▸ hj) (hpc f want)
    · rw [resume_pc_of_ne hs hjo] at hj
      rw [hst]
      exact h.held j f want hj

/-- **The operation before its result shows**: it waits on, is refused, or shows. -/
theorem Before.op_step (h : Before BeforePc cfg o op w) (hok : inp.ok = true)
    (hs : step cfg me w (.run o inp) = some w') : Operation cfg o op w' := by
  have hpc := h.pc
  have harm := h.base.unarmed
  have hres := hs
  simp only [step] at hres
  -- a coroutine that resumes its caller is done
  have away : ∀ {v : World N}, w' = v.goto o (Caller.resume .user) → w'.pc o = .idle := by
    rintro v rfl
    rw [World.goto_pc, if_pos rfl]
    rfl
  cases hi : w.pc o <;> rw [hi] at hpc hres <;> try (cases hpc; done)
  case call c op' =>
    obtain ⟨rfl, rfl, hstop⟩ : c = .user ∧ op = op' ∧ (op = .stop → Stoppable w.inst) := by
      cases hpc with
      | call _ hstop => exact ⟨rfl, rfl, hstop⟩
    obtain rfl := (Option.some.inj hres).symm
    have stay : ∀ {pc : Pc N}, w.enter cfg .user op inp = pc → BeforePc w.inst op pc →
        Operation cfg o op (w.goto o (w.enter cfg .user op inp)) := by
      rintro pc rfl hnext
      refine .inl (h.move hs ?_ rfl rfl rfl harm rfl ⟨h.live.live, h.live.past⟩
        fun f want hsnap => ?_)
      · rw [World.goto_pc, if_pos rfl]; exact hnext
      · rw [World.goto_pc, if_pos rfl] at hsnap
        rw [hsnap] at hnext
        cases hnext
    obtain he | ⟨-, hn⟩ | ⟨rfl, spec, -, he⟩ | ⟨rfl, he⟩ | ⟨rfl, he⟩ | ⟨rfl, he⟩ :=
      w.enter_cases cfg .user op inp
    · exact .inr (.inr (away (v := w) (by rw [he])))
    · rw [h.base.canRun] at hn
      cases hn
    · exact stay he (.preflight spec)
    · exact stay he (.stopLock (hstop rfl))
    · exact stay he .sleepLock
    · exact stay he .wakeLock
  case startPreflight c spec =>
    cases hpc
    simp only [resume, if_pos hok] at hres
    split at hres
    · obtain ⟨-, rfl⟩ := World.locked_eq_some.mp hres
      exact .inr (.inr (away rfl))
    · rename_i inst hsec
      obtain ⟨-, rfl⟩ := World.locked_eq_some.mp hres
      obtain ⟨-, -, rfl⟩ := startSection_eq_ok hsec
      refine .inr (.inl (.inr ⟨h.base.of_op hs rfl rfl rfl, .inl (.inl rfl),
        fun _ => ⟨h.live.live, h.live.past⟩, (by rintro ⟨⟩), ?_⟩))
      rw [World.goto_pc, if_pos rfl]
      exact .spawn _
  case stopLock c =>
    obtain ⟨rfl, rfl, hstop⟩ : c = .user ∧ op = .stop ∧ Stoppable w.inst := by
      cases hpc with
      | stopLock hstop => exact ⟨rfl, rfl, hstop⟩
    obtain ⟨p, hm, hp, hsec⟩ | ⟨⟨hm, hst⟩, -⟩ | ⟨-, -, hsec⟩ := stopSection_cases w.inst
    · simp only [resume, hsec] at hres
      obtain ⟨-, rfl⟩ := World.locked_eq_some.mp hres
      refine .inr (.inl (.inr ⟨h.base.of_op hs rfl rfl harm, .inr ⟨rfl, rfl⟩,
        fun hop => absurd rfl hop, (by rintro _ ⟨⟩), ?_⟩))
      rw [World.goto_pc, if_pos rfl]
      exact .drain p
    · exact absurd hst (hstop hm).1
    · simp only [resume, hsec] at hres
      obtain ⟨-, rfl⟩ := World.locked_eq_some.mp hres
      refine .inr (.inl (.inr ⟨h.base.of_op hs rfl rfl harm, .inl rfl,
        fun hop => absurd rfl hop, fun _ _ => rfl, ?_⟩))
      rw [World.goto_pc, if_pos rfl]
      exact .held rfl
  case sleepLock c =>
    cases hpc
    simp only [resume] at hres
    split at hres
    · obtain ⟨-, rfl⟩ := World.locked_eq_some.mp hres
      exact .inr (.inr (away rfl))
    · rename_i inst hsec
      obtain ⟨-, rfl⟩ := World.locked_eq_some.mp hres
      obtain ⟨hst, rfl⟩ := sleepSection_eq_ok hsec
      refine .inr (.inl (.inl (h.move hs ?_ rfl rfl rfl harm rfl ⟨h.live.live, h.live.past⟩
        fun f want => ?_)))
      · rw [World.goto_pc, if_pos rfl]; exact .sleep hst
      · rw [World.goto_pc, if_pos rfl]; rintro ⟨⟩
  case wakeLock c =>
    cases hpc
    simp only [resume] at hres
    split at hres
    · obtain ⟨-, rfl⟩ := World.locked_eq_some.mp hres
      exact .inr (.inr (away rfl))
    · rename_i inst hsec
      obtain ⟨-, rfl⟩ := World.locked_eq_some.mp hres
      obtain ⟨hst, rfl⟩ := wakeSection_eq_ok hsec
      refine .inr (.inl (.inl (h.move hs ?_ rfl rfl rfl harm rfl ⟨h.live.live, h.live.past⟩
        fun f want => ?_)))
      · rw [World.goto_pc, if_pos rfl]; exact .wake hst
      · rw [World.goto_pc, if_pos rfl]; rintro ⟨⟩

/-- **The operation when its HTTP call answers**: the result shows. -/
theorem Before.post_step (h : Before PostPc cfg o op w) (hok : inp.ok = true)
    (hs : step cfg me w (.run o inp) = some w') : After cfg o op w' := by
  have hpc := h.pc
  have harm := h.base.unarmed
  have hres := hs
  simp only [step] at hres
  cases hi : w.pc o <;> rw [hi] at hpc hres <;> try (cases hpc; done)
  case sleepPost c =>
    cases hpc
    simp only [resume, if_pos hok] at hres
    obtain ⟨-, rfl⟩ := World.locked_eq_some.mp hres
    refine ⟨h.base.of_op hs rfl rfl harm, .inl rfl, fun _ => ⟨h.live.live, h.live.past⟩,
      (by rintro ⟨⟩), ?_⟩
    rw [World.goto_pc, if_pos rfl]
    exact .row .sleep (by rintro ⟨⟩)
  case wakePost c =>
    cases hpc
    simp only [resume, if_pos hok] at hres
    obtain ⟨-, rfl⟩ := World.locked_eq_some.mp hres
    refine ⟨h.base.of_op hs rfl rfl harm, .inl rfl, fun _ => ⟨h.live.live, h.live.past⟩,
      (by rintro ⟨⟩), ?_⟩
    rw [World.goto_pc, if_pos rfl]
    exact .record

/-- A step of the operation that leaves the record and the processes alone. -/
theorem After.move (h : After cfg o op w) (hs : step cfg me w (.run o inp) = some w')
    (hinst : w'.inst = w.inst) (halive : w'.alive = w.alive) (hhand : w'.handed = w.handed)
    (hpid : w'.nextPid = w.nextPid) (hreg : w'.registered = w.registered)
    (hpc : AfterPc w' op (w'.pc o)) : After cfg o op w' := by
  refine ⟨h.base.of_op hs hreg (by rw [hinst]) (by rw [hinst]; exact h.base.unarmed), ?_, ?_, ?_,
    hpc⟩
  · rw [hinst]; exact h.state
  · intro hop
    exact ⟨by rw [hinst, halive, hhand]; exact (h.live hop).live,
      by rw [hhand, hpid]; exact (h.live hop).past⟩
  · rw [hinst]; exact h.gone

/-- **The operation after its result shows** keeps the result and writes the row. -/
theorem After.op_step (h : After cfg o op w) (hok : inp.ok = true)
    (hs : step cfg me w (.run o inp) = some w') : After cfg o op w' := by
  have hpc := h.pc
  have harm := h.base.unarmed
  have hres := hs
  simp only [step] at hres
  cases hi : w.pc o <;> rw [hi] at hpc hres <;> try (cases hpc; done)
  case idle => cases hres
  case startSpawn c spec =>
    cases hpc
    simp only [resume, if_pos hok] at hres
    cases hres
    have hlive := h.live (by rintro ⟨⟩)
    have hne : ∀ p, w.handed p = true → p ≠ w.nextPid := fun p hp he =>
      absurd (hlive.past p hp) (by rw [he]; exact lt_irrefl _)
    refine ⟨h.base.of_op hs rfl rfl harm, h.state, fun _ => ⟨fun p hp => ?_, fun p hp => ?_⟩,
      (by rintro ⟨⟩),
      ?_⟩
    · obtain ⟨ha, hh⟩ := hlive.live p hp
      refine ⟨?_, hh⟩
      show Function.update w.alive w.nextPid true p = true
      rw [Function.update_apply]
      split_ifs
      · rfl
      · exact ha
    · exact Nat.lt_succ_of_lt (hlive.past p hp)
    · rw [World.goto_pc, if_pos rfl]
      refine .store _ ⟨Function.update_self .., ?_⟩
      exact Bool.eq_false_iff.mpr fun hh => hne _ hh rfl
  case startStore c p =>
    cases hpc with
    | store _ hp =>
      obtain ⟨-, rfl⟩ := World.locked_eq_some.mp hres
      refine ⟨h.base.of_op hs rfl rfl harm, h.state,
        fun _ => ⟨fun q hq => ?_, (h.live (by rintro ⟨⟩)).past⟩, (by rintro ⟨⟩), ?_⟩
      · rw [← Option.some.inj (show some p = some q from hq)]
        exact hp
      · rw [World.goto_pc, if_pos rfl]
        refine .row .start ?_
        rcases h.state with hst | ⟨hop, -⟩
        · show w.inst.state ≠ .stopping
          rcases hst with hst | hst <;> rw [hst] <;> rintro ⟨⟩
        · cases hop
  case stopDrain c p =>
    cases hpc
    cases hres
    refine ⟨h.base.of_op hs rfl rfl harm, h.state, fun hop => absurd rfl hop, h.gone, ?_⟩
    rw [World.goto_pc, if_pos rfl]
    exact .reap p
  case stopReap c p =>
    cases hpc
    simp only [resume] at hres
    split_ifs at hres
    obtain ⟨-, rfl⟩ := World.locked_eq_some.mp hres
    refine ⟨h.base.of_op hs rfl rfl harm, .inl rfl, fun hop => absurd rfl hop, fun _ _ => rfl, ?_⟩
    rw [World.goto_pc, if_pos rfl]
    exact .row .stop (by rintro ⟨⟩)
  case stopHeld c =>
    cases hpc with
    | held hst =>
      obtain rfl := (Option.some.inj hres).symm
      simp only [hok, World.setRow, if_true] at hs ⊢
      refine h.move hs rfl rfl rfl rfl rfl ?_
      rw [World.goto_pc, if_pos rfl]
      refine .idle .stop ?_ rfl
      show w.inst.state ≠ .stopping
      rw [hst]
      rintro ⟨⟩
  case wakeRecord c =>
    cases hpc
    cases hres
    refine ⟨h.base.of_op hs rfl rfl harm, h.state,
      fun hop => ⟨(h.live hop).live, (h.live hop).past⟩, (by rintro ⟨⟩), ?_⟩
    rw [World.goto_pc, if_pos rfl]
    refine .row .wake ?_
    rcases h.state with hst | ⟨hop, -⟩
    · show w.inst.state ≠ .stopping
      rw [show w.inst.state = .ready from hst]
      rintro ⟨⟩
    · cases hop
  case persistRow c d =>
    cases hpc with
    | row _ hst =>
      obtain rfl := (Option.some.inj hres).symm
      simp only [hok, World.setRow, if_true] at hs ⊢
      refine h.move hs rfl rfl rfl rfl rfl ?_
      rw [World.goto_pc, if_pos rfl]
      split_ifs
      · exact .idle op hst rfl
      · exact .assign op hst rfl
  case persistAssign c =>
    cases hpc with
    | assign _ hst hrow =>
      obtain rfl := (Option.some.inj hres).symm
      simp only [hok, World.setAssignment, if_true] at hs ⊢
      refine h.move hs rfl rfl rfl rfl rfl ?_
      rw [World.goto_pc, if_pos rfl]
      exact .idle op hst hrow

/-! ## Runs -/

/-- The events of the setting, with no stale snapshot among them. -/
def Undisturbed (cfg : Settings) (o : Nat) (op : Op) (w : World N) (e : Event N) : Prop :=
  Benign cfg o w e ∧ NotStale op w e

/-- What the operation and the passes are about stays when nothing but time, an exit or the
beginning of a pass happens. -/
theorem Before.other {P : ModelInstance → Op → Pc N → Prop} (h : Before P cfg o op w) {e : Event N}
    (hrun : ∀ i inp, e ≠ .run i inp) (hok : Benign cfg o w e) (hs : step cfg me w e = some w') :
    Before P cfg o op w' := by
  cases e with
  | run i inp => exact absurd rfl (hrun i inp)
  | request | replay | store => exact hok.elim
  | clock now =>
    cases hs
    exact ⟨⟨h.base.passes, h.base.registered, h.base.canRun, h.base.unarmed⟩,
      ⟨h.live.live, h.live.past⟩, h.row, h.held, h.pc⟩
  | exit p =>
    simp only [step] at hs
    split_ifs at hs
    cases hs
    refine ⟨⟨h.base.passes, h.base.registered, h.base.canRun, h.base.unarmed⟩,
      ⟨fun q hq => ?_, h.live.past⟩, h.row, h.held, h.pc⟩
    obtain ⟨ha, hh⟩ := h.live.live q hq
    have hqp : q ≠ p := fun he => by rw [he, show w.handed p = true from hok] at hh; cases hh
    exact ⟨(Function.update_of_ne hqp ..).trans ha, hh⟩
  | pass i =>
    simp only [step] at hs
    split_ifs at hs
    cases hs
    have hio : i ≠ o := hok
    refine ⟨⟨fun j hj => ?_, h.base.registered, h.base.canRun, h.base.unarmed⟩,
      ⟨h.live.live, h.live.past⟩, h.row, fun j f want hj => ?_, ?_⟩
    · rw [World.goto_pc]
      split_ifs
      · trivial
      · exact h.base.passes j hj
    · rw [World.goto_pc] at hj
      split_ifs at hj
      exact h.held j f want hj
    · rw [World.goto_pc_of_ne _ _ (Ne.symm hio)]
      exact h.pc

theorem After.other (h : After cfg o op w) {e : Event N} (hrun : ∀ i inp, e ≠ .run i inp)
    (hok : Benign cfg o w e) (hs : step cfg me w e = some w') : After cfg o op w' := by
  cases e with
  | run i inp => exact absurd rfl (hrun i inp)
  | request | replay | store => exact hok.elim
  | clock now =>
    cases hs
    exact ⟨⟨h.base.passes, h.base.registered, h.base.canRun, h.base.unarmed⟩, h.state,
      fun hop => ⟨(h.live hop).live, (h.live hop).past⟩, h.gone,
      h.pc.keep rfl (fun _ => id) (.inl rfl)⟩
  | exit p =>
    simp only [step] at hs
    split_ifs at hs
    cases hs
    have hne : ∀ q, w.handed q = false → q ≠ p := fun q hq he => by
      rw [he, show w.handed p = true from hok] at hq
      cases hq
    have halive : ∀ q, w.alive q = true ∧ w.handed q = false →
        Function.update w.alive p false q = true ∧ w.handed q = false :=
      fun q hq => ⟨(Function.update_of_ne (hne q hq.2) ..).trans hq.1, hq.2⟩
    refine ⟨⟨h.base.passes, h.base.registered, h.base.canRun, h.base.unarmed⟩, h.state,
      fun hop => ⟨fun q hq => halive q ((h.live hop).live q hq), (h.live hop).past⟩, h.gone,
      h.pc.keep rfl halive (.inl rfl)⟩
  | pass i =>
    simp only [step] at hs
    split_ifs at hs
    cases hs
    have hio : i ≠ o := hok
    refine ⟨⟨fun j hj => ?_, h.base.registered, h.base.canRun, h.base.unarmed⟩, h.state,
      fun hop => ⟨(h.live hop).live, (h.live hop).past⟩, h.gone, ?_⟩
    · rw [World.goto_pc]
      split_ifs
      · trivial
      · exact h.base.passes j hj
    · rw [World.goto_pc_of_ne _ _ (Ne.symm hio)]
      exact h.pc.keep rfl (fun _ => id) (.inl rfl)

/-- A coroutine that is done stays done. -/
theorem idle_step {e : Event N} (h : w.pc o = .idle) (hok : Benign cfg o w e)
    (hs : step cfg me w e = some w') : w'.pc o = .idle := by
  cases e with
  | request | replay | store => exact hok.elim
  | clock now => cases hs; exact h
  | exit p =>
    simp only [step] at hs
    split_ifs at hs
    cases hs
    exact h
  | pass i =>
    simp only [step] at hs
    split_ifs at hs
    cases hs
    rw [World.goto_pc_of_ne _ _ (Ne.symm hok)]
    exact h
  | run i inp =>
    by_cases hi : i = o
    · simp only [step, hi, h, resume, reduceCtorEq] at hs
    · rw [resume_pc_of_ne hs (Ne.symm hi)]
      exact h

omit [DecidableEq N] in
/-- The await of the operation succeeds. -/
theorem Benign.ok (hok : Benign cfg o w (.run o inp)) (hpc : w.pc o ≠ .passProbe) :
    inp.ok = true :=
  hok.resolve_right fun h => hpc h.1

/-- One event keeps an accepted operation on its way. -/
theorem Underway.step {e : Event N} (h : Underway cfg o op w) (hG : Undisturbed cfg o op w e)
    (hs : step cfg me w e = some w') : Underway cfg o op w' := by
  by_cases hrun : ∃ i inp, e = .run i inp
  · obtain ⟨i, inp, rfl⟩ := hrun
    by_cases hi : i = o
    · subst hi
      rcases h with h | h
      · refine .inr (h.post_step (hG.1.ok fun hpc => ?_) hs)
        have := h.pc
        rw [hpc] at this
        cases this
      · refine .inr (h.op_step (hG.1.ok fun hpc => ?_) hs)
        have := h.pc
        rw [hpc] at this
        cases this
    · rcases h with h | h
      · exact .inl (h.pass steady_postPc hi hG.1 hs)
      · exact .inr (h.pass hi hG.1 hG.2 hs)
  · have hother : ∀ i inp, e ≠ .run i inp := fun i inp he => hrun ⟨i, inp, he⟩
    rcases h with h | h
    · exact .inl (h.other hother hG.1 hs)
    · exact .inr (h.other hother hG.1 hs)

/-- One event keeps an operation on its way, or ends it. -/
theorem Operation.step {e : Event N} (h : Operation cfg o op w) (hG : Undisturbed cfg o op w e)
    (hs : step cfg me w e = some w') : Operation cfg o op w' := by
  rcases h with h | h | h
  · by_cases hrun : ∃ i inp, e = .run i inp
    · obtain ⟨i, inp, rfl⟩ := hrun
      by_cases hi : i = o
      · subst hi
        refine h.op_step (hG.1.ok fun hpc => ?_) hs
        have := h.pc
        rw [hpc] at this
        cases this
      · exact .inl (h.pass steady_beforePc hi hG.1 hs)
    · exact .inl (h.other (fun i inp he => hrun ⟨i, inp, he⟩) hG.1 hs)
  · exact .inr (.inl (h.step hG hs))
  · exact .inr (.inr (idle_step h hG.1 hs))

omit [DecidableEq N] in
theorem Underway.base (h : Underway cfg o op w) : Base cfg o w := h.elim (·.base) (·.base)

omit [DecidableEq N] in
/-- Passes that stay passes oppose nothing, and the operation itself is no converge call. -/
theorem Base.not_opposed (h : Base cfg o w) (ho : ∀ op', w.pc o ≠ .call .converge op') :
    ¬ Opposed op w := by
  rintro ⟨j, hj⟩
  by_cases hjo : j = o
  · exact ho _ (hjo ▸ hj)
  · have := h.passes j hjo
    rw [hj] at this
    exact this

omit [DecidableEq N] in
theorem Underway.not_opposed (h : Underway cfg o op w) : ¬ Opposed op w := by
  refine h.base.not_opposed fun op' hpc => ?_
  rcases h with h | h
  · have := h.pc
    rw [hpc] at this
    cases this
  · have := h.pc
    rw [hpc] at this
    cases this

omit [DecidableEq N] in
theorem Before.not_opposed (h : Before BeforePc cfg o op w) : ¬ Opposed op w := by
  refine h.base.not_opposed fun op' hpc => ?_
  have := h.pc
  rw [hpc] at this
  cases this

omit [DecidableEq N] in
/-- An accepted operation is under way. -/
theorem Operation.underway (h : Operation cfg o op w) (hacc : Accepted o w op) :
    Underway cfg o op w := by
  rcases h with h | h | h
  · have hpc := h.pc
    cases op with
    | start => obtain ⟨spec, hs⟩ := hacc; rw [hs] at hpc; cases hpc
    | stop =>
      rcases hacc with ⟨p, hs⟩ | hs <;> rw [hs] at hpc <;> cases hpc
    | sleep => rw [show w.pc o = .sleepPost .user from hacc] at hpc; cases hpc
    | wake => rw [show w.pc o = .wakePost .user from hacc] at hpc; cases hpc
  · exact h
  · cases op with
    | start => obtain ⟨spec, hs⟩ := hacc; rw [hs] at h; cases h
    | stop => rcases hacc with ⟨p, hs⟩ | hs <;> rw [hs] at h <;> cases h
    | sleep => rw [show w.pc o = .sleepPost .user from hacc] at h; cases h
    | wake => rw [show w.pc o = .wakePost .user from hacc] at h; cases h

/-- **An operation stands** when it arrives at a settled instance and no pass acts on a row older
than its result. -/
theorem operation_stands {w₀ u : World N} (h₀ : Settled cfg o op w₀)
    (hu : Reach (step cfg me) (Undisturbed cfg o op) w₀ u) :
    Stands (step cfg me) (Undisturbed cfg o op) o op u := by
  have hop : Operation cfg o op u :=
    hu.invariant (I := Operation cfg o op) (.inl h₀.before) fun h hG he => h.step hG he
  refine ⟨fun hidle => ?_, fun hacc w hw => ?_⟩
  · rcases hop with h | h | h
    · exact h.not_opposed
    · exact h.not_opposed
    · exact absurd h hidle
  · have hway : Underway cfg o op w :=
      hw.invariant (I := Underway cfg o op) (hop.underway hacc) fun h hG he => h.step hG he
    refine ⟨hway.not_opposed, fun hall => ?_⟩
    rcases hway with h | h
    · have := h.pc
      rw [hall o] at this
      cases this
    · have hpc := h.pc
      rw [hall o] at hpc
      cases hpc with
      | idle _ hst hrow => exact ⟨h.state.resolve_right fun hs => hst hs.2, hrow⟩

end

/-- Where only coroutine 0 is suspended, the others are idle. -/
theorem update_idle {pc : Pc N} {j : Nat} (hj : j ≠ 0) :
    Function.update (fun _ => Pc.idle) 0 pc j = .idle := Function.update_of_ne hj ..

/-- A READY instance that its owner wants running, with a sleep arriving on coroutine 0. -/
def sleepWorld : World Unit where
  inst := { ModelInstance.ofSpec { sampleSpec with sleepEnabled := true } with
    desired := .running, state := .ready, proc := some 0, managed := true }
  pc := Function.update (fun _ => .idle) 0 (.call .user .sleep)
  alive := Function.update (fun _ => false) 0 true
  nextPid := 1
  store := { desired := some .running }

theorem settled_sleepWorld : Settled {} 0 .sleep sleepWorld where
  arrived := rfl
  passes j hj := by
    rw [show sleepWorld.pc j = .idle from update_idle hj]
    trivial
  registered := rfl
  canRun := rfl
  unarmed := rfl
  live p hp := by
    obtain rfl : 0 = p := Option.some.inj hp
    exact ⟨rfl, rfl⟩
  past p hp := by cases hp
  row d hd := by
    obtain rfl : .running = d := Option.some.inj hd
    exact ⟨(by rintro ⟨⟩), (by rintro ⟨⟩)⟩
  held j f want hj := by
    by_cases hj0 : j = 0
    · rw [hj0] at hj; cases hj
    · rw [show sleepWorld.pc j = .idle from update_idle hj0] at hj
      cases hj
  stoppable := by rintro ⟨⟩

/-- A sleep that nothing disturbs leaves the instance asleep, in state and row. -/
theorem operation_stands_sleep : ∃ u w, step {} () sleepWorld (.go 0) = some u ∧
    run (step {} ()) u [.go 0, .go 0, .go 0, .go 0] = some w ∧
    Stands (step {} ()) (Undisturbed {} 0 .sleep) 0 .sleep u ∧
    w.inst.state = .sleeping ∧ w.store.desired = some .asleep := by
  have hG : Undisturbed {} 0 .sleep sleepWorld (.go 0) := ⟨Or.inl rfl, fun f want hj => by cases hj⟩
  have hu : ∀ u, step {} () sleepWorld (.go 0) = some u →
      Stands (step {} ()) (Undisturbed {} 0 .sleep) 0 .sleep u := fun u he =>
    operation_stands settled_sleepWorld (Reach.refl.tail hG he)
  exact ⟨_, _, rfl, rfl, hu _ rfl, rfl, rfl⟩

/-! ## A pass between the result and its row -/

/-- A STOPPED instance with the row of its last stop; a start arrives on coroutine 0. -/
def startWorld : World Unit where
  inst := ModelInstance.ofSpec sampleSpec
  pc := Function.update (fun _ => .idle) 0 (.call .user .start)
  store := { desired := some .stopped }

theorem settled_startWorld : Settled {} 0 .start startWorld where
  arrived := rfl
  passes j hj := by
    rw [show startWorld.pc j = .idle from update_idle hj]
    trivial
  registered := rfl
  canRun := rfl
  unarmed := rfl
  live p hp := by cases hp
  past p hp := by cases hp
  row d hd := by
    obtain rfl : .stopped = d := Option.some.inj hd
    exact .inl rfl
  held j f want hj := by
    by_cases hj0 : j = 0
    · rw [hj0] at hj; cases hj
    · rw [show startWorld.pc j = .idle from update_idle hj0] at hj
      cases hj
  stoppable := by rintro ⟨⟩

/-- The start stores its process and awaits the router; a pass finds the instance READY, reads
the row that the start has not written yet, and takes its snapshot. -/
def staleRow : List (Event Unit) :=
  [.run 0 { spec := some sampleSpec }, .go 0, .go 0, .go 0,
    .pass 1, .go 1, .go 1, .go 1, .go 1, .go 1, .go 1, .go 1, .go 1, .go 1]

/-- **A start is undone by a pass that read the row before it was written.** -/
theorem start_undone_by_stale_row :
    ¬ ∀ (cfg : Settings) (op : Op) (o : Nat) (w₀ u : World Unit), Settled cfg o op w₀ →
      Reach (step cfg ()) (Benign cfg o) w₀ u → Stands (step cfg ()) (Benign cfg o) o op u := by
  intro h
  obtain ⟨u, hrun, hidle, hpc⟩ : ∃ u, run (step {} ()) startWorld staleRow = some u ∧
      u.pc 0 ≠ .idle ∧ u.pc 1 = .call .converge .stop := ⟨_, rfl, (by rintro ⟨⟩), rfl⟩
  have hreach : Reach (step {} ()) (Benign {} 0) startWorld u :=
    Reach.of_guarded_run hrun (Reach.along_of_forall (by simp [staleRow, Benign, Event.go]))
  exact (h {} .start 0 startWorld u settled_startWorld hreach).1 hidle ⟨1, hpc⟩

end Llmops.Node
