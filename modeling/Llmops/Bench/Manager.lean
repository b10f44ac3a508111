import Mathlib

/-!
# The two benchmark managers

`PerfManager.start` and `_watch` (`perf/manager.py:248-306`), `EvalManager.start`, `_pump`,
`_launch`, `_watch` and `cancel` (`eval/manager.py:168-270, 298-311`), `POST /perf`
(`api/perf.py:96-106`) and `PATCH /eval/config` (`api/eval.py:119-127`).

The managers share one event loop. A stretch of code between two awaits is one event; whoever is
suspended at an await is kept in a list of the state. What is awaited:

* `create_perf_run` and `create_eval_run`: the store gives the run a new id, or raises;
* `start_eval_run`, inside `_launch`: the process of the run is already running;
* the exit of the process of a run, in the two `_watch`;
* `_finish` in the `_watch` of an eval, before its `_pump`.

A launch may raise up to its `Popen` (a bad configuration, a full disk). The rows of the runs (what
they end as, the sets of the cancelled) are left out: no decision of a manager reads them.
-/

namespace Llmops.Bench

/-! ## The managers -/

/-- `PerfManager`: the current run, and the processes by run. -/
structure PerfManager where
  current : Option Nat := none
  procs : List Nat := []
  deriving DecidableEq, Repr

/-- `PerfManager.busy`. -/
def PerfManager.busy (pm : PerfManager) : Bool := pm.current.isSome

/-- `EvalManager`: the processes by run, the queue, the runs with a pending request and the batch
sizes by run. -/
structure EvalManager where
  concurrencyBudget : Nat := 32
  procs : List Nat := []
  queued : List Nat := []
  pending : List Nat := []
  batch : Nat → Option Nat := fun _ => none

namespace EvalManager

/-- `EvalManager.busy`. -/
def busy (em : EvalManager) : Bool := !em.procs.isEmpty || !em.queued.isEmpty

/-- `used_budget`. -/
def usedBudget (em : EvalManager) : Nat := (em.procs.map fun id => (em.batch id).getD 0).sum

/-- The head of the queue has to wait: something runs, and it does not fit beside it. -/
def headWaits (em : EvalManager) (id : Nat) : Bool :=
  !em.procs.isEmpty && em.concurrencyBudget < em.usedBudget + (em.batch id).getD 8

/-- The loop of `_pump` on the queue, up to the first launch: the run that `_launch` started, if
any, whose `start_eval_run` is then awaited. A launch that raises leaves the loop. -/
def pumpQueue (perfBusy raises : Bool) (em : EvalManager) : List Nat → EvalManager × Option Nat
  | [] => ({ em with queued := [] }, none)
  | id :: queued =>
    if perfBusy || em.headWaits id then ({ em with queued := id :: queued }, none)
    -- cancelled out of the queue before the launch
    else if id ∉ em.pending then em.pumpQueue perfBusy raises queued
    else if raises then
      ({ em with queued := queued, pending := em.pending.erase id }, none)
    else
      ({ em with queued := queued, pending := em.pending.erase id, procs := em.procs ++ [id] },
        some id)

/-- A stretch of `_pump`. -/
def pump (perfBusy raises : Bool) (em : EvalManager) : EvalManager × Option Nat :=
  em.pumpQueue perfBusy raises em.queued

/-- `start`, once `create_eval_run` has returned `id`, up to its `_pump`. -/
def enqueue (em : EvalManager) (id batch : Nat) : EvalManager :=
  { em with
    pending := em.pending ++ [id]
    batch := Function.update em.batch id (some batch)
    queued := em.queued ++ [id] }

/-- `cancel`, for a run without a process; a process is only told to end. -/
def cancel (em : EvalManager) (id : Nat) : EvalManager :=
  if id ∈ em.queued then
    { em with
      queued := em.queued.erase id
      pending := em.pending.erase id
      batch := Function.update em.batch id none }
  else em

/-- `_watch`, when the process has exited. -/
def exited (em : EvalManager) (id : Nat) : EvalManager :=
  { em with procs := em.procs.erase id, batch := Function.update em.batch id none }

end EvalManager

/-- `start`, when `Popen` has returned. -/
def PerfManager.launched (pm : PerfManager) (id : Nat) : PerfManager :=
  { current := some id, procs := pm.procs ++ [id] }

/-- `_watch`, when the process has exited. -/
def PerfManager.exited (pm : PerfManager) (id : Nat) : PerfManager :=
  { current := if pm.current = some id then none else pm.current, procs := pm.procs.erase id }

/-! ## The event loop -/

/-- The managers, the calls suspended at an await and the processes alive. -/
structure Backend where
  perf : PerfManager := {}
  eval : EvalManager := {}
  /-- Calls of `PerfManager.start` at `create_perf_run`. -/
  perfCreating : Nat := 0
  /-- Calls of `EvalManager.start` at `create_eval_run`, by batch size. -/
  evalCreating : List Nat := []
  /-- Runs whose `_launch` is at `start_eval_run`. -/
  launching : List Nat := []
  perfWatching : List Nat := []
  evalWatching : List Nat := []
  /-- Runs whose `_watch` is at `_finish`. -/
  finishing : List Nat := []
  perfAlive : List Nat := []
  evalAlive : List Nat := []
  /-- The ids that the tables have given out. -/
  perfRuns : List Nat := []
  evalRuns : List Nat := []

inductive BenchEvent where
  | postPerf
  | perfCreated (id : Nat) (raises : Bool)
  | perfNotCreated
  | startEval (batch : Nat)
  | evalCreated (batch id : Nat) (raises : Bool)
  | evalNotCreated (batch : Nat)
  | evalStarted (id : Nat) (raises : Bool)
  | evalNotStarted (id : Nat)
  | cancelEval (id : Nat)
  | setConfig (budget : Nat) (raises : Bool)
  | exitPerf (id : Nat)
  | exitEval (id : Nat)
  | perfWatched (id : Nat) (raises : Bool)
  | evalWatched (id : Nat)
  | evalFinished (id : Nat) (raises : Bool)

namespace Backend

/-- A stretch of `_pump` on the event loop. -/
def pumped (s : Backend) (raises : Bool) : Backend :=
  let (em, launched) := s.eval.pump s.perf.busy raises
  { s with
    eval := em
    launching := s.launching ++ launched.toList
    evalAlive := s.evalAlive ++ launched.toList }

/-- A call of `PerfManager.start` goes on after its insert. -/
def perfStarted (s : Backend) (id : Nat) (raises : Bool) : Backend :=
  let s := { s with perfCreating := s.perfCreating - 1, perfRuns := id :: s.perfRuns }
  if raises then s
  else
    { s with
      perf := s.perf.launched id
      perfWatching := id :: s.perfWatching
      perfAlive := id :: s.perfAlive }

end Backend

/-- One event. -/
def step (s : Backend) : BenchEvent → Option Backend
  | .postPerf =>
    -- the API refuses while evals run or wait, the manager while a load test runs
    if s.eval.busy || s.perf.busy then some s
    else some { s with perfCreating := s.perfCreating + 1 }
  | .perfCreated id raises =>
    if 0 < s.perfCreating ∧ id ∉ s.perfRuns then some (s.perfStarted id raises) else none
  | .perfNotCreated =>
    if 0 < s.perfCreating then some { s with perfCreating := s.perfCreating - 1 } else none
  | .startEval batch => some { s with evalCreating := batch :: s.evalCreating }
  | .evalCreated batch id raises =>
    if batch ∈ s.evalCreating ∧ id ∉ s.evalRuns then
      some ({ s with
        evalCreating := s.evalCreating.erase batch
        evalRuns := id :: s.evalRuns
        eval := s.eval.enqueue id batch }.pumped raises)
    else none
  | .evalNotCreated batch =>
    if batch ∈ s.evalCreating then some { s with evalCreating := s.evalCreating.erase batch }
    else none
  | .evalStarted id raises =>
    if id ∈ s.launching then
      some ({ s with
        launching := s.launching.erase id
        evalWatching := id :: s.evalWatching }.pumped raises)
    else none
  | .evalNotStarted id =>
    if id ∈ s.launching then some { s with launching := s.launching.erase id } else none
  | .cancelEval id => some { s with eval := s.eval.cancel id }
  | .setConfig budget raises =>
    some ({ s with eval := { s.eval with concurrencyBudget := budget } }.pumped raises)
  | .exitPerf id =>
    if id ∈ s.perfAlive then some { s with perfAlive := s.perfAlive.erase id } else none
  | .exitEval id =>
    if id ∈ s.evalAlive then some { s with evalAlive := s.evalAlive.erase id } else none
  | .perfWatched id raises =>
    if id ∈ s.perfWatching ∧ id ∉ s.perfAlive then
      let s := { s with
        perfWatching := s.perfWatching.erase id
        perf := s.perf.exited id }
      -- the GPU is free again: evals that waited may start
      some (if s.perf.busy then s else s.pumped raises)
    else none
  | .evalWatched id =>
    if id ∈ s.evalWatching ∧ id ∉ s.evalAlive then
      some { s with
        evalWatching := s.evalWatching.erase id
        eval := s.eval.exited id
        finishing := id :: s.finishing }
    else none
  | .evalFinished id raises =>
    if id ∈ s.finishing then
      some ({ s with finishing := s.finishing.erase id }.pumped raises)
    else none

/-! ## What a stretch of the pump does -/

namespace EvalManager

variable {perfBusy raises : Bool} {em em' : EvalManager} {id : Nat} {launched : Option Nat}

/-- While a load test is current nothing is launched. -/
theorem pump_of_busy (raises : Bool) (em : EvalManager) : em.pump true raises = (em, none) := by
  unfold pump
  cases hq : em.queued with
  | nil =>
    unfold pumpQueue
    rw [← hq]
  | cons id queued =>
    unfold pumpQueue
    rw [if_pos (by simp), ← hq]

/-- The loop appends what it launches to the processes, and launches one run at most. -/
theorem pumpQueue_procs (perfBusy raises : Bool) (em : EvalManager) (queued : List Nat) :
    (em.pumpQueue perfBusy raises queued).1.procs =
      em.procs ++ (em.pumpQueue perfBusy raises queued).2.toList := by
  induction queued with
  | nil => simp [pumpQueue]
  | cons id queued ih =>
    unfold pumpQueue
    by_cases hwaits : (perfBusy || em.headWaits id) = true
    · rw [if_pos hwaits]
      simp
    · rw [if_neg hwaits]
      by_cases hpending : id ∉ em.pending
      · rw [if_pos hpending]
        exact ih
      · rw [if_neg hpending]
        cases raises <;> simp

theorem pump_procs (perfBusy raises : Bool) (em : EvalManager) :
    (em.pump perfBusy raises).1.procs = em.procs ++ (em.pump perfBusy raises).2.toList :=
  pumpQueue_procs perfBusy raises em em.queued

end EvalManager

end Llmops.Bench
