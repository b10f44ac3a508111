import Llmops.Bench.Manager
import Llmops.Lib.Custody
import Llmops.Lib.Run

/-!
# The rows of the benchmark runs

`perf_runs` and `eval_runs` (`llmops_store.py:1010-1136`) have a row for each run, with its status.
The managers of every replica write it: `create_*_run` before the run has a queue entry or a process,
`start_eval_run` when its process is running, `finish_*_run` after that has exited or the run is
cancelled out of the queue; and a replica that boots flips whatever is queued or running
(`mark_stale_*`, `main.py:160-161`).

`Manager.lean` has the two managers of one replica. A `Replica` keeps beside them every call that is
suspended at an await, with what it goes on with (`Call`), the sets of the cancelled and the
processes alive; a `Fleet` has the two tables and the replicas. A write is one event with the return
of its await, but for the inserts: a boot may come between an insert and its return.
-/

namespace Llmops.Bench

open Llmops.Lib

/-- `status` of a run. -/
inductive RunStatus where
  | queued | running | completed | failed | cancelled
  deriving DecidableEq, Repr

/-- What a `_pump` returns to: a request or the end of the `_watch` of an eval, which have nothing
left to do, or the `_watch` of a load test, with whether its process has left a result. -/
inductive Caller where
  | done
  | perfWatch (id : Nat) (ok : Bool)
  deriving DecidableEq, Repr

/-- A call suspended at an await. -/
inductive Call where
  /-- `EvalManager.start` at `create_eval_run`, before and after the insert. -/
  | createEval (batch : Nat)
  | evalCreated (batch id : Nat)
  /-- `PerfManager.start` at `create_perf_run`, before and after the insert. -/
  | createPerf
  | perfCreated (id : Nat)
  /-- `_launch` at `start_eval_run`, and the caller of its `_pump`. -/
  | launch (id : Nat) (caller : Caller)
  /-- `cancel` of a queued run at `finish_eval_run`. -/
  | cancel (id : Nat)
  /-- The two `_watch`, at the exit of the process and at `_finish`. -/
  | watchEval (id : Nat)
  | finishEval (id : Nat) (cancelled ok : Bool)
  | watchPerf (id : Nat)
  | finishPerf (id : Nat) (cancelled ok : Bool)
  deriving DecidableEq, Repr

/-- The managers of a backend, its suspended calls and the processes that they have started. -/
structure Replica where
  perf : PerfManager := {}
  eval : EvalManager := {}
  perfCancelled : Finset Nat := ∅
  evalCancelled : Finset Nat := ∅
  calls : List Call := []
  perfAlive : List Nat := []
  evalAlive : List Nat := []

/-- What is written to the tables. -/
inductive Write where
  | nothing
  | createEval (id : Nat)
  | createPerf (id : Nat)
  | startEval (id : Nat)
  | finishEval (id : Nat) (status : RunStatus)
  | finishPerf (id : Nat) (status : RunStatus)
  deriving DecidableEq, Repr

/-- How a run ends: `ok` is that its process has left a result. -/
def outcome (cancelled ok : Bool) : RunStatus :=
  if cancelled then .cancelled else if ok then .completed else .failed

namespace Replica

/-- The call is resumed. -/
def drop (s : Replica) (c : Call) : Replica := { s with calls := s.calls.erase c }

/-- Somebody waits at an await. -/
def await (s : Replica) (c : Call) : Replica := { s with calls := c :: s.calls }

/-- After a `_pump`. -/
def after (s : Replica) : Caller → Replica
  | .done => s
  | .perfWatch id ok =>
    { s with perfCancelled := s.perfCancelled.erase id }.await
      (.finishPerf id (decide (id ∈ s.perfCancelled)) ok)

/-- A stretch of `_pump`, up to the `start_eval_run` of a launch, or to its end. A launch that raises
ends the caller too. -/
def pumped (s : Replica) (raises : Bool) (caller : Caller) : Replica :=
  match s.eval.pump s.perf.busy raises with
  | (em, some id) => { s with eval := em, evalAlive := id :: s.evalAlive }.await (.launch id caller)
  | (em, none) =>
    if raises && (s.eval.pump s.perf.busy false).2.isSome then { s with eval := em }
    else { s with eval := em }.after caller

/-- A call goes on. `ok` is that its await has not raised, for a `_watch` at the exit that the
process has left a result; `raises` is that a launch raises before its `Popen` has returned. -/
def resume (s : Replica) (ok raises : Bool) : Call → Option (Replica × Write)
  | .createEval _ | .createPerf => if ok then none else some (s, .nothing)
  | .evalCreated batch id =>
    some ({ s with eval := s.eval.enqueue id batch }.pumped raises .done, .nothing)
  | .perfCreated id =>
    if raises then some (s, .nothing)
    else
      some ({ s with perf := s.perf.launched id, perfAlive := id :: s.perfAlive }.await
        (.watchPerf id), .nothing)
  | .launch id caller =>
    if ok then some ((s.await (.watchEval id)).pumped raises caller, .startEval id)
    else some (s, .nothing)
  | .cancel id => some (s, if ok then .finishEval id .cancelled else .nothing)
  | .watchEval id =>
    if id ∈ s.evalAlive then none
    else
      some ({ s with
        eval := s.eval.exited id
        evalCancelled := s.evalCancelled.erase id }.await
        (.finishEval id (decide (id ∈ s.evalCancelled)) ok), .nothing)
  | .finishEval id cancelled ended =>
    some (s.pumped raises .done,
      if ok then .finishEval id (outcome cancelled ended) else .nothing)
  | .watchPerf id =>
    if id ∈ s.perfAlive then none
    else
      let s := { s with perf := s.perf.exited id }
      -- the GPU is free again: evals that waited may start
      some (if s.perf.busy then s.after (.perfWatch id ok) else s.pumped raises (.perfWatch id ok),
        .nothing)
  | .finishPerf id cancelled ended =>
    some (s, if ok then .finishPerf id (outcome cancelled ended) else .nothing)

end Replica

/-- What happens at a replica. -/
inductive Action where
  | startEval (batch : Nat)
  | postPerf
  | insert (c : Call) (id : Nat)
  | resume (c : Call) (ok raises : Bool)
  | cancelEval (id : Nat)
  | cancelPerf (id : Nat)
  | setConfig (budget : Nat) (raises : Bool)
  | exitEval (id : Nat)
  | exitPerf (id : Nat)

/-- One stretch of code, or the exit of a process. -/
def Replica.act (s : Replica) : Action → Option (Replica × Write)
  | .startEval batch => some (s.await (.createEval batch), .nothing)
  | .postPerf =>
    -- the API refuses while evals run or wait, the manager while a load test runs
    some (if s.eval.busy || s.perf.busy then s else s.await .createPerf, .nothing)
  | .insert c id =>
    if c ∈ s.calls then
      match c with
      | .createEval batch => some ((s.drop c).await (.evalCreated batch id), .createEval id)
      | .createPerf => some ((s.drop c).await (.perfCreated id), .createPerf id)
      | _ => none
    else none
  | .resume c ok raises => if c ∈ s.calls then (s.drop c).resume ok raises c else none
  | .cancelEval id =>
    if id ∈ s.eval.queued then
      some ({ s with eval := s.eval.cancel id }.await (.cancel id), .nothing)
    else if id ∈ s.eval.procs then
      some ({ s with evalCancelled := insert id s.evalCancelled }, .nothing)
    else some (s, .nothing)
  | .cancelPerf id =>
    if id ∈ s.perf.procs then
      some ({ s with perfCancelled := insert id s.perfCancelled }, .nothing)
    else some (s, .nothing)
  | .setConfig budget raises =>
    some ({ s with eval := { s.eval with concurrencyBudget := budget } }.pumped raises .done,
      .nothing)
  | .exitEval id =>
    if id ∈ s.evalAlive then some ({ s with evalAlive := s.evalAlive.erase id }, .nothing) else none
  | .exitPerf id =>
    if id ∈ s.perfAlive then some ({ s with perfAlive := s.perfAlive.erase id }, .nothing) else none

/-! ## The fleet -/

/-- The tables and the replicas. -/
structure Fleet (ι : Type*) where
  evalRows : Nat → Option RunStatus := fun _ => none
  perfRows : Nat → Option RunStatus := fun _ => none
  replica : ι → Replica := fun _ => {}

inductive FleetEvent (ι : Type*) where
  | boot (r : ι)
  | act (r : ι) (a : Action)

namespace Fleet

variable {ι : Type*}

/-- One statement of the store. The inserts take a new id. -/
def write (f : Fleet ι) : Write → Option (Fleet ι)
  | .nothing => some f
  | .createEval id =>
    if f.evalRows id = none then
      some { f with evalRows := Function.update f.evalRows id (some .queued) }
    else none
  | .createPerf id =>
    if f.perfRows id = none then
      some { f with perfRows := Function.update f.perfRows id (some .running) }
    else none
  | .startEval id =>
    some (if f.evalRows id = some .queued then
      { f with evalRows := Function.update f.evalRows id (some .running) } else f)
  | .finishEval id status =>
    some { f with evalRows := Function.update f.evalRows id ((f.evalRows id).map fun _ => status) }
  | .finishPerf id status =>
    some { f with perfRows := Function.update f.perfRows id ((f.perfRows id).map fun _ => status) }

/-- `mark_stale_eval_runs` and `mark_stale_perf_runs`. -/
def markStale (f : Fleet ι) : Fleet ι :=
  { f with
    evalRows := fun id => (f.evalRows id).map fun status =>
      if status = .running ∨ status = .queued then .failed else status
    perfRows := fun id => (f.perfRows id).map fun status =>
      if status = .running then .failed else status }

variable [DecidableEq ι]

def put (f : Fleet ι) (r : ι) (s : Replica) : Fleet ι :=
  { f with replica := Function.update f.replica r s }

@[simp] theorem put_self (f : Fleet ι) (r : ι) (s : Replica) : (f.put r s).replica r = s :=
  Function.update_self ..

theorem put_of_ne (f : Fleet ι) {r r' : ι} (s : Replica) (h : r' ≠ r) :
    (f.put r s).replica r' = f.replica r' := Function.update_of_ne h ..

/-- A backend starts: its managers are empty. A process that the one before has started is in a
session of its own, and lives on. -/
def boot (f : Fleet ι) (r : ι) : Fleet ι :=
  f.markStale.put r
    { perfAlive := (f.replica r).perfAlive, evalAlive := (f.replica r).evalAlive }

end Fleet

/-- One event. -/
def fleetStep {ι : Type*} [DecidableEq ι] (f : Fleet ι) : FleetEvent ι → Option (Fleet ι)
  | .boot r => some (f.boot r)
  | .act r a => ((f.replica r).act a).bind fun p => (f.write p.2).map (·.put r p.1)

end Llmops.Bench
