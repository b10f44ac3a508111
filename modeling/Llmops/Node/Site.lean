import Llmops.Lib.Json
import Llmops.Lib.Run
import Llmops.Lib.Text
import Llmops.Node.Sections

/-!
# One node with all its instances, one operation at a time

`Node/Step.lean` follows one key through every await. Here a node has its whole registry, and
`start`, `stop`, `sleep` and `wake` (`manager.py:453-638`) run to completion: each is the sections
of `Node/Sections.lean` in a row, with the rows it writes. A reconcile pass
(`reconciler.py:317-358`) is a sequence of such steps, so that what it publishes can be seen between
them: `reconcile` looks at every instance, writes the node's state back to the store and refreshes
the Prometheus targets, and every `next` is one call of `_process_restarts` or `converge_desired`.

* The published views are `live`, the rows of `instances_live` (`_backfill_node_state`), and `file`,
  the entries of the Prometheus targets file (`services/prometheus_targets.py`).
* Writes to the store and to the file succeed. `observed` rows, router calls, the recorded events
  and the alerts change nothing here and are left out, as is `force` of `start`: a pre-flight check
  lets a start through or not.
* `model_tag` of a record, which only the labels read, is kept beside the records.
-/

namespace Llmops.Node

open Llmops.Lib

/-- The settings of the writeback. `prometheus_sd_path` is set. -/
structure SiteSettings extends Settings where
  nodeHost : String := ""
  liveTtl : Time := 30

/-- A row of `instances_live`. -/
structure LiveRow (N : Type*) where
  groupKey : String
  instanceId : String
  nodeId : N
  host : String
  port : Int
  state : ModelState
  expiresAt : Time

/-- An entry of the targets file: the address and its labels. -/
structure Target where
  address : String
  group : String
  instanceId : String
  modelTag : String
  engine : String
  deriving DecidableEq, Repr

/-- How far a pass has come. It reads the desired rows and the states once, after the restarts. -/
inductive Phase where
  | between
  | restarting (since : Time) (foreign : String → Bool) (due : List String)
  | converging (since : Time) (foreign : String → Bool) (states : String → Option ModelState)
      (todo : Dict Desired)

/-- A node: its registry, its processes, and the shared rows it reads and writes. -/
structure Site (N : Type*) where
  keys : List String
  inst : String → ModelInstance
  tag : String → Option String := fun _ => none
  alive : Pid → Bool := fun _ => false
  nextPid : Pid := 0
  clock : Time := 0
  desired : Dict Desired := []
  assignment : String → Option N := fun _ => none
  nodes : List N := []
  live : String → Option (LiveRow N) := fun _ => none
  file : List Target := []
  phase : Phase := .between

/-- What the outside answers to one operation: `build_spec`, the pre-flight checks and the device
they chose, the spawn, and the HTTP request of a sleep or wake. -/
structure OpInput where
  spec : Option LaunchSpec := none
  preflight : Bool := true
  gpu : Option String := none
  spawned : Bool := true
  answered : Bool := true

/-- The answers to the probes of a pass: readiness, and the size of the log. -/
abbrev Probes := String → Bool × Option Nat

inductive SiteEvent where
  | call (op : Op) (key : String) (inp : OpInput)
  | exit (proc : Pid)
  | clock (now : Time)
  | reconcile (probes : Probes)
  | next (inp : OpInput)

namespace Site

variable {N : Type*}

def setInst (s : Site N) (key : String) (inst : ModelInstance) : Site N :=
  { s with inst := Function.update s.inst key inst }

/-- `_persist_desired`. -/
def persist (s : Site N) (me : N) (key : String) (desired : Desired) : Site N :=
  { s with
    desired := s.desired.set key desired
    assignment := if desired = .stopped then s.assignment
      else Function.update s.assignment key (some me) }

/-- `_defer_to_owner`. -/
def defer (s : Site N) (key : String) (desired : Desired) : Site N :=
  { s.setInst key (deferSection (s.inst key) desired) with
    desired := s.desired.set key desired
    assignment := if desired = .stopped then s.assignment
      else Function.update s.assignment key none }

/-- The host under which an instance is reached. -/
def routable (cfg : SiteSettings) (inst : ModelInstance) : String :=
  if cfg.nodeHost = "" then inst.host else cfg.nodeHost

/-- The entry of a ready LLM instance. -/
def target (cfg : SiteSettings) (tag : String → Option String) (inst : ModelInstance) :
    Option Target :=
  if inst.kind ≠ .llm ∨ inst.state ≠ .ready then none
  else
    let id := partition inst.key "::"
    some ⟨s!"{routable cfg inst}:{inst.port}", id.1, id.2, (tag inst.key).getD "", inst.engine⟩

/-- `build_targets` over the registry, sorted by address. -/
def buildTargets (cfg : SiteSettings) (s : Site N) : List Target :=
  (s.keys.filterMap fun k => target cfg s.tag (s.inst k)).insertionSort
    fun a b => a.address ≤ b.address

/-- `write_prometheus_targets`. -/
def writeTargets (cfg : SiteSettings) (s : Site N) : Site N := { s with file := s.buildTargets cfg }

/-! ## The operations, to completion -/

/-- `start`. -/
def start (cfg : SiteSettings) (me : N) (s : Site N) (key : String) (resetRestart : Bool)
    (inp : OpInput) : Site N :=
  if cfg.nodeCanRun (s.inst key).engine = false then s.defer key .running
  else match inp.spec, inp.preflight with
    | some spec, true =>
      match startSection (s.inst key) (spec.autoPlace inp.gpu) resetRestart s.clock with
      | .error _ => s
      | .ok inst =>
        if inp.spawned then
          { s.setInst key (startStoreSection inst s.nextPid) with
            alive := Function.update s.alive s.nextPid true
            nextPid := s.nextPid + 1 }.persist me key .running
        else s.setInst key (startFailSection inst)
    | _, _ => s

/-- `stop`. It writes neither the targets nor the live rows. -/
def stop (cfg : SiteSettings) (me : N) (s : Site N) (key : String) : Site N :=
  if cfg.nodeCanRun (s.inst key).engine = false then s.defer key .stopped
  else match stopSection (s.inst key) with
    | (inst, some proc) =>
      { s.setInst key (stopFinalSection inst) with
        alive := Function.update s.alive proc false }.persist me key .stopped
    | (inst, none) => (s.setInst key inst).persist me key .stopped

/-- `sleep`. -/
def sleep (cfg : SiteSettings) (me : N) (s : Site N) (key : String) (answered : Bool) : Site N :=
  if cfg.nodeCanRun (s.inst key).engine = false then s.defer key .asleep
  else if (s.inst key).spec.sleepEnabled = false then s
  else match sleepSection (s.inst key) with
    | .error _ => s
    | .ok inst =>
      if answered then ((s.setInst key (sleepDone inst)).persist me key .asleep).writeTargets cfg
      else s.setInst key (sleepFailed inst)

/-- `wake`. -/
def wake (cfg : SiteSettings) (me : N) (s : Site N) (key : String) (answered : Bool) : Site N :=
  if cfg.nodeCanRun (s.inst key).engine = false then s.defer key .running
  else match wakeSection (s.inst key) with
    | .error _ => s
    | .ok inst =>
      if answered then
        ((s.setInst key (emitTransition cfg.toSettings (wakeDone inst) .ready).1).persist me key
          .running).writeTargets cfg
      else s.setInst key (wakeFailed inst)

/-- One lifecycle operation. An unknown key is `ModelNotFound`. -/
def run (cfg : SiteSettings) (me : N) (s : Site N) (op : Op) (key : String) (resetRestart : Bool)
    (inp : OpInput) : Site N :=
  if key ∈ s.keys then
    match op with
    | .start => s.start cfg me key resetRestart inp
    | .stop => s.stop cfg me key
    | .sleep => s.sleep cfg me key inp.answered
    | .wake => s.wake cfg me key inp.answered
  else s

/-! ## A reconcile pass -/

/-- `_reconcile_instance`: the record, and the transition that was captured. -/
def look (cfg : SiteSettings) (s : Site N) (probes : Probes) (key : String) :
    ModelInstance × Option Transition :=
  match reconcileExit cfg.toSettings s.alive s.clock (s.inst key) with
  | some (inst, tr) => (inst, some tr)
  | none =>
    if (s.inst key).state = .starting ∨ (s.inst key).state = .ready then
      match reconcileProbe cfg.toSettings (s.inst key) (probes key).1 (probes key).2 s.clock with
      | (inst, tr, _) => (inst, tr)
    else (s.inst key, none)

/-- The record once the captured transition was emitted. -/
def emitted (cfg : SiteSettings) (r : ModelInstance × Option Transition) : ModelInstance :=
  match r.2 with
  | some tr => (emitTransition cfg.toSettings r.1 tr.2).1
  | none => r.1

/-- The first half of a pass: every instance is looked at, under the lock. -/
def observe (cfg : SiteSettings) (s : Site N) (probes : Probes) : Site N :=
  { s with inst := fun k => if k ∈ s.keys then emitted cfg (s.look cfg probes k) else s.inst k }

/-- The captured transitions, with their keys. -/
def transitions (cfg : SiteSettings) (s : Site N) (probes : Probes) : List (String × Transition) :=
  s.keys.filterMap fun k => (s.look cfg probes k).2.map fun tr => (k, tr)

/-- `foreign_assignments`. -/
def foreign [DecidableEq N] (s : Site N) (me : N) (key : String) : Bool :=
  (s.assignment key).any fun n => n ≠ me && s.nodes.contains n

/-- The row of a READY instance. -/
def liveRow (cfg : SiteSettings) (me : N) (s : Site N) (key : String) : LiveRow N :=
  let id := partition key "::"
  ⟨id.1, id.2, me, routable cfg (s.inst key), (s.inst key).port, (s.inst key).state,
    s.clock + cfg.liveTtl⟩

/-- `_backfill_node_state`: rows of instances that a captured transition took out of READY are
removed, READY instances are written, and what has expired is pruned. -/
def backfill [DecidableEq N] (cfg : SiteSettings) (me : N) (s : Site N)
    (trs : List (String × Transition)) : Site N :=
  { s with live := fun k =>
      if k ∈ s.keys ∧ s.foreign me k = false ∧ (s.inst k).state = .ready then
        (some (s.liveRow cfg me k)).filter fun row => s.clock < row.expiresAt
      else if trs.any fun t => t.1 = k ∧ t.2.1 = .ready ∧ t.2.2 ≠ .ready then none
      else (s.live k).filter fun row => s.clock < row.expiresAt }

/-- The targets are written when an LLM instance has joined or left the ready pool. -/
def refresh (cfg : SiteSettings) (s : Site N) (trs : List (String × Transition)) : Site N :=
  if trs.any fun t => (s.inst t.1).kind = .llm ∧ (t.2.1 = .ready ∨ t.2.2 = .ready) then
    s.writeTargets cfg
  else s

/-- `_process_restarts` takes every restart that is due, before the first `start`. -/
def takeDue [DecidableEq N] (cfg : SiteSettings) (me : N) (s : Site N) : Site N :=
  let due := if cfg.autoRestart then
    s.keys.filter fun k => restartDue cfg.toSettings (s.foreign me k) s.clock (s.inst k) else []
  { s with
    inst := fun k => if k ∈ due then takeRestart (s.inst k) else s.inst k
    phase := .restarting s.clock (s.foreign me) due }

/-- A pass up to its restarts. -/
def reconcile [DecidableEq N] (cfg : SiteSettings) (me : N) (s : Site N) (probes : Probes) :
    Site N :=
  let trs := s.transitions cfg probes
  (((s.observe cfg probes).backfill cfg me trs).refresh cfg trs).takeDue cfg me

/-- The states that `converge_desired` reads under the lock. -/
def states (s : Site N) (key : String) : Option ModelState :=
  if key ∈ s.keys then some (s.inst key).state else none

/-- What `converge_desired` calls for a row. -/
def action (foreign : String → Bool) (states : String → Option ModelState) (key : String)
    (want : Desired) : Option Op :=
  if foreign key then none else (states key).bind (convergeAction want)

/-- The next call of the rest of a pass. -/
def next (cfg : SiteSettings) (me : N) (s : Site N) (inp : OpInput) : Option (Site N) :=
  match s.phase with
  | .between => none
  | .restarting since foreign (key :: due) =>
    some ({ s with phase := .restarting since foreign due }.run cfg me .start key false inp)
  | .restarting since foreign [] =>
    some { s with phase := .converging since foreign s.states s.desired }
  | .converging since foreign states ((key, want) :: todo) =>
    let s := { s with phase := .converging since foreign states todo }
    some (match action foreign states key want with
      | some op => s.run cfg me op key true inp
      | none => s)
  | .converging _ _ _ [] => some { s with phase := .between }

end Site

open Site

variable {N : Type*} [DecidableEq N]

/-- Operations and passes follow each other; a process may exit at any time. -/
def siteStep (cfg : SiteSettings) (me : N) (s : Site N) : SiteEvent → Option (Site N)
  | .call op key inp =>
    match s.phase with
    | .between => some (s.run cfg me op key true inp)
    | _ => none
  | .exit proc =>
    if s.alive proc then some { s with alive := Function.update s.alive proc false } else none
  | .clock now => if s.clock ≤ now then some { s with clock := now } else none
  | .reconcile probes =>
    match s.phase with
    | .between => some (s.reconcile cfg me probes)
    | _ => none
  | .next inp => s.next cfg me inp

end Llmops.Node
