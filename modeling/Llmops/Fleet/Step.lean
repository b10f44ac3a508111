import Llmops.Fleet.Place
import Llmops.Node.Pass

/-!
# A fleet of nodes over one store, seen from one key

Every node runs its own backend (`Node/Step.lean`) and they share the rows of the key. `step` is
one event of one node, a heartbeat, or a step of a `reschedule_once` pass
(`llmops/scheduler.py:94-117`), which reads the desired rows, the nodes and the assignments at
three awaits and writes what `place` decides at a fourth. Any node may run such a pass: the code
runs them on the leader only, which is a run of this system.

A node acts only while it is in `list_nodes`, and it stays there: no heartbeat is missed. The row
of a node says which engines its backend can run (`NodeAgent._engines`) and a capacity that its
heartbeats change.
-/

namespace Llmops.Fleet

open Llmops.Node (Agent World Store Event Input)

variable {N : Type*}

/-- Where a `reschedule_once` pass of node `leader` is suspended. -/
inductive SchedPc (N : Type*) where
  | idle
  | readDesired (leader : N)
  | readNodes (leader : N) (wanted : Bool)
  | readAssignments (leader : N) (wanted : Bool) (nodes : List (NodeRow N))
  | write (target : N)

/-- The backends, the shared rows of the key, and the passes of the scheduler. -/
structure Cluster (N : Type*) where
  agent : N → Agent N
  store : Store N
  capacity : N → Option (List Gpu) := fun _ => none
  sched : Nat → SchedPc N := fun _ => .idle

/-- What can happen in a fleet. -/
inductive FleetEvent (N : Type*) where
  | on (n : N) (e : Event N)
  | heartbeat (n : N) (capacity : Option (List Gpu))
  | schedule (i : Nat) (leader : N)
  | sched (i : Nat)

namespace Cluster

/-- Node `n`'s backend with the shared rows. -/
def world (f : Cluster N) (n : N) : World N := { toAgent := f.agent n, store := f.store }

/-- What `list_nodes` returns. -/
def rows (cfg : N → Settings) (f : Cluster N) : List (NodeRow N) :=
  f.store.nodes.map fun n =>
    { nodeId := n
      capacity := f.capacity n
      engines := if (cfg n).nodeEngines.isEmpty then none else some (cfg n).nodeEngines }

/-- `_key_engines` of node `n`, for the key. -/
def keyEngine (f : Cluster N) (n : N) : Option String :=
  if (f.agent n).registered then some (f.agent n).inst.engine else none

/-- Node `n`'s backend and the rows, replaced. -/
def setWorld [DecidableEq N] (f : Cluster N) (n : N) (w : World N) : Cluster N :=
  { f with agent := Function.update f.agent n w.toAgent, store := w.store }

def gotoSched (f : Cluster N) (i : Nat) (pc : SchedPc N) : Cluster N :=
  { f with sched := Function.update f.sched i pc }

end Cluster

/-- A `reschedule_once` pass runs up to its next await. -/
def schedStep [LinearOrder N] (cfg : N → Settings) (f : Cluster N) (i : Nat) :
    SchedPc N → Option (Cluster N)
  | .idle => none
  | .readDesired leader =>
    some (f.gotoSched i (.readNodes leader (f.store.desired = some .running)))
  | .readNodes leader wanted => some (f.gotoSched i (.readAssignments leader wanted (f.rows cfg)))
  | .readAssignments leader wanted nodes =>
    some (f.gotoSched i
      (match wanted,
          placeKey nodes f.store.assignment ((f.keyEngine leader).getD "vllm") with
        | true, some target => .write target
        | _, _ => .idle))
  | .write target =>
    some ({ f with store := { f.store with assignment := some target } }.gotoSched i .idle)

/-- One event of a fleet whose nodes have the given settings. -/
def step [LinearOrder N] (cfg : N → Settings) (f : Cluster N) : FleetEvent N → Option (Cluster N)
  | .on _ (.store _) => none
  | .on n e =>
    if n ∈ f.store.nodes then (Node.step (cfg n) n (f.world n) e).map (f.setWorld n) else none
  | .heartbeat n capacity => some { f with capacity := Function.update f.capacity n capacity }
  | .schedule i leader =>
    match f.sched i with
    | .idle => some (f.gotoSched i (.readDesired leader))
    | _ => none
  | .sched i => schedStep cfg f i (f.sched i)

end Llmops.Fleet
