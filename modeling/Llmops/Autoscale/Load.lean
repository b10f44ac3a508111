import Llmops.Instance
import Llmops.Lib.Text
import Mathlib

/-!
# The load of a group

What reaches the autoscaler of a replica's metrics: `VLLMInstanceMetrics`, `to_dict` and
`_safe_fetch` of the router (`vllm_metrics_client.py:10-52, 104-124`), and `_num`, `aggregate_load`
and `fetch_router_metrics` of the backend (`load_monitor.py:35-93`).

A metric that the router cannot read is infinite there, `null` in its JSON and 0 in the sums of the
backend. Metrics are rationals: a sum of floats that are not negative is 0 exactly when each is.

* `loadOf_waitingTotal`, `loadOf_runningTotal`: the totals are the sums over the READY replicas of
  the group;
* `loadOf_waitingPerReplica`: without a READY replica the scaling signal is 0;
* `safeFetch_none_counts_zero`: a replica whose scrape fails counts as one without load.
-/

namespace Llmops.Autoscale

open Llmops.Lib

/-! ## The router's side -/

/-- `VLLMInstanceMetrics`, the fields that the backend reads. -/
structure InstanceMetrics where
  running : WithTop ℚ := 0
  waiting : WithTop ℚ := 0
  kvCacheUsagePerc : WithTop ℚ := 0

/-- A JSON value as `float` takes it: `null`, what reads as a number, or anything else. -/
inductive Value where
  | null
  | num (x : ℚ)
  | bad
  deriving DecidableEq, Repr

/-- The metrics of one replica in the JSON of the router; a missing field reads as `null`. -/
structure MetricsDict where
  running : Value := .null
  waiting : Value := .null
  kvCacheUsagePerc : Value := .null
  deriving DecidableEq, Repr

/-- `None if math.isinf(x) else x`. -/
def finite : WithTop ℚ → Value
  | none => .null
  | some x => .num x

/-- `to_dict`. -/
def InstanceMetrics.toDict (m : InstanceMetrics) : MetricsDict where
  running := finite m.running
  waiting := finite m.waiting
  kvCacheUsagePerc := finite m.kvCacheUsagePerc

/-- `_safe_fetch`: the scrape, or the sentinel where `fetch` raised. -/
def safeFetch (fetched : Option InstanceMetrics) : InstanceMetrics :=
  fetched.getD ⟨⊤, ⊤, ⊤⟩

/-- The JSON of `GET /metrics`: by group, then by instance id. -/
abbrev RouterMetrics := String → Option (String → Option MetricsDict)

/-- `fetch_router_metrics`: nothing, unless the router answers 200. -/
def fetchRouterMetrics (routerUrl : String) (answer : Option (Nat × RouterMetrics)) :
    RouterMetrics :=
  if routerUrl = "" then fun _ => none
  else match answer with
    | some (200, metrics) => metrics
    | _ => fun _ => none

/-! ## Aggregation -/

/-- `_num`. -/
def num : Value → ℚ
  | .num x => x
  | .null | .bad => 0

/-- The group of a registry key. -/
def groupOf (key : String) : String := (partition key "::").1

/-- The instance id of a registry key. -/
def instanceId (key : String) : String := (partition key "::").2

/-- `GroupLoad`. -/
structure GroupLoad where
  readyReplicas : Nat := 0
  asleepReplicas : Nat := 0
  stoppedReplicas : Nat := 0
  waitingTotal : ℚ := 0
  runningTotal : ℚ := 0
  waitingPerReplica : ℚ := 0
  kvAvg : ℚ := 0
  deriving DecidableEq, Repr

/-- The metrics that the router reports of one key. -/
def reported (metrics : RouterMetrics) (key : String) : MetricsDict :=
  ((metrics (groupOf key)).bind fun replicas => replicas (instanceId key)).getD {}

/-- What one instance of a group adds to its load. -/
def GroupLoad.add (gl : GroupLoad) (state : ModelState) (m : MetricsDict) : GroupLoad :=
  match state with
  | .ready =>
    { gl with
      readyReplicas := gl.readyReplicas + 1
      waitingTotal := gl.waitingTotal + num m.waiting
      runningTotal := gl.runningTotal + num m.running }
  | .sleeping => { gl with asleepReplicas := gl.asleepReplicas + 1 }
  | .stopped => { gl with stoppedReplicas := gl.stoppedReplicas + 1 }
  | .starting | .failed | .stopping => gl

/-- The two dicts of the loop of `aggregate_load`. -/
structure Tally where
  groups : String → Option GroupLoad := fun _ => none
  kvSamples : String → List ℚ := fun _ => []

/-- The body of the loop. -/
def tally (metrics : RouterMetrics) (t : Tally) (inst : ModelInstance) : Tally :=
  if inst.kind ≠ .llm then t
  else
    let group := groupOf inst.key
    let m := reported metrics inst.key
    let gl := (t.groups group).getD {}
    { groups := Function.update t.groups group (some (gl.add inst.state m))
      kvSamples :=
        if inst.state = .ready ∧ m.kvCacheUsagePerc ≠ .null then
          Function.update t.kvSamples group (t.kvSamples group ++ [num m.kvCacheUsagePerc])
        else t.kvSamples }

/-- The second loop: the means. -/
def GroupLoad.finish (gl : GroupLoad) (samples : List ℚ) : GroupLoad :=
  { gl with
    waitingPerReplica :=
      if gl.readyReplicas ≠ 0 then gl.waitingTotal / gl.readyReplicas else gl.waitingPerReplica
    kvAvg := if samples ≠ [] then samples.sum / samples.length else gl.kvAvg }

/-- `aggregate_load`. -/
def aggregateLoad (instances : List ModelInstance) (metrics : RouterMetrics) :
    String → Option GroupLoad := fun group =>
  let t := instances.foldl (tally metrics) {}
  (t.groups group).map fun gl => gl.finish (t.kvSamples group)

/-! ## What the totals are -/

/-- The READY replicas of a group. -/
def readyReplicas (instances : List ModelInstance) (group : String) : List ModelInstance :=
  instances.filter fun inst => inst.kind = .llm ∧ groupOf inst.key = group ∧ inst.state = .ready

variable {metrics : RouterMetrics} {group : String} {t : Tally} {inst : ModelInstance}

/-- **A failed scrape counts as no load**: the sentinel of the router is a 0 of the backend. -/
theorem safeFetch_none_counts_zero :
    num (safeFetch none).toDict.waiting = 0 ∧ num (safeFetch none).toDict.running = 0 :=
  ⟨rfl, rfl⟩

/-- The entry of a group after one instance. -/
theorem tally_groups (metrics : RouterMetrics) (t : Tally) (inst : ModelInstance) (group : String) :
    (tally metrics t inst).groups group =
      if inst.kind = .llm ∧ groupOf inst.key = group then
        some (((t.groups group).getD {}).add inst.state (reported metrics inst.key))
      else t.groups group := by
  unfold tally
  by_cases hkind : inst.kind = .llm
  · rw [if_neg (not_not.mpr hkind)]
    by_cases hgroup : groupOf inst.key = group
    · rw [if_pos ⟨hkind, hgroup⟩, ← hgroup]
      exact Function.update_self ..
    · rw [if_neg fun h => hgroup h.2]
      exact Function.update_of_ne (Ne.symm hgroup) ..
  · rw [if_pos hkind, if_neg fun h => hkind h.1]

/-- A quantity that only READY replicas add to is, in the entry of a group, the sum of what the
READY replicas of the group add. -/
theorem foldl_total {A : Type*} [AddMonoid A] (total : GroupLoad → A) (part : MetricsDict → A)
    (hadd : ∀ gl state m, total (gl.add state m) = total gl + if state = .ready then part m else 0)
    (metrics : RouterMetrics) (group : String) (instances : List ModelInstance) (t : Tally) :
    total (((instances.foldl (tally metrics) t).groups group).getD {}) =
      total ((t.groups group).getD {}) +
        ((readyReplicas instances group).map fun inst => part (reported metrics inst.key)).sum := by
  induction instances generalizing t with
  | nil => simp [readyReplicas]
  | cons inst instances ih =>
    rw [List.foldl_cons, ih, tally_groups]
    unfold readyReplicas
    by_cases hmember : inst.kind = .llm ∧ groupOf inst.key = group
    · rw [if_pos hmember, Option.getD_some, hadd]
      by_cases hready : inst.state = .ready
      · simp [hmember.1, hmember.2, hready, add_assoc]
      · simp [hready]
    · have hnot : ¬ (inst.kind = .llm ∧ groupOf inst.key = group ∧ inst.state = .ready) :=
        fun h => hmember ⟨h.1, h.2.1⟩
      rw [if_neg hmember, List.filter_cons_of_neg (by simpa using hnot)]

/-- The entry of `load_stats` for a group, all 0 where there is none. -/
def loadOf (instances : List ModelInstance) (metrics : RouterMetrics) (group : String) : GroupLoad :=
  (aggregateLoad instances metrics group).getD {}

/-- The entry is what the loop made, with the means. -/
theorem loadOf_eq_finish (instances : List ModelInstance) (metrics : RouterMetrics)
    (group : String) : ∃ samples, loadOf instances metrics group =
      (((instances.foldl (tally metrics) {}).groups group).getD {}).finish samples := by
  unfold loadOf aggregateLoad
  dsimp only
  cases (instances.foldl (tally metrics) {}).groups group with
  | none => exact ⟨[], rfl⟩
  | some gl => exact ⟨_, rfl⟩

theorem loadOf_waitingTotal (instances : List ModelInstance) (metrics : RouterMetrics)
    (group : String) : (loadOf instances metrics group).waitingTotal =
      ((readyReplicas instances group).map fun i => num (reported metrics i.key).waiting).sum := by
  obtain ⟨samples, hload⟩ := loadOf_eq_finish instances metrics group
  rw [hload]
  refine (foldl_total (·.waitingTotal) (fun m => num m.waiting) ?_ metrics group instances
    {}).trans (zero_add _)
  intro gl state m
  cases state <;> simp [GroupLoad.add]

theorem loadOf_runningTotal (instances : List ModelInstance) (metrics : RouterMetrics)
    (group : String) : (loadOf instances metrics group).runningTotal =
      ((readyReplicas instances group).map fun i => num (reported metrics i.key).running).sum := by
  obtain ⟨samples, hload⟩ := loadOf_eq_finish instances metrics group
  rw [hload]
  refine (foldl_total (·.runningTotal) (fun m => num m.running) ?_ metrics group instances
    {}).trans (zero_add _)
  intro gl state m
  cases state <;> simp [GroupLoad.add]

/-- **Without a READY replica there is no signal**, whatever the router reports. -/
theorem loadOf_waitingPerReplica {instances : List ModelInstance}
    (hnone : readyReplicas instances group = []) :
    (loadOf instances metrics group).waitingPerReplica = 0 := by
  obtain ⟨samples, hload⟩ := loadOf_eq_finish instances metrics group
  have hcount := foldl_total (·.readyReplicas) (fun _ => 1)
    (by intro gl state m; cases state <;> simp [GroupLoad.add]) metrics group instances {}
  have hsignal := foldl_total (·.waitingPerReplica) (fun _ => 0)
    (by intro gl state m; cases state <;> simp [GroupLoad.add]) metrics group instances {}
  rw [hnone] at hcount hsignal
  rw [hload]
  unfold GroupLoad.finish
  dsimp only at hcount hsignal ⊢
  rw [if_neg (not_not.mpr (hcount.trans (by simp)))]
  exact hsignal.trans (by simp)

end Llmops.Autoscale
