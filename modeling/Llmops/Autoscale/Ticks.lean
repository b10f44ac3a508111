import Llmops.Autoscale.Decide
import Llmops.Lib.Timer
import Mathlib

/-!
# The ticks of the autoscaler

`Autoscaler.tick` for one group (`autoscaler.py:123-151`), with the load that `load_monitor_loop`
computed last. The two loops run independently: a tick has the metrics and the registry snapshot of
the monitor, its own snapshot and its own policy.

* `scaleDown_idle`: every replica that is put to sleep or stopped is so after a window of ticks, of
  the length the policy says, at which the running and waiting of the READY replicas added up to 0.
  What a replica does not report counts as 0 in the sums;
* `scaleDown_unreported`: a group of which nothing is reported is therefore scaled down.

A tick of the window at which the policy was off, or the floor not met, does not look at the load,
and leaves the timer running.
-/

namespace Llmops.Autoscale

open Llmops.Lib

/-! ## One tick -/

/-- What a tick finds: the policy of the group, what the load monitor had, the registry. -/
structure Tick where
  cfg : AutoscaleConfig
  metrics : RouterMetrics
  monitored : List ModelInstance
  snapshot : List ModelInstance
  now : Time

/-- The instances of a group, as `tick` collects them. -/
def byGroup (snapshot : List ModelInstance) (group : String) : List Inst :=
  (snapshot.filter fun inst => groupOf inst.key = group).map fun inst => ⟨inst.key, inst.state⟩

/-- Whether some instance of the group has the sleep mode. -/
def sleepCapable (snapshot : List ModelInstance) (group : String) : Bool :=
  snapshot.any fun inst => inst.spec.sleepEnabled && (groupOf inst.key == group)

namespace Tick

/-- The instances of the group at the tick. -/
def instances (t : Tick) (group : String) : List Inst := byGroup t.snapshot group

/-- The entry of `load_stats` for the group. -/
def load (t : Tick) (group : String) : GroupLoad := loadOf t.monitored t.metrics group

/-- The decision of the tick; a group without an instance is not visited. -/
def act (t : Tick) (group : String) (timing : GroupTiming) : List Action × GroupTiming :=
  if t.instances group = [] then ([], timing)
  else decide t.cfg (t.load group) (t.instances group) (sleepCapable t.snapshot group) timing t.now

/-- The tick looks at the load of the group. -/
def Looks (group : String) (t : Tick) : Prop :=
  t.instances group ≠ [] ∧ Autoscale.Looks t.cfg (t.instances group)

instance (group : String) (t : Tick) : Decidable (t.Looks group) :=
  inferInstanceAs (Decidable (_ ∧ _))

/-- The running and waiting of the READY replicas add up to 0, a value that is missing, `null` or
not a number counting as 0: each is 0 then, unless one is negative. -/
structure CountsIdle (group : String) (t : Tick) : Prop where
  running : ((readyReplicas t.monitored group).map
    fun i => num (reported t.metrics i.key).running).sum = 0
  waiting : ((readyReplicas t.monitored group).map
    fun i => num (reported t.metrics i.key).waiting).sum = 0
  each : (∀ i ∈ readyReplicas t.monitored group, 0 ≤ num (reported t.metrics i.key).running ∧
      0 ≤ num (reported t.metrics i.key).waiting) →
    ∀ i ∈ readyReplicas t.monitored group, num (reported t.metrics i.key).running = 0 ∧
      num (reported t.metrics i.key).waiting = 0

/-- Every READY replica reports a running and a waiting of 0. -/
def ReportsIdle (group : String) (t : Tick) : Prop :=
  (aggregateLoad t.monitored t.metrics group).isSome ∧
    ∀ i ∈ readyReplicas t.monitored group, (reported t.metrics i.key).running = .num 0 ∧
      (reported t.metrics i.key).waiting = .num 0

variable {t : Tick} {group : String} {timing : GroupTiming}

/-- The totals that `decide` tests are these sums. -/
theorem CountsIdle.of_load (h : (t.load group).runningTotal = 0 ∧ (t.load group).waitingTotal = 0) :
    t.CountsIdle group := by
  obtain ⟨hrun, hwait⟩ := h
  unfold load at hrun hwait
  rw [loadOf_runningTotal] at hrun
  rw [loadOf_waitingTotal] at hwait
  refine ⟨hrun, hwait, fun hnonneg i hi => ⟨?_, ?_⟩⟩
  · refine List.all_zero_of_le_zero_le_of_sum_eq_zero ?_ hrun (List.mem_map_of_mem hi)
    intro x hx
    obtain ⟨j, hj, rfl⟩ := List.mem_map.mp hx
    exact (hnonneg j hj).1
  · refine List.all_zero_of_le_zero_le_of_sum_eq_zero ?_ hwait (List.mem_map_of_mem hi)
    intro x hx
    obtain ⟨j, hj, rfl⟩ := List.mem_map.mp hx
    exact (hnonneg j hj).2

/-- A tick is a decision, or does not visit the group. -/
theorem act_cases (t : Tick) (group : String) (timing : GroupTiming) :
    (t.instances group = [] ∧ t.act group timing = ([], timing)) ∨
    (t.instances group ≠ [] ∧ Decision t.cfg (t.load group) (t.instances group) timing t.now
      (t.act group timing).1 (t.act group timing).2) := by
  unfold act
  by_cases hnone : t.instances group = []
  · rw [if_pos hnone]
    exact .inl ⟨hnone, rfl⟩
  · rw [if_neg hnone]
    exact .inr ⟨hnone, decide_decision ..⟩

end Tick

/-! ## A run of ticks -/

/-- The timing of a group after a run of ticks, from a fresh autoscaler. -/
def timingAfter (group : String) (ticks : List Tick) : GroupTiming :=
  ticks.foldl (fun timing t => (t.act group timing).2) {}

theorem timingAfter_snoc (group : String) (ticks : List Tick) (t : Tick) :
    timingAfter group (ticks ++ [t]) = (t.act group (timingAfter group ticks)).2 := by
  simp [timingAfter, List.foldl_append]

/-- The idle timer stands for ticks that counted as idle. -/
def IdleSound (group : String) (ticks : List Tick) (timing : GroupTiming) : Prop :=
  Timer.Sound (Tick.CountsIdle group) (Tick.Looks group) Tick.now ticks timing.idleSince

variable {group : String} {ticks : List Tick} {t : Tick} {timing : GroupTiming}

/-- **Every tick keeps the idle timer sound.** -/
theorem IdleSound.tick (h : IdleSound group ticks timing) (t : Tick) :
    IdleSound group (ticks ++ [t]) (t.act group timing).2 := by
  rcases t.act_cases group timing with ⟨hnone, hact⟩ | ⟨hsome, hdecision⟩
  · rw [hact]
    exact h.keep fun hlooks => hlooks.1 hnone
  · generalize t.act group timing = acted at hdecision
    obtain ⟨actions, timing'⟩ := acted
    unfold IdleSound
    cases hdecision with
    | off hoff =>
      refine h.keep fun hlooks => ?_
      rw [hlooks.2.1] at hoff
      exact absurd hoff (by rintro ⟨⟩)
    | floor hon hfloor => exact h.keep fun hlooks => absurd hlooks.2.2 (Int.not_le.mpr hfloor)
    | waits hlooks hover => exact .reset
    | raised hlooks hover hwindow hcooled hcap => exact .reset
    | busy hlooks hover hbusy => exact .reset
    | idle hlooks hover hidle hone hvictim => exact h.arm ⟨hsome, hlooks⟩ (.of_load hidle)

/-- After any run of ticks the idle timer is sound. -/
theorem idleSound_timingAfter (group : String) (ticks : List Tick) :
    IdleSound group ticks (timingAfter group ticks) := by
  induction ticks using List.reverseRecOn with
  | nil => exact Timer.Sound.reset
  | append_singleton ticks t ih =>
    rw [timingAfter_snoc]
    exact ih.tick t

/-! ## Scale-down -/

/-- Whatever a tick puts to sleep or stops, a READY replica or a sleeping one, `good` has lasted for
`sleep_after_s`, or for `stop_after_s`. -/
def ScaleDownAfter (good : Tick → Prop) (group : String) (ticks : List Tick) (t : Tick) : Prop :=
  ∀ verb key, (verb, key) ∈ (t.act group (timingAfter group ticks)).1 →
    verb = .sleep ∨ verb = .stop →
    (key ∈ keysIn .ready (t.instances group) ∧
      Lasted good (Tick.Looks group) Tick.now (ticks ++ [t]) t.now t.cfg.sleepAfterS) ∨
    (key ∈ keysIn .sleeping (t.instances group) ∧
      Lasted good (Tick.Looks group) Tick.now (ticks ++ [t]) t.now t.cfg.stopAfterS)

/-- The floor and the scale-up only wake and start. -/
theorem not_mem_bringUp {instances : List Inst} {verb : Verb} {key : String}
    (hverb : verb = .sleep ∨ verb = .stop) : (verb, key) ∉ bringUp instances := by
  intro hmem
  rcases bringUp_cases instances with ⟨key', -, hup⟩ | ⟨-, key', -, hup⟩ | ⟨-, -, hup⟩
  · rw [hup] at hmem
    rcases hverb with rfl | rfl <;> simp at hmem
  · rw [hup] at hmem
    rcases hverb with rfl | rfl <;> simp at hmem
  · rw [hup] at hmem
    simp at hmem

/-- **A scale-down follows a window that counts as idle**, for every group and every run of ticks,
whatever the policies, the metrics and the snapshots are. -/
theorem scaleDown_idle (group : String) (ticks : List Tick) (t : Tick) :
    ScaleDownAfter (Tick.CountsIdle group) group ticks t := by
  intro verb key hmem hverb
  have hsound := idleSound_timingAfter group ticks
  rcases t.act_cases group (timingAfter group ticks) with ⟨-, hact⟩ | ⟨hsome, hdecision⟩
  · rw [hact] at hmem
    simp at hmem
  · generalize t.act group (timingAfter group ticks) = acted at hmem hdecision
    obtain ⟨actions, timing'⟩ := acted
    dsimp only at hmem hdecision
    cases hdecision with
    | off hoff => simp at hmem
    | floor hon hfloor => exact absurd hmem (not_mem_bringUp hverb)
    | waits hlooks hover => simp at hmem
    | raised hlooks hover hwindow hcooled hcap => exact absurd hmem (not_mem_bringUp hverb)
    | busy hlooks hover hbusy => simp at hmem
    | idle hlooks hover hidle hone hvictim =>
      have harmed := hsound.arm (e := t) ⟨hsome, hlooks⟩ (.of_load hidle)
      cases hvictim verb key hmem with
      | ready hkey hverb hlong hfloor => exact .inl ⟨hkey, harmed.lasted hlong⟩
      | asleep hkey hlong hfloor => exact .inr ⟨hkey, harmed.lasted hlong⟩

/-! ## Nothing reported -/

/-- A READY replica of the registry. -/
def readyInstance (key : String) : ModelInstance :=
  { ModelInstance.ofSpec
      { key := key, kind := .llm, command := [], env := [], logPath := "", host := "127.0.0.1",
        port := 8001, probeUrl := "" } with state := .ready }

/-- A tick over two READY replicas of group `M`, with the default policy. -/
def twoReady (metrics : RouterMetrics) (now : Time) : Tick where
  cfg := { enabled := true }
  metrics := metrics
  monitored := [readyInstance "M::a", readyInstance "M::b"]
  snapshot := [readyInstance "M::a", readyInstance "M::b"]
  now := now

/-- The scrape of `M::a` fails and `M::b` is missing. -/
def failedScrape : RouterMetrics := fetchRouterMetrics "http://router"
  (some (200, fun group =>
    if group = "M" then some fun id => if id = "a" then some (safeFetch none).toDict else none
    else none))

theorem stops_failedScrape :
    ((twoReady failedScrape 180).act "M" (timingAfter "M" [twoReady failedScrape 0])).1 =
      [(.stop, "M::b")] := by
  decide +kernel

/-- **A group of which nothing is reported is scaled down**: while every scrape fails, a READY
replica is stopped once `sleep_after_s` is over. -/
theorem scaleDown_unreported :
    ¬ ∀ (group : String) (ticks : List Tick) (t : Tick),
      ScaleDownAfter (Tick.ReportsIdle group) group ticks t := by
  intro h
  have hlasted : Lasted (Tick.ReportsIdle "M") (Tick.Looks "M") Tick.now
      ([twoReady failedScrape 0] ++ [twoReady failedScrape 180]) 180 180 := by
    rcases h "M" [twoReady failedScrape 0] (twoReady failedScrape 180) .stop "M::b"
      (by rw [stops_failedScrape]; exact List.mem_singleton_self _) (.inr rfl) with hready | hasleep
    · exact hready.2
    · exact absurd hasleep.1 (by decide +kernel)
  have hreports := hlasted.last (by decide +kernel)
  have hready : readyInstance "M::a" ∈ readyReplicas (twoReady failedScrape 180).monitored "M" :=
    List.mem_filter.mpr ⟨List.mem_cons_self .., by decide +kernel⟩
  exact absurd (hreports.2 _ hready).1 (by decide +kernel)

end Llmops.Autoscale
