import Llmops.Autoscale.Load

/-!
# The decision of one tick

`AutoscaleConfig` (`schema.py:86-102`), `AutoscaleRequest` and what `set_group_autoscale` keeps of it
(`api/models.py:223-260`), and `GroupTiming`, `decide` (`autoscaler.py:39-111`).

`decide` is split at its three comments: the floor (`bringUp`), the scale-up under queue pressure
(`scaleUp`) and the scale-down of an idle group (`scaleDown`). `Decision` says what a call can do.
-/

namespace Llmops.Autoscale

/-! ## Policies -/

/-- `AutoscaleConfig`. -/
structure AutoscaleConfig where
  enabled : Bool := false
  minReady : Int := 1
  minWarm : Int := 1
  maxReady : Option Int := none
  scaleUpWaiting : ℚ := 4
  scaleUpWindowS : ℚ := 20
  sleepAfterS : ℚ := 180
  stopAfterS : ℚ := 900
  cooldownS : ℚ := 60
  deriving DecidableEq, Repr

/-- `AutoscaleRequest`, as the API accepts it: with the bounds of its fields. -/
structure AutoscaleRequest where
  enabled : Bool := false
  minReady : Int := 1
  maxReady : Option Int := none
  minWarm : Option Int := none
  scaleUpWaiting : Option ℚ := none
  scaleUpWindowS : Option ℚ := none
  sleepAfterS : Option ℚ := none
  stopAfterS : Option ℚ := none
  cooldownS : Option ℚ := none
  minReady_ge : 0 ≤ minReady := by decide
  maxReady_ge : ∀ n ∈ maxReady, 1 ≤ n := by simp
  minWarm_ge : ∀ n ∈ minWarm, 0 ≤ n := by simp
  scaleUpWaiting_gt : ∀ x ∈ scaleUpWaiting, 0 < x := by simp
  scaleUpWindowS_ge : ∀ x ∈ scaleUpWindowS, 0 ≤ x := by simp
  sleepAfterS_ge : ∀ x ∈ sleepAfterS, 0 ≤ x := by simp
  stopAfterS_ge : ∀ x ∈ stopAfterS, 0 ≤ x := by simp
  cooldownS_ge : ∀ x ∈ cooldownS, 0 ≤ x := by simp

/-- The policy of a request: the fields left out keep the defaults, and one that is off keeps
nothing else. -/
def AutoscaleRequest.policy (body : AutoscaleRequest) : AutoscaleConfig :=
  let defaults : AutoscaleConfig := {}
  if body.enabled then
    { enabled := true
      minReady := body.minReady
      minWarm := body.minWarm.getD defaults.minWarm
      maxReady := body.maxReady.or defaults.maxReady
      scaleUpWaiting := body.scaleUpWaiting.getD defaults.scaleUpWaiting
      scaleUpWindowS := body.scaleUpWindowS.getD defaults.scaleUpWindowS
      sleepAfterS := body.sleepAfterS.getD defaults.sleepAfterS
      stopAfterS := body.stopAfterS.getD defaults.stopAfterS
      cooldownS := body.cooldownS.getD defaults.cooldownS }
  else defaults

/-- The threshold of an accepted policy is positive. -/
theorem AutoscaleRequest.scaleUpWaiting_pos (body : AutoscaleRequest) :
    0 < body.policy.scaleUpWaiting := by
  unfold policy
  by_cases hon : body.enabled = true
  · rw [if_pos hon]
    cases hw : body.scaleUpWaiting with
    | none => exact show (0 : ℚ) < 4 by decide
    | some x => exact body.scaleUpWaiting_gt x hw
  · rw [if_neg hon]
    exact show (0 : ℚ) < 4 by decide

theorem AutoscaleRequest.policy_minReady {body : AutoscaleRequest} (hon : body.enabled = true) :
    body.policy.minReady = body.minReady := by
  unfold policy
  rw [if_pos hon]

theorem AutoscaleRequest.policy_enabled {body : AutoscaleRequest} (hon : body.enabled = true) :
    body.policy.enabled = true := by
  unfold policy
  rw [if_pos hon]

/-! ## The decision -/

/-- The verbs of an action. -/
inductive Verb where
  | wake | start | sleep | stop
  deriving DecidableEq, Repr

/-- `Action`: a verb and the key of an instance. -/
abbrev Action := Verb × String

/-- `GroupTiming`. -/
structure GroupTiming where
  overSince : Option Time := none
  idleSince : Option Time := none
  lastScaleUp : Time := 0
  deriving DecidableEq, Repr

/-- `_Inst`. -/
structure Inst where
  key : String
  state : ModelState
  deriving DecidableEq, Repr

/-- The keys of the instances in a state, in order. -/
def keysIn (state : ModelState) (instances : List Inst) : List String :=
  (instances.filter (·.state = state)).map (·.key)

/-- `effective_ready`: a starting replica counts as capacity. -/
def effectiveReady (instances : List Inst) : Nat :=
  instances.countP fun i => i.state = .ready ∨ i.state = .starting

/-- Wake a sleeping replica, else start a stopped one. -/
def bringUp (instances : List Inst) : List Action :=
  match keysIn .sleeping instances, keysIn .stopped instances with
  | key :: _, _ => [(.wake, key)]
  | [], key :: _ => [(.start, key)]
  | [], [] => []

/-- Scale up: sustained queue pressure. -/
def scaleUp (cfg : AutoscaleConfig) (instances : List Inst) (timing : GroupTiming) (now : Time) :
    List Action × GroupTiming :=
  let since := timing.overSince.getD now
  let timing := { timing with idleSince := none, overSince := some since }
  let sustained := cfg.scaleUpWindowS ≤ now - since
  let cooled := cfg.cooldownS ≤ now - timing.lastScaleUp
  if sustained ∧ cooled ∧ effectiveReady instances < cfg.maxReady.getD instances.length then
    (bringUp instances, { timing with lastScaleUp := now, overSince := none })
  else ([], timing)

/-- Scale down: only when the whole group is idle. With nothing ready and a negative `min_ready` the
victim `ready[-1]` raises, which is no action either. -/
def scaleDown (cfg : AutoscaleConfig) (load : GroupLoad) (instances : List Inst)
    (sleepCapable : Bool) (timing : GroupTiming) (now : Time) : List Action × GroupTiming :=
  let ready := keysIn .ready instances
  let asleep := keysIn .sleeping instances
  if load.runningTotal = 0 ∧ load.waitingTotal = 0 then
    let since := timing.idleSince.getD now
    let timing := { timing with idleSince := some since }
    if cfg.sleepAfterS ≤ now - since ∧ cfg.minReady < ready.length then
      -- the primary replicas, of lower ids, stay warm
      (ready.getLast?.toList.map fun victim => (if sleepCapable then .sleep else .stop, victim),
        timing)
    else if cfg.stopAfterS ≤ now - since ∧ cfg.minWarm < ready.length + asleep.length then
      (asleep.getLast?.toList.map fun victim => (.stop, victim), timing)
    else ([], timing)
  else ([], { timing with idleSince := none })

/-- `decide`. -/
def decide (cfg : AutoscaleConfig) (load : GroupLoad) (instances : List Inst) (sleepCapable : Bool)
    (timing : GroupTiming) (now : Time) : List Action × GroupTiming :=
  if cfg.enabled = false then ([], timing)
  -- the floor has no cooldown and does not look at the load
  else if effectiveReady instances < cfg.minReady then (bringUp instances, timing)
  else if cfg.scaleUpWaiting < load.waitingPerReplica then scaleUp cfg instances timing now
  else scaleDown cfg load instances sleepCapable { timing with overSince := none } now

/-! ## What a call can do -/

/-- The call looks at the load: the policy is on and the floor is met. -/
def Looks (cfg : AutoscaleConfig) (instances : List Inst) : Prop :=
  cfg.enabled = true ∧ cfg.minReady ≤ effectiveReady instances

instance (cfg : AutoscaleConfig) (instances : List Inst) : Decidable (Looks cfg instances) :=
  inferInstanceAs (Decidable (_ ∧ _))

variable {cfg : AutoscaleConfig} {load : GroupLoad} {instances : List Inst} {sleepCapable : Bool}
  {timing timing' : GroupTiming} {now : Time} {actions : List Action} {verb : Verb} {key : String}

theorem mem_keysIn {state : ModelState} :
    key ∈ keysIn state instances ↔ ∃ i ∈ instances, i.state = state ∧ i.key = key := by
  simp [keysIn, and_assoc]

/-- What `bringUp` names: a sleeping replica to wake, or with none asleep a stopped one to start. -/
theorem bringUp_cases (instances : List Inst) :
    (∃ key ∈ keysIn .sleeping instances, bringUp instances = [(.wake, key)]) ∨
    (keysIn .sleeping instances = [] ∧
      ∃ key ∈ keysIn .stopped instances, bringUp instances = [(.start, key)]) ∨
    (keysIn .sleeping instances = [] ∧ keysIn .stopped instances = [] ∧ bringUp instances = []) := by
  unfold bringUp
  cases hasleep : keysIn .sleeping instances with
  | cons key rest => exact .inl ⟨key, List.mem_cons_self .., rfl⟩
  | nil =>
    cases hstopped : keysIn .stopped instances with
    | cons key rest => exact .inr (.inl ⟨rfl, key, List.mem_cons_self .., rfl⟩)
    | nil => exact .inr (.inr ⟨rfl, rfl, rfl⟩)

/-- The replicas that a scale-down may name, with the time it has to be idle for: a ready one after
`sleep_after_s`, a sleeping one after `stop_after_s`. -/
inductive Victim (cfg : AutoscaleConfig) (instances : List Inst) (idleFor : Time) :
    Verb → String → Prop
  | ready {verb : Verb} {key : String} (hkey : key ∈ keysIn .ready instances)
      (hverb : verb = .sleep ∨ verb = .stop)
      (hidle : cfg.sleepAfterS ≤ idleFor)
      (hfloor : cfg.minReady < (keysIn .ready instances).length) :
      Victim cfg instances idleFor verb key
  | asleep {key : String} (hkey : key ∈ keysIn .sleeping instances) (hidle : cfg.stopAfterS ≤ idleFor)
      (hfloor : cfg.minWarm < (keysIn .ready instances).length +
        (keysIn .sleeping instances).length) :
      Victim cfg instances idleFor .stop key

/-- What a call of `decide` can do to the actions and the timing. -/
inductive Decision (cfg : AutoscaleConfig) (load : GroupLoad) (instances : List Inst)
    (timing : GroupTiming) (now : Time) : List Action → GroupTiming → Prop
  | off (h : cfg.enabled = false) : Decision cfg load instances timing now [] timing
  | floor (hon : cfg.enabled = true) (h : effectiveReady instances < cfg.minReady) :
      Decision cfg load instances timing now (bringUp instances) timing
  | waits (hlooks : Looks cfg instances) (h : cfg.scaleUpWaiting < load.waitingPerReplica) :
      Decision cfg load instances timing now []
        { timing with idleSince := none, overSince := some (timing.overSince.getD now) }
  | raised (hlooks : Looks cfg instances) (h : cfg.scaleUpWaiting < load.waitingPerReplica)
      (hwindow : cfg.scaleUpWindowS ≤ now - timing.overSince.getD now)
      (hcooled : cfg.cooldownS ≤ now - timing.lastScaleUp)
      (hcap : effectiveReady instances < cfg.maxReady.getD instances.length) :
      Decision cfg load instances timing now (bringUp instances)
        { idleSince := none, overSince := none, lastScaleUp := now }
  | busy (hlooks : Looks cfg instances) (h : ¬ cfg.scaleUpWaiting < load.waitingPerReplica)
      (hbusy : ¬ (load.runningTotal = 0 ∧ load.waitingTotal = 0)) :
      Decision cfg load instances timing now []
        { timing with overSince := none, idleSince := none }
  | idle {actions : List Action} (hlooks : Looks cfg instances)
      (h : ¬ cfg.scaleUpWaiting < load.waitingPerReplica)
      (hidle : load.runningTotal = 0 ∧ load.waitingTotal = 0) (hone : actions.length ≤ 1)
      (hvictim : ∀ verb key, (verb, key) ∈ actions →
        Victim cfg instances (now - timing.idleSince.getD now) verb key) :
      Decision cfg load instances timing now actions
        { timing with overSince := none, idleSince := some (timing.idleSince.getD now) }

/-- The action on the last replica of a list, if there is one. -/
theorem mem_last {keys : List String} {f : String → Action} {action : Action}
    (h : action ∈ keys.getLast?.toList.map f) : ∃ victim ∈ keys, f victim = action := by
  obtain ⟨victim, hvictim, heq⟩ := List.mem_map.mp h
  exact ⟨victim, List.mem_of_getLast? (Option.mem_toList.mp hvictim), heq⟩

/-- Every call of `decide` is one of the decisions. -/
theorem decide_decision (cfg : AutoscaleConfig) (load : GroupLoad) (instances : List Inst)
    (sleepCapable : Bool) (timing : GroupTiming) (now : Time) :
    Decision cfg load instances timing now (decide cfg load instances sleepCapable timing now).1
      (decide cfg load instances sleepCapable timing now).2 := by
  unfold decide
  by_cases hoff : cfg.enabled = false
  · rw [if_pos hoff]
    exact .off hoff
  rw [if_neg hoff]
  have hon : cfg.enabled = true := by simpa using hoff
  by_cases hfloor : effectiveReady instances < cfg.minReady
  · rw [if_pos hfloor]
    exact .floor hon hfloor
  rw [if_neg hfloor]
  have hlooks : Looks cfg instances := ⟨hon, Int.not_lt.mp hfloor⟩
  by_cases hover : cfg.scaleUpWaiting < load.waitingPerReplica
  · rw [if_pos hover]
    unfold scaleUp
    by_cases hup : cfg.scaleUpWindowS ≤ now - timing.overSince.getD now ∧
        cfg.cooldownS ≤ now - timing.lastScaleUp ∧
        effectiveReady instances < cfg.maxReady.getD instances.length
    · simp only [hup, and_self, if_true]
      exact .raised hlooks hover hup.1 hup.2.1 hup.2.2
    · simp only [hup, if_false]
      exact .waits hlooks hover
  rw [if_neg hover]
  unfold scaleDown
  by_cases hidle : load.runningTotal = 0 ∧ load.waitingTotal = 0
  · rw [if_pos hidle]
    dsimp only
    by_cases hsleep : cfg.sleepAfterS ≤ now - timing.idleSince.getD now ∧
        cfg.minReady < (keysIn .ready instances).length
    · rw [if_pos hsleep]
      refine .idle hlooks hover hidle ?_ fun verb key hmem => ?_
      · cases (keysIn .ready instances).getLast? <;> simp
      · obtain ⟨victim, hvictim, heq⟩ := mem_last hmem
        cases heq
        refine .ready hvictim ?_ hsleep.1 hsleep.2
        cases sleepCapable
        · exact .inr rfl
        · exact .inl rfl
    rw [if_neg hsleep]
    by_cases hstop : cfg.stopAfterS ≤ now - timing.idleSince.getD now ∧
        cfg.minWarm < (keysIn .ready instances).length + (keysIn .sleeping instances).length
    · rw [if_pos hstop]
      refine .idle hlooks hover hidle ?_ fun verb key hmem => ?_
      · cases (keysIn .sleeping instances).getLast? <;> simp
      · obtain ⟨victim, hvictim, heq⟩ := mem_last hmem
        cases heq
        exact .asleep hvictim hstop.1 hstop.2
    · rw [if_neg hstop]
      exact .idle hlooks hover hidle (Nat.zero_le _) (by simp)
  · rw [if_neg hidle]
    exact .busy hlooks hover hidle

end Llmops.Autoscale
