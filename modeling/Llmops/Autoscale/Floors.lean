import Llmops.Autoscale.Ticks

/-!
# Floors and caps

What `decide` (`autoscaler.py:53-111`) may do to the counts of a group under a policy of the API: at
most one action, on a replica in the state it applies to, that takes neither the READY count below
`min_ready` nor the resident one below `min_warm`, and no pressure scale-up at `max_ready`.

The scale-down of a sleeping replica looks at `min_warm`. That of a READY one looks at `min_ready`
alone, and in a group without the sleep mode it is a stop, so that the replica is not resident any
more.

* `floorsAndCaps_iff`: the floors and caps are kept exactly when no such stop is due;
* `stops_last_resident`: with `min_ready: 0` the last resident replica is stopped.
-/

namespace Llmops.Autoscale

/-! ## Applying an action -/

/-- The state that an action brings its replica to. -/
def Verb.brings : Verb → ModelState
  | .wake => .ready
  | .start => .starting
  | .sleep => .sleeping
  | .stop => .stopped

/-- The states that an action applies to. -/
def Verb.Applies : Verb → ModelState → Prop
  | .wake, state => state = .sleeping
  | .start, state => state = .stopped
  | .sleep, state => state = .ready
  | .stop, state => state = .ready ∨ state = .sleeping

/-- The group after an action. -/
def applied (instances : List Inst) (action : Action) : List Inst :=
  instances.map fun i => if i.key = action.2 then { i with state := action.1.brings } else i

/-- The number of READY replicas. -/
def readyCount (instances : List Inst) : Nat := (keysIn .ready instances).length

/-- `resident`: READY and SLEEPING replicas. -/
def residentCount (instances : List Inst) : Nat :=
  (keysIn .ready instances).length + (keysIn .sleeping instances).length

/-- A count is not taken below a floor. -/
def Above (floor : Int) (before after : Nat) : Prop := floor ≤ after ∨ before ≤ after

/-- The floors and caps of a policy, for the actions of one call. A wake or a start with the floor met
is a pressure scale-up. -/
structure FloorsAndCaps (cfg : AutoscaleConfig) (instances : List Inst) (actions : List Action) :
    Prop where
  one : actions.length ≤ 1
  applies : ∀ a ∈ actions, ∃ i ∈ instances, i.key = a.2 ∧ a.1.Applies i.state
  minReady : ∀ a ∈ actions,
    Above cfg.minReady (readyCount instances) (readyCount (applied instances a))
  minWarm : ∀ a ∈ actions,
    Above cfg.minWarm (residentCount instances) (residentCount (applied instances a))
  maxReady : ∀ a ∈ actions, a.1 = .wake ∨ a.1 = .start →
    cfg.minReady ≤ effectiveReady instances →
      effectiveReady instances < cfg.maxReady.getD instances.length
  wakesFirst : ∀ a ∈ actions, a.1 = .start → keysIn .sleeping instances = []

/-- A READY replica beyond `min_ready` is due: the call looks at the load, there is no pressure, and
the group has been idle for `sleep_after_s`. -/
structure DueDown (cfg : AutoscaleConfig) (load : GroupLoad) (instances : List Inst)
    (timing : GroupTiming) (now : Time) : Prop where
  looks : Looks cfg instances
  calm : ¬ cfg.scaleUpWaiting < load.waitingPerReplica
  idle : load.runningTotal = 0 ∧ load.waitingTotal = 0
  long : cfg.sleepAfterS ≤ now - timing.idleSince.getD now
  spare : cfg.minReady < readyCount instances

variable {cfg : AutoscaleConfig} {load : GroupLoad} {instances : List Inst} {sleepCapable : Bool}
  {timing : GroupTiming} {now : Time} {verb : Verb} {key : String} {state : ModelState} {i : Inst}

theorem length_keysIn (state : ModelState) (instances : List Inst) :
    (keysIn state instances).length = instances.countP (·.state = state) := by
  rw [keysIn, List.length_map, List.countP_eq_length_filter]

/-- An action on another key changes nothing. -/
theorem applied_of_notMem (h : key ∉ instances.map Inst.key) :
    applied instances (verb, key) = instances := by
  unfold applied
  refine (List.map_congr_left fun i hi => ?_).trans (List.map_id instances)
  have hne : i.key ≠ key := fun heq => h (heq ▸ List.mem_map_of_mem hi)
  rw [if_neg hne]
  rfl

/-- **What an action does to a count**: the replica leaves its state for the new one. -/
theorem countP_applied (state : ModelState) (verb : Verb)
    (hunique : (instances.map Inst.key).Nodup) (hi : i ∈ instances) :
    (applied instances (verb, i.key)).countP (·.state = state) + (if i.state = state then 1 else 0) =
      instances.countP (·.state = state) + (if verb.brings = state then 1 else 0) := by
  induction instances with
  | nil => exact absurd hi List.not_mem_nil
  | cons j rest ih =>
    rw [List.map_cons, List.nodup_cons] at hunique
    have hcons : applied (j :: rest) (verb, i.key) =
        (if j.key = i.key then { j with state := verb.brings } else j) ::
          applied rest (verb, i.key) := rfl
    rw [hcons, List.countP_cons, List.countP_cons]
    by_cases hkey : j.key = i.key
    · have hij : i = j := by
        rcases List.mem_cons.mp hi with hij | hrest
        · exact hij
        · exact absurd (hkey ▸ List.mem_map_of_mem hrest) hunique.1
      subst hij
      rw [if_pos rfl, applied_of_notMem hunique.1]
      simp only [decide_eq_true_eq]
      omega
    · have hrest : i ∈ rest := by
        rcases List.mem_cons.mp hi with rfl | hrest
        · exact absurd rfl hkey
        · exact hrest
      have hcount := ih hunique.2 hrest
      rw [if_neg hkey]
      omega

/-- The READY count after an action. -/
theorem readyCount_applied (verb : Verb) (hunique : (instances.map Inst.key).Nodup)
    (hi : i ∈ instances) :
    readyCount (applied instances (verb, i.key)) + (if i.state = .ready then 1 else 0) =
      readyCount instances + (if verb.brings = .ready then 1 else 0) := by
  unfold readyCount
  rw [length_keysIn, length_keysIn]
  exact countP_applied .ready verb hunique hi

/-- The resident count after an action. -/
theorem residentCount_applied (verb : Verb) (hunique : (instances.map Inst.key).Nodup)
    (hi : i ∈ instances) :
    residentCount (applied instances (verb, i.key)) +
        ((if i.state = .ready then 1 else 0) + (if i.state = .sleeping then 1 else 0)) =
      residentCount instances +
        ((if verb.brings = .ready then 1 else 0) + (if verb.brings = .sleeping then 1 else 0)) := by
  have hready := countP_applied .ready verb hunique hi
  have hasleep := countP_applied .sleeping verb hunique hi
  unfold residentCount
  rw [length_keysIn, length_keysIn, length_keysIn, length_keysIn]
  omega

/-! ## What a call may do -/

/-- The action on the last READY replica of a group that is due. -/
theorem decide_due (h : DueDown cfg load instances timing now) :
    (decide cfg load instances sleepCapable timing now).1 =
      (keysIn .ready instances).getLast?.toList.map fun victim =>
        (if sleepCapable then .sleep else .stop, victim) := by
  have hon : ¬ cfg.enabled = false := by simp [h.looks.1]
  have hfloor : ¬ (effectiveReady instances : Int) < cfg.minReady := Int.not_lt.mpr h.looks.2
  unfold decide
  rw [if_neg hon, if_neg hfloor, if_neg h.calm, scaleDown, if_pos h.idle]
  dsimp only
  rw [if_pos ⟨h.long, h.spare⟩]

/-- What `bringUp` names, in the state that the action applies to. -/
theorem mem_bringUp {a : Action} (h : a ∈ bringUp instances) :
    (a.1 = .wake ∧ a.2 ∈ keysIn .sleeping instances) ∨
    (a.1 = .start ∧ keysIn .sleeping instances = [] ∧ a.2 ∈ keysIn .stopped instances) := by
  rcases bringUp_cases instances with ⟨key, hkey, hup⟩ | ⟨hnone, key, hkey, hup⟩ | ⟨-, -, hup⟩
  · rw [hup, List.mem_singleton] at h
    subst h
    exact .inl ⟨rfl, hkey⟩
  · rw [hup, List.mem_singleton] at h
    subst h
    exact .inr ⟨rfl, hnone, hkey⟩
  · rw [hup] at h
    exact absurd h List.not_mem_nil

theorem length_bringUp (instances : List Inst) : (bringUp instances).length ≤ 1 := by
  rcases bringUp_cases instances with ⟨key, -, hup⟩ | ⟨-, key, -, hup⟩ | ⟨-, -, hup⟩ <;>
    rw [hup] <;> simp

/-- **Bringing a replica up** keeps the floors; the cap is the caller's. -/
theorem floorsAndCaps_bringUp (hunique : (instances.map Inst.key).Nodup)
    (hcap : cfg.minReady ≤ effectiveReady instances →
      effectiveReady instances < cfg.maxReady.getD instances.length) :
    FloorsAndCaps cfg instances (bringUp instances) := by
  have hstep {a : Action} (ha : a ∈ bringUp instances) :
      ∃ i ∈ instances, i.key = a.2 ∧ a.1.Applies i.state ∧
        readyCount instances ≤ readyCount (applied instances a) ∧
        residentCount instances ≤ residentCount (applied instances a) := by
    obtain ⟨verb, key⟩ := a
    rcases mem_bringUp ha with ⟨hverb, hkey⟩ | ⟨hverb, -, hkey⟩
    all_goals
      obtain ⟨i, hi, hstate, rfl⟩ := mem_keysIn.mp hkey
      obtain rfl : verb = _ := hverb
      refine ⟨i, hi, rfl, hstate, ?_, ?_⟩
    · have hready := readyCount_applied .wake hunique hi
      simp only [hstate, Verb.brings, reduceCtorEq, if_true, if_false] at hready
      omega
    · have hresident := residentCount_applied .wake hunique hi
      simp only [hstate, Verb.brings, reduceCtorEq, if_true, if_false] at hresident
      omega
    · have hready := readyCount_applied .start hunique hi
      simp only [hstate, Verb.brings, reduceCtorEq, if_false] at hready
      omega
    · have hresident := residentCount_applied .start hunique hi
      simp only [hstate, Verb.brings, reduceCtorEq, if_false] at hresident
      omega
  refine ⟨length_bringUp instances, fun a ha => ?_, fun a ha => ?_, fun a ha => ?_,
    fun _ _ _ => hcap, fun a ha hstart => ?_⟩
  · obtain ⟨i, hi, hkey, happlies, -⟩ := hstep ha
    exact ⟨i, hi, hkey, happlies⟩
  · obtain ⟨i, -, -, -, hready, -⟩ := hstep ha
    exact .inr hready
  · obtain ⟨i, -, -, -, -, hresident⟩ := hstep ha
    exact .inr hresident
  · rcases mem_bringUp ha with ⟨hwake, -⟩ | ⟨-, hnone, -⟩
    · rw [hwake] at hstart
      cases hstart
    · exact hnone

/-- No action keeps everything. -/
theorem floorsAndCaps_nil : FloorsAndCaps cfg instances [] := by
  constructor <;> simp

/-- A scale-down of a replica with the counts it takes down. -/
theorem floorsAndCaps_down {actions : List Action} (hone : actions.length ≤ 1)
    (h : ∀ a ∈ actions, (a.1 = .sleep ∨ a.1 = .stop) ∧
      (∃ i ∈ instances, i.key = a.2 ∧ a.1.Applies i.state) ∧
      Above cfg.minReady (readyCount instances) (readyCount (applied instances a)) ∧
      Above cfg.minWarm (residentCount instances) (residentCount (applied instances a))) :
    FloorsAndCaps cfg instances actions := by
  refine ⟨hone, fun a ha => (h a ha).2.1, fun a ha => (h a ha).2.2.1, fun a ha => (h a ha).2.2.2,
    fun a ha hup => ?_, fun a ha hstart => ?_⟩
  · obtain ⟨hdown, -⟩ := h a ha
    rcases hdown with hdown | hdown <;> rw [hdown] at hup <;> simp at hup
  · obtain ⟨hdown, -⟩ := h a ha
    rcases hdown with hdown | hdown <;> rw [hdown] at hstart <;> simp at hstart

/-- A READY replica beyond `min_ready` that is put to sleep stays resident. -/
theorem above_sleep (hunique : (instances.map Inst.key).Nodup) (hi : i ∈ instances)
    (hstate : i.state = .ready) (hspare : cfg.minReady < readyCount instances) :
    Above cfg.minReady (readyCount instances) (readyCount (applied instances (.sleep, i.key))) ∧
    Above cfg.minWarm (residentCount instances)
      (residentCount (applied instances (.sleep, i.key))) := by
  have hready := readyCount_applied .sleep hunique hi
  have hresident := residentCount_applied .sleep hunique hi
  simp only [hstate, Verb.brings, reduceCtorEq, if_true, if_false] at hready hresident
  unfold Above
  omega

/-- One that is stopped does not. -/
theorem counts_stop (hunique : (instances.map Inst.key).Nodup) (hi : i ∈ instances)
    (hstate : i.state = .ready) :
    readyCount (applied instances (.stop, i.key)) + 1 = readyCount instances ∧
    residentCount (applied instances (.stop, i.key)) + 1 = residentCount instances := by
  have hready := readyCount_applied .stop hunique hi
  have hresident := residentCount_applied .stop hunique hi
  simp only [hstate, Verb.brings, reduceCtorEq, if_true, if_false] at hready hresident
  omega

/-- A sleeping replica beyond `min_warm` is stopped. -/
theorem above_stop_asleep (hunique : (instances.map Inst.key).Nodup) (hi : i ∈ instances)
    (hstate : i.state = .sleeping) (hspare : cfg.minWarm < residentCount instances) :
    Above cfg.minReady (readyCount instances) (readyCount (applied instances (.stop, i.key))) ∧
    Above cfg.minWarm (residentCount instances)
      (residentCount (applied instances (.stop, i.key))) := by
  have hready := readyCount_applied .stop hunique hi
  have hresident := residentCount_applied .stop hunique hi
  simp only [hstate, Verb.brings, reduceCtorEq, if_true, if_false] at hready hresident
  unfold Above
  omega

/-- **The call on a due group**: whether the floors hold is a question of the mode and of the
residents. -/
theorem floorsAndCaps_due (hunique : (instances.map Inst.key).Nodup) (hmin : 0 ≤ cfg.minReady)
    (h : DueDown cfg load instances timing now) :
    FloorsAndCaps cfg instances (decide cfg load instances sleepCapable timing now).1 ↔
      (sleepCapable = true ∨ cfg.minWarm < residentCount instances) := by
  have hspare := h.spare
  rw [decide_due h]
  obtain ⟨victim, hvictim⟩ : ∃ victim, (keysIn .ready instances).getLast? = some victim := by
    refine Option.isSome_iff_exists.mp ?_
    have hpos : 0 < (keysIn .ready instances).length := by
      unfold readyCount at hspare
      omega
    rw [List.getLast?_isSome]
    exact List.ne_nil_of_length_pos hpos
  obtain ⟨i, hi, hstate, rfl⟩ := mem_keysIn.mp (List.mem_of_getLast? hvictim)
  rw [hvictim, Option.toList_some, List.map_singleton]
  cases sleepCapable with
  | true =>
    rw [if_pos rfl]
    refine iff_of_true (floorsAndCaps_down (Nat.le_refl 1) fun a ha => ?_) (.inl rfl)
    obtain rfl := List.mem_singleton.mp ha
    exact ⟨.inl rfl, ⟨i, hi, rfl, hstate⟩, above_sleep hunique hi hstate hspare⟩
  | false =>
    have hcounts := counts_stop hunique hi hstate
    rw [if_neg Bool.false_ne_true]
    constructor
    · intro hfloors
      have hwarm := hfloors.minWarm _ (List.mem_singleton_self _)
      unfold Above at hwarm
      exact .inr (by omega)
    · rintro (hcapable | hwarm)
      · cases hcapable
      · refine floorsAndCaps_down (Nat.le_refl 1) fun a ha => ?_
        obtain rfl := List.mem_singleton.mp ha
        refine ⟨.inr rfl, ⟨i, hi, rfl, .inl hstate⟩, ?_, ?_⟩
        · exact .inl (by omega)
        · exact .inl (by omega)

/-- Every other call keeps the floors and caps. -/
theorem floorsAndCaps_of_not_due (hunique : (instances.map Inst.key).Nodup)
    (h : ¬ DueDown cfg load instances timing now) :
    FloorsAndCaps cfg instances (decide cfg load instances sleepCapable timing now).1 := by
  have hdecision := decide_decision cfg load instances sleepCapable timing now
  generalize decide cfg load instances sleepCapable timing now = decided at hdecision
  obtain ⟨actions, timing'⟩ := decided
  dsimp only at hdecision ⊢
  cases hdecision with
  | off => exact floorsAndCaps_nil
  | waits => exact floorsAndCaps_nil
  | busy => exact floorsAndCaps_nil
  | floor hon hfloor =>
    exact floorsAndCaps_bringUp hunique fun hmet => absurd hmet (Int.not_le.mpr hfloor)
  | raised hlooks hover hwindow hcooled hcap => exact floorsAndCaps_bringUp hunique fun _ => hcap
  | idle hlooks hover hidle hone hvictim =>
    refine floorsAndCaps_down hone fun a ha => ?_
    obtain ⟨verb, key⟩ := a
    cases hvictim verb key ha with
    | ready hkey hverb hlong hspare => exact absurd ⟨hlooks, hover, hidle, hlong, hspare⟩ h
    | asleep hkey hlong hspare =>
      obtain ⟨i, hi, hstate, rfl⟩ := mem_keysIn.mp hkey
      have hwarm : cfg.minWarm < residentCount instances := by
        unfold residentCount
        omega
      exact ⟨.inr rfl, ⟨i, hi, rfl, .inr hstate⟩, above_stop_asleep hunique hi hstate hwarm⟩

theorem AutoscaleRequest.policy_minReady_nonneg (body : AutoscaleRequest) :
    0 ≤ body.policy.minReady := by
  unfold policy
  split_ifs
  · exact body.minReady_ge
  · exact Int.zero_le_ofNat 1

/-- **Floors and caps**: under a policy of the API a call keeps them exactly when no READY
replica is due for a stop that the resident floor forbids. -/
theorem floorsAndCaps_iff (body : AutoscaleRequest) (load : GroupLoad)
    (instances : List Inst) (hunique : (instances.map Inst.key).Nodup) (sleepCapable : Bool)
    (timing : GroupTiming) (now : Time) :
    FloorsAndCaps body.policy instances
        (decide body.policy load instances sleepCapable timing now).1 ↔
      (DueDown body.policy load instances timing now →
        sleepCapable = true ∨ body.policy.minWarm < residentCount instances) := by
  by_cases hdue : DueDown body.policy load instances timing now
  · rw [floorsAndCaps_due hunique body.policy_minReady_nonneg hdue]
    exact ⟨fun h _ => h, fun h => h hdue⟩
  · exact iff_of_true (floorsAndCaps_of_not_due hunique hdue) fun h => absurd h hdue

/-- A policy that lets a group sleep as a whole. -/
def noneReady : AutoscaleRequest := { enabled := true, minReady := 0 }

/-- A pair of READY replicas, of which the second is put down and the first stays resident. -/
theorem floorsAndCaps_pair : FloorsAndCaps noneReady.policy [⟨"M::a", .ready⟩, ⟨"M::b", .ready⟩]
    (decide noneReady.policy {} [⟨"M::a", .ready⟩, ⟨"M::b", .ready⟩] false
      { idleSince := some 0 } 180).1 :=
  (floorsAndCaps_iff noneReady {} [⟨"M::a", .ready⟩, ⟨"M::b", .ready⟩] (by decide +kernel) false
    { idleSince := some 0 } 180).mpr fun _ => .inr (by decide +kernel)

/-- **The last resident replica is stopped**: with `min_ready: 0` and `min_warm: 1` an idle group
without the sleep mode ends with nothing resident. -/
theorem stops_last_resident : ∃ (body : AutoscaleRequest) (load : GroupLoad) (instances : List Inst)
    (timing : GroupTiming) (now : Time), body.enabled = true ∧ (instances.map Inst.key).Nodup ∧
    ¬ FloorsAndCaps body.policy instances (decide body.policy load instances false timing now).1 := by
  refine ⟨noneReady, {}, [⟨"M::a", .ready⟩], { idleSince := some 0 }, 180, rfl, by simp, fun h => ?_⟩
  have hwarm := h.minWarm (.stop, "M::a") (by decide +kernel)
  exact absurd hwarm (by unfold Above; decide +kernel)

end Llmops.Autoscale
