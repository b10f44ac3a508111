import Llmops.Autoscale.Ticks

/-!
# Coming back from zero

A group is down when no replica is READY or STARTING. `ComesBack` says that some run of ticks over a
group that stays down, with some metrics, issues a wake or a start.

The load of a group is that of its READY replicas, so a group that is down has no waiting requests
whatever the router reports: only the floor brings it back. `min_ready: 0`, which the schema
describes as "allow all-asleep", is never left again.

* `comesBack_iff`: a policy of the API brings a group back exactly when its `min_ready` is not 0;
* `never_comes_back`: a sleeping group with `min_ready: 0`.
-/

namespace Llmops.Autoscale

open Llmops.Lib

/-- No replica of the group is READY or STARTING. -/
def Down (snapshot : List ModelInstance) (group : String) : Prop :=
  ∀ inst ∈ snapshot, groupOf inst.key = group → inst.state ≠ .ready ∧ inst.state ≠ .starting

/-- A replica of the group is SLEEPING or STOPPED. -/
def HasSpare (snapshot : List ModelInstance) (group : String) : Prop :=
  ∃ inst ∈ snapshot, groupOf inst.key = group ∧ (inst.state = .sleeping ∨ inst.state = .stopped)

/-- The autoscaler's timing after a run of ticks. -/
def timingFrom (group : String) (timing : GroupTiming) (ticks : List Tick) : GroupTiming :=
  ticks.foldl (fun timing t => (t.act group timing).2) timing

/-- A tick under policy `cfg`, with the load computed from its snapshot, while the group is down. -/
def DownTick (cfg : AutoscaleConfig) (group : String) (t : Tick) : Prop :=
  t.cfg = cfg ∧ t.monitored = t.snapshot ∧ Down t.snapshot group

/-- From `snapshot` on, a run of ticks over the group while it is down, with some metrics, issues a
wake or a start. -/
def ComesBack (cfg : AutoscaleConfig) (group : String) (snapshot : List ModelInstance)
    (timing : GroupTiming) : Prop :=
  ∃ (ticks : List Tick) (t : Tick), (∀ x ∈ ticks ++ [t], DownTick cfg group x) ∧
    (ticks ++ [t]).head?.map Tick.snapshot = some snapshot ∧
    ∃ verb key, (verb, key) ∈ (t.act group (timingFrom group timing ticks)).1 ∧
      (verb = .wake ∨ verb = .start)

variable {cfg : AutoscaleConfig} {group : String} {snapshot : List ModelInstance}
  {timing : GroupTiming} {t : Tick} {body : AutoscaleRequest}

theorem mem_byGroup {i : Inst} :
    i ∈ byGroup snapshot group ↔
      ∃ inst ∈ snapshot, groupOf inst.key = group ∧ ⟨inst.key, inst.state⟩ = i := by
  simp [byGroup, and_assoc]

/-- A group that is down has no capacity. -/
theorem effectiveReady_of_down (h : Down snapshot group) :
    effectiveReady (byGroup snapshot group) = 0 := by
  refine List.countP_eq_zero.mpr fun i hi => ?_
  obtain ⟨inst, hmem, hgroup, rfl⟩ := mem_byGroup.mp hi
  simpa using h inst hmem hgroup

/-- A group that is down has no signal. -/
theorem readyReplicas_of_down (h : Down snapshot group) : readyReplicas snapshot group = [] := by
  refine List.filter_eq_nil_iff.mpr fun inst hmem hready => ?_
  obtain ⟨-, hgroup, hstate⟩ := of_decide_eq_true hready
  exact (h inst hmem hgroup).1 hstate

/-- A spare replica of a group is brought up. -/
theorem bringUp_of_spare (h : HasSpare snapshot group) :
    ∃ verb key, (verb, key) ∈ bringUp (byGroup snapshot group) ∧
      (verb = .wake ∨ verb = .start) := by
  rcases bringUp_cases (byGroup snapshot group) with ⟨key, -, hup⟩ | ⟨-, key, -, hup⟩ |
    ⟨hasleep, hstopped, -⟩
  · exact ⟨.wake, key, by rw [hup]; exact List.mem_singleton_self _, .inl rfl⟩
  · exact ⟨.start, key, by rw [hup]; exact List.mem_singleton_self _, .inr rfl⟩
  · obtain ⟨inst, hmem, hgroup, hstate⟩ := h
    have hi : (⟨inst.key, inst.state⟩ : Inst) ∈ byGroup snapshot group :=
      mem_byGroup.mpr ⟨inst, hmem, hgroup, rfl⟩
    rcases hstate with hstate | hstate
    · exact absurd (mem_keysIn.mpr ⟨_, hi, hstate, rfl⟩) (hasleep ▸ List.not_mem_nil)
    · exact absurd (mem_keysIn.mpr ⟨_, hi, hstate, rfl⟩) (hstopped ▸ List.not_mem_nil)

/-- Under the floor a group that is down is brought up at once. -/
theorem act_floor (hon : cfg.enabled = true) (hfloor : 1 ≤ cfg.minReady)
    (ht : DownTick cfg group t) (hspare : HasSpare t.snapshot group) :
    (t.act group timing).1 = bringUp (byGroup t.snapshot group) := by
  obtain ⟨rfl, -, hdown⟩ := ht
  obtain ⟨inst, hmem, hgroup, -⟩ := hspare
  have hsome : t.instances group ≠ [] :=
    List.ne_nil_of_mem (mem_byGroup.mpr ⟨inst, hmem, hgroup, rfl⟩)
  have heff : effectiveReady (t.instances group) = 0 := effectiveReady_of_down hdown
  unfold Tick.act decide
  rw [if_neg hsome, if_neg (by rw [hon]; rintro ⟨⟩), if_pos (by rw [heff]; omega)]
  rfl

/-- **With a floor of 0 nothing is ever brought up** while the group is down. -/
theorem act_no_floor (hfloor : cfg.minReady = 0) (hwaiting : 0 < cfg.scaleUpWaiting)
    (ht : DownTick cfg group t) {verb : Verb} {key : String}
    (hmem : (verb, key) ∈ (t.act group timing).1) : verb = .sleep ∨ verb = .stop := by
  obtain ⟨rfl, hmonitored, hdown⟩ := ht
  have hsignal : (t.load group).waitingPerReplica = 0 := by
    unfold Tick.load
    rw [hmonitored]
    exact loadOf_waitingPerReplica (readyReplicas_of_down hdown)
  rcases t.act_cases group timing with ⟨-, hact⟩ | ⟨-, hdecision⟩
  · rw [hact] at hmem
    exact absurd hmem List.not_mem_nil
  · generalize t.act group timing = acted at hmem hdecision
    obtain ⟨actions, timing'⟩ := acted
    dsimp only at hmem hdecision
    cases hdecision with
    | off hoff => exact absurd hmem List.not_mem_nil
    | floor hon hbelow =>
      rw [hfloor] at hbelow
      omega
    | waits hlooks hover => exact absurd hmem List.not_mem_nil
    | raised hlooks hover hwindow hcooled hcap =>
      rw [hsignal] at hover
      exact absurd hover (not_lt.mpr hwaiting.le)
    | busy hlooks hover hbusy => exact absurd hmem List.not_mem_nil
    | idle hlooks hover hidle hone hvictim =>
      cases hvictim verb key hmem with
      | ready hkey hverb hlong hfloor => exact hverb
      | asleep hkey hlong hfloor => exact .inr rfl

/-- **When demand brings a group back**: for every enabled policy that the API accepts and every
group that is down with a replica to spare, exactly when `min_ready` is not 0. -/
theorem comesBack_iff (hon : body.enabled = true) (hdown : Down snapshot group)
    (hspare : HasSpare snapshot group) :
    ComesBack body.policy group snapshot timing ↔ 1 ≤ body.minReady := by
  constructor
  · rintro ⟨ticks, t, hticks, -, verb, key, hmem, hverb⟩
    by_contra hzero
    have hfloor : body.policy.minReady = 0 := by
      rw [AutoscaleRequest.policy_minReady hon]
      have := body.minReady_ge
      omega
    have hdownTick := hticks t (List.mem_append_right _ (List.mem_singleton_self t))
    rcases act_no_floor hfloor body.scaleUpWaiting_pos hdownTick hmem with rfl | rfl <;>
      rcases hverb with hverb | hverb <;> cases hverb
  · intro hfloor
    let t : Tick := ⟨body.policy, fun _ => none, snapshot, snapshot, 0⟩
    have ht : DownTick body.policy group t := ⟨rfl, rfl, hdown⟩
    refine ⟨[], t, fun x hx => ?_, rfl, ?_⟩
    · rw [List.mem_singleton.mp hx]
      exact ht
    · rw [act_floor (AutoscaleRequest.policy_enabled hon)
        (by rw [AutoscaleRequest.policy_minReady hon]; exact hfloor) ht hspare]
      exact bringUp_of_spare hspare

/-! ## Scale to zero -/

/-- A sleeping replica of group `M`. -/
def asleep : ModelInstance := { readyInstance "M::a" with state := .sleeping }

theorem down_asleep : Down [asleep] "M" := by
  intro inst hmem _
  rw [List.mem_singleton.mp hmem]
  exact ⟨(by rintro ⟨⟩), (by rintro ⟨⟩)⟩

theorem hasSpare_asleep : HasSpare [asleep] "M" :=
  ⟨asleep, List.mem_singleton_self _, by decide +kernel, .inl rfl⟩

/-- The default floor of 1 brings the group back. -/
theorem comesBack_asleep : ComesBack ({ enabled := true } : AutoscaleRequest).policy "M" [asleep] {} :=
  (comesBack_iff rfl down_asleep hasSpare_asleep).mpr (by decide)

/-- **A group that may sleep as a whole stays asleep**: with `min_ready: 0` no run of ticks and no
metrics wake it. -/
theorem never_comes_back :
    ¬ ∀ (body : AutoscaleRequest) (group : String) (snapshot : List ModelInstance)
      (timing : GroupTiming), body.enabled = true → Down snapshot group →
      HasSpare snapshot group → ComesBack body.policy group snapshot timing := by
  intro h
  obtain ⟨ticks, t, hticks, -, verb, key, hmem, hverb⟩ :=
    h { enabled := true, minReady := 0 } "M" [asleep] {} rfl down_asleep hasSpare_asleep
  rcases act_no_floor rfl (AutoscaleRequest.scaleUpWaiting_pos _)
    (hticks t (List.mem_append_right _ (List.mem_singleton_self t))) hmem with rfl | rfl <;>
    rcases hverb with hverb | hverb <;> cases hverb

end Llmops.Autoscale
