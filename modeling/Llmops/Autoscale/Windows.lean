import Llmops.Autoscale.Ticks

/-!
# The windows of the autoscaler

`over_since` and `idle_since` (`autoscaler.py:39-44`) stand for a stretch of ticks at which the group
was under pressure, or idle. They are reset where `decide` looks at the load (`autoscaler.py:77-98`). A
tick at which the policy is off, the group has no instance or the floor is not met does not look, and
the next tick that does counts from where a timer was left.

* `Timers.tick`: a tick that looks, or that finds what the timers stand for, keeps them sound;
* `windows_of_steady`: so every scale-down and every pressure scale-up has its window;
* `stops_after_busy`: a policy that is off while the group is busy.
-/

namespace Llmops.Autoscale

open Llmops.Lib

/-! ## What a window is -/

namespace Tick

/-- The load is idle, as `decide` tests it. -/
def Idle (group : String) (t : Tick) : Prop :=
  (t.load group).runningTotal = 0 ∧ (t.load group).waitingTotal = 0

/-- The queue is over the threshold of the tick. -/
def Pressed (group : String) (t : Tick) : Prop :=
  t.cfg.scaleUpWaiting < (t.load group).waitingPerReplica

/-- A pressure scale-up: a wake or a start while the floor is met. -/
def ScalesUp (group : String) (timing : GroupTiming) (t : Tick) : Prop :=
  t.cfg.minReady ≤ effectiveReady (t.instances group) ∧
    ∃ verb key, (verb, key) ∈ (t.act group timing).1 ∧ (verb = .wake ∨ verb = .start)

end Tick

/-- Consecutive ticks up to the last one, over a span of time, at each of which `good` holds. -/
def Spans (good : Tick → Prop) (ticks : List Tick) (now span : Time) : Prop :=
  Lasted good (fun _ => True) Tick.now ticks now span

/-- **The windows of a tick** after a run of others. -/
structure Windows (group : String) (ticks : List Tick) (t : Tick) : Prop where
  down : ∀ verb key, (verb, key) ∈ (t.act group (timingAfter group ticks)).1 →
    verb = .sleep ∨ verb = .stop →
    (key ∈ keysIn .ready (t.instances group) ∧
      Spans (Tick.Idle group) (ticks ++ [t]) t.now t.cfg.sleepAfterS) ∨
    (key ∈ keysIn .sleeping (t.instances group) ∧
      Spans (Tick.Idle group) (ticks ++ [t]) t.now t.cfg.stopAfterS)
  up : t.ScalesUp group (timingAfter group ticks) →
    Spans (Tick.Pressed group) (ticks ++ [t]) t.now t.cfg.scaleUpWindowS
  apart : t.ScalesUp group (timingAfter group ticks) →
    ∀ before earlier after, ticks = before ++ earlier :: after →
      earlier.ScalesUp group (timingAfter group before) → t.cfg.cooldownS ≤ t.now - earlier.now

/-- The condition on a tick: one that does not look finds what each timer that is set stands for. -/
def Steady (group : String) (timing : GroupTiming) (t : Tick) : Prop :=
  ¬ t.Looks group → (timing.idleSince.isSome → t.Idle group) ∧
    (timing.overSince.isSome → t.Pressed group)

/-- Every tick of a run meets it, with the timers it finds. -/
def SteadyRun (group : String) (ticks : List Tick) : Prop :=
  ∀ before t after, ticks = before ++ t :: after → Steady group (timingAfter group before) t

/-- The clock does not go back. -/
def Clocked (ticks : List Tick) : Prop := ticks.Pairwise fun s t => s.now ≤ t.now

/-! ## The timers -/

/-- The timers after a run: each stands for its window, and the last scale-up is the latest. -/
structure Timers (group : String) (ticks : List Tick) (timing : GroupTiming) : Prop where
  idle : Timer.Sound (Tick.Idle group) (fun _ => True) Tick.now ticks timing.idleSince
  pressed : Timer.Sound (Tick.Pressed group) (fun _ => True) Tick.now ticks timing.overSince
  last : ∀ before earlier after, ticks = before ++ earlier :: after →
    earlier.ScalesUp group (timingAfter group before) → earlier.now ≤ timing.lastScaleUp

variable {group : String} {ticks : List Tick} {t : Tick} {timing : GroupTiming}

/-- A timer that is not touched by a tick at which its condition holds if it is set. -/
theorem sound_kept {good : Tick → Prop} {timer : Option Time}
    (h : Timer.Sound good (fun _ => True) Tick.now ticks timer) (hgood : timer.isSome → good t) :
    Timer.Sound good (fun _ => True) Tick.now (ticks ++ [t]) timer := by
  intro since hsince
  refine Timer.since_snoc (h since hsince) fun _ => hgood ?_
  rw [Option.mem_def.mp hsince]
  rfl

/-- A pressure scale-up is the raise of `decide`: over the threshold, after the window and the
cooldown. -/
theorem scalesUp_raised (h : t.ScalesUp group timing) :
    t.Looks group ∧ t.Pressed group ∧ t.cfg.scaleUpWindowS ≤ t.now - timing.overSince.getD t.now ∧
      t.cfg.cooldownS ≤ t.now - timing.lastScaleUp ∧
      (t.act group timing).2 = { idleSince := none, overSince := none, lastScaleUp := t.now } := by
  obtain ⟨hfloor, verb, key, hmem, hverb⟩ := h
  rcases t.act_cases group timing with ⟨-, hact⟩ | ⟨hsome, hdecision⟩
  · rw [hact] at hmem
    exact absurd hmem List.not_mem_nil
  · generalize t.act group timing = acted at hmem hdecision
    obtain ⟨actions, timing'⟩ := acted
    dsimp only at hmem hdecision ⊢
    cases hdecision with
    | off => exact absurd hmem List.not_mem_nil
    | waits => exact absurd hmem List.not_mem_nil
    | busy => exact absurd hmem List.not_mem_nil
    | floor hon hunmet => exact absurd hunmet (Int.not_lt.mpr hfloor)
    | raised hlooks hover hwindow hcooled hcap => exact ⟨⟨hsome, hlooks⟩, hover, hwindow, hcooled, rfl⟩
    | idle hlooks hover hidle hone hvictim =>
      cases hvictim verb key hmem with
      | ready hkey hdown => rcases hverb with rfl | rfl <;> simp at hdown
      | asleep hkey => simp at hverb

/-- What a tick leaves in the timers. -/
theorem act_timers (t : Tick) (group : String) (timing : GroupTiming) :
    (¬ t.Looks group ∧ (t.act group timing).2 = timing) ∨
    (t.Pressed group ∧ (t.act group timing).2.idleSince = none ∧
      ((t.act group timing).2.overSince = some (timing.overSince.getD t.now) ∧
          (t.act group timing).2.lastScaleUp = timing.lastScaleUp ∨
        (t.act group timing).2.overSince = none ∧ (t.act group timing).2.lastScaleUp = t.now)) ∨
    ((t.act group timing).2.overSince = none ∧
      (t.act group timing).2.lastScaleUp = timing.lastScaleUp ∧
      ((t.act group timing).2.idleSince = none ∨ t.Idle group ∧
        (t.act group timing).2.idleSince = some (timing.idleSince.getD t.now))) := by
  rcases t.act_cases group timing with ⟨hnone, hact⟩ | ⟨hsome, hdecision⟩
  · rw [hact]
    exact .inl ⟨fun hlooks => hlooks.1 hnone, rfl⟩
  · generalize t.act group timing = acted at hdecision
    obtain ⟨actions, timing'⟩ := acted
    dsimp only at hdecision ⊢
    cases hdecision with
    | off hoff =>
      refine .inl ⟨fun hlooks => ?_, rfl⟩
      rw [hlooks.2.1] at hoff
      cases hoff
    | floor hon hunmet => exact .inl ⟨fun hlooks => absurd hlooks.2.2 (Int.not_le.mpr hunmet), rfl⟩
    | waits hlooks hover => exact .inr (.inl ⟨hover, rfl, .inl ⟨rfl, rfl⟩⟩)
    | raised hlooks hover => exact .inr (.inl ⟨hover, rfl, .inr ⟨rfl, rfl⟩⟩)
    | busy => exact .inr (.inr ⟨rfl, rfl, .inl rfl⟩)
    | idle hlooks hover hidle => exact .inr (.inr ⟨rfl, rfl, .inr ⟨hidle, rfl⟩⟩)

/-- An earlier tick of a longer run is the new one or one of before. -/
theorem split_snoc {before after : List Tick} {earlier : Tick}
    (h : ticks ++ [t] = before ++ earlier :: after) :
    (before = ticks ∧ earlier = t) ∨ ∃ rest, ticks = before ++ earlier :: rest := by
  induction after using List.reverseRecOn with
  | nil =>
    have hconcat : ticks ++ [t] = before ++ [earlier] := h
    obtain ⟨hbefore, hlast⟩ := List.append_inj' hconcat rfl
    exact .inl ⟨hbefore.symm, (List.singleton_inj.mp hlast).symm⟩
  | append_singleton rest last =>
    have hconcat : ticks ++ [t] = (before ++ earlier :: rest) ++ [last] := by
      rw [h, List.append_assoc, List.cons_append]
    exact .inr ⟨rest, (List.append_inj' hconcat rfl).1⟩

/-- **The step lemma**: a tick that looks, or that finds what the timers stand for, keeps them sound. -/
theorem Timers.tick (h : Timers group ticks timing) (htiming : timingAfter group ticks = timing)
    (hsteady : Steady group timing t) (hclock : ∀ earlier ∈ ticks, earlier.now ≤ t.now) :
    Timers group (ticks ++ [t]) (t.act group timing).2 := by
  have hcases := act_timers t group timing
  refine ⟨?_, ?_, fun before earlier after hsplit hup => ?_⟩
  · rcases hcases with ⟨hskip, hact⟩ | ⟨-, hreset, -⟩ | ⟨-, -, hreset | ⟨hidle, harmed⟩⟩
    · rw [hact]
      exact sound_kept h.idle (hsteady hskip).1
    · rw [hreset]
      exact .reset
    · rw [hreset]
      exact .reset
    · rw [harmed]
      exact h.idle.arm trivial hidle
  · rcases hcases with ⟨hskip, hact⟩ | ⟨hpressed, -, ⟨harmed, -⟩ | ⟨hreset, -⟩⟩ | ⟨hreset, -, -⟩
    · rw [hact]
      exact sound_kept h.pressed (hsteady hskip).2
    · rw [harmed]
      exact h.pressed.arm trivial hpressed
    · rw [hreset]
      exact .reset
    · rw [hreset]
      exact .reset
  · rcases split_snoc hsplit with ⟨rfl, rfl⟩ | ⟨rest, hrest⟩
    · -- the new tick is itself the last scale-up
      rw [htiming] at hup
      rw [(scalesUp_raised hup).2.2.2.2]
    · have hbefore : earlier.now ≤ timing.lastScaleUp := h.last before earlier rest hrest hup
      have hnow : earlier.now ≤ t.now := hclock earlier (by rw [hrest]; simp)
      rcases hcases with ⟨-, hact⟩ | ⟨-, -, ⟨-, hkept⟩ | ⟨-, hset⟩⟩ | ⟨-, hkept, -⟩
      · rw [hact]
        exact hbefore
      · rw [hkept]
        exact hbefore
      · rw [hset]
        exact hnow
      · rw [hkept]
        exact hbefore

/-- **The run lemma**: after a steady run the timers stand for their windows. -/
theorem timers_of_steady (hclock : Clocked ticks) (hsteady : SteadyRun group ticks) :
    Timers group ticks (timingAfter group ticks) := by
  induction ticks using List.reverseRecOn with
  | nil =>
    refine ⟨Timer.Sound.reset, Timer.Sound.reset, fun before earlier after hsplit => ?_⟩
    simp at hsplit
  | append_singleton ticks t ih =>
    obtain ⟨hbefore, -, hlast⟩ := List.pairwise_append.mp hclock
    have hprefix : SteadyRun group ticks := fun before x after hsplit =>
      hsteady before x (after ++ [t]) (by rw [hsplit, List.append_assoc, List.cons_append])
    rw [timingAfter_snoc]
    exact (ih hbefore hprefix).tick rfl (hsteady ticks t [] rfl)
      fun earlier hmem => hlast earlier hmem t (List.mem_singleton_self t)

/-! ## The windows -/

/-- A scale-down is the one of an idle group, with the time that its timer has run for. -/
theorem down_of_timers (h : Timers group ticks timing) {verb : Verb} {key : String}
    (hmem : (verb, key) ∈ (t.act group timing).1) (hverb : verb = .sleep ∨ verb = .stop) :
    (key ∈ keysIn .ready (t.instances group) ∧
      Spans (Tick.Idle group) (ticks ++ [t]) t.now t.cfg.sleepAfterS) ∨
    (key ∈ keysIn .sleeping (t.instances group) ∧
      Spans (Tick.Idle group) (ticks ++ [t]) t.now t.cfg.stopAfterS) := by
  rcases t.act_cases group timing with ⟨-, hact⟩ | ⟨-, hdecision⟩
  · rw [hact] at hmem
    exact absurd hmem List.not_mem_nil
  · generalize t.act group timing = acted at hmem hdecision
    obtain ⟨actions, timing'⟩ := acted
    dsimp only at hmem hdecision
    cases hdecision with
    | off => exact absurd hmem List.not_mem_nil
    | waits => exact absurd hmem List.not_mem_nil
    | busy => exact absurd hmem List.not_mem_nil
    | floor => exact absurd hmem (not_mem_bringUp hverb)
    | raised => exact absurd hmem (not_mem_bringUp hverb)
    | idle hlooks hover hidle hone hvictim =>
      have harmed := h.idle.arm (e := t) trivial hidle
      cases hvictim verb key hmem with
      | ready hkey _ hlong => exact .inl ⟨hkey, harmed.lasted hlong⟩
      | asleep hkey hlong => exact .inr ⟨hkey, harmed.lasted hlong⟩

/-- **Every action has its window** in a run of which every tick is steady, whatever the policies, the
loads and the registry are. -/
theorem windows_of_steady (group : String) (ticks : List Tick) (t : Tick)
    (hclock : Clocked (ticks ++ [t])) (hsteady : SteadyRun group ticks) : Windows group ticks t := by
  obtain ⟨hbefore, -, hlast⟩ := List.pairwise_append.mp hclock
  have htimers := timers_of_steady hbefore hsteady
  refine ⟨fun verb key hmem hverb => down_of_timers htimers hmem hverb, fun hup => ?_,
    fun hup before earlier after hsplit hearlier => ?_⟩
  · obtain ⟨-, hpressed, hwindow, -⟩ := scalesUp_raised hup
    exact (htimers.pressed.arm (e := t) trivial hpressed).lasted hwindow
  · obtain ⟨-, -, -, hcooled, -⟩ := scalesUp_raised hup
    have hearly : earlier.now ≤ (timingAfter group ticks).lastScaleUp :=
      htimers.last before earlier after hsplit hearlier
    calc t.cfg.cooldownS ≤ t.now - (timingAfter group ticks).lastScaleUp := hcooled
      _ ≤ t.now - earlier.now := sub_le_sub_left hearly t.now

/-- What the router reports when every replica of `M` has so many requests running. -/
def allRunning (n : ℚ) : RouterMetrics := fun group =>
  if group = "M" then some fun _ => some { running := .num n, waiting := .num 0 } else none

theorem windows_idle : Windows "M" [twoReady (allRunning 0) 0] (twoReady (allRunning 0) 180) := by
  refine windows_of_steady "M" [twoReady (allRunning 0) 0] (twoReady (allRunning 0) 180)
    (by unfold Clocked; decide +kernel) fun before t after hsplit => ?_
  have hfirst : before = [] := by
    rcases before with _ | ⟨first, rest⟩
    · rfl
    · simp at hsplit
  rw [hfirst]
  exact fun _ => ⟨fun hset => absurd hset (by decide +kernel),
    fun hset => absurd hset (by decide +kernel)⟩

/-- A tick with the policy off, while three requests run on each replica. -/
def busyTick : Tick := { twoReady (allRunning 3) 100 with cfg := {} }

/-- It comes after a tick of an idle group. -/
def busyWhileOff : List Tick := [twoReady (allRunning 0) 0, busyTick]

/-- **A window with a busy tick in it**: the timer outlives the time that the policy is off. -/
theorem stops_after_busy : Clocked (busyWhileOff ++ [twoReady (allRunning 0) 180]) ∧
    ¬ Windows "M" busyWhileOff (twoReady (allRunning 0) 180) := by
  refine ⟨by unfold Clocked; decide +kernel, fun h => ?_⟩
  have hstop : (.stop, "M::b") ∈
      ((twoReady (allRunning 0) 180).act "M" (timingAfter "M" busyWhileOff)).1 := by decide +kernel
  have hspans : Spans (Tick.Idle "M") (busyWhileOff ++ [twoReady (allRunning 0) 180]) 180 180 := by
    rcases h.down .stop "M::b" hstop (.inr rfl) with hready | hasleep
    · exact hready.2
    · exact absurd hasleep.1 (by decide +kernel)
  obtain ⟨since, ⟨before, first, rest, hsplit, htime, -, hidle⟩, hlong⟩ := hspans
  -- the window starts at the first tick, so that the busy one is in it
  have hbusy : busyTick ∈ first :: rest := by
    rcases before with _ | ⟨_, _ | ⟨_, before⟩⟩
    · have hrest : busyWhileOff ++ [twoReady (allRunning 0) 180] = first :: rest := hsplit
      rw [← hrest]
      exact List.mem_cons_of_mem _ List.mem_cons_self
    · have hrest : [busyTick, twoReady (allRunning 0) 180] = first :: rest :=
        (List.cons_eq_cons.mp hsplit).2
      rw [← hrest]
      exact List.mem_cons_self
    · obtain ⟨-, hrest⟩ := List.cons_eq_cons.mp hsplit
      obtain ⟨-, hlast⟩ := List.cons_eq_cons.mp hrest
      have hmem : first ∈ [twoReady (allRunning 0) 180] := by
        rw [show [twoReady (allRunning 0) 180] = before ++ first :: rest from hlast]
        simp
      rw [List.mem_singleton.mp hmem] at htime
      rw [← htime] at hlong
      exact absurd hlong (by decide +kernel)
  exact absurd (hidle _ hbusy trivial).1 (by decide +kernel)

end Llmops.Autoscale
