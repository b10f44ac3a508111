import Llmops.Node.Budget
import Llmops.Node.Ownership

/-!
# A wanted model that is given up in silence

With `auto_restart` on, a crashed instance that is wanted either has a restart armed or has been
given up with a `model_gave_up` alert (`_maybe_schedule_restart`, `_process_restarts`,
`classify_event`). `_process_restarts` takes the deadline and counts the restart before it calls
`start`; where that start raises before its locked section, or a spawn fails, nothing arms the next
restart and nothing says so.

A `Vigil` keeps beside the world the alerts sent since the last READY or admitted user start. The
users' starts run on any coroutines, interleaved with the one reconcile loop at every await.

* `kept_of_reach`: while no spawn fails and no restart's start is refused before its lock, no pass
  leaves a wanted instance abandoned;
* `abandoned`: the first restart is refused by a pre-flight, and the instance is forgotten.
-/

namespace Llmops.Node

open Llmops.Lib

variable {N : Type*}

/-- A node, and the alerts since the last READY or admitted user start. -/
structure Vigil (N : Type*) where
  world : World N
  sent : List AlertEvent := []

/-- The coroutine has just admitted a start of the user. -/
def Pc.UserStarts : Pc N → Bool
  | .startSpawn .user _ => true
  | _ => false

def Event.UserStarts (w' : World N) : Event N → Bool
  | .run i _ => (w'.pc i).UserStarts
  | _ => false

def Vigil.init (w : World N) : Vigil N := { world := w }

/-- What a step to `w'` adds. -/
def Vigil.note (v : Vigil N) (e : Event N) (w' : World N) : Vigil N where
  world := w'
  sent :=
    if (v.world.inst.state ≠ .ready ∧ w'.inst.state = .ready) ∨ e.UserStarts w' = true then []
    else w'.alerts.take (w'.alerts.length - v.world.alerts.length) ++ v.sent

def vigilStep [DecidableEq N] (cfg : Settings) (me : N) (v : Vigil N) (e : Event N) :
    Option (Vigil N) :=
  (step cfg me v.world e).map (v.note e)

/-- A coroutine that runs a pass, inside the manager's calls of the pass too. -/
def Pc.OfPass : Pc N → Prop
  | .idle => False
  | .call c _ | .startPreflight c _ | .startSpawn c _ | .startStore c _ | .startFail c
  | .startFailRecord c | .stopLock c | .stopHeld c | .stopDrain c _ | .stopReap c _ | .sleepLock c
  | .sleepPost c | .wakeLock c | .wakePost c | .wakeRecord c | .persistRow c _ | .persistAssign c
  | .deferLock c _ | .deferRow c _ | .deferAssign c => c ≠ .user
  | .passLock | .passProbe | .passRecord _ | .passAssignments | .passNodes _ | .passRestarts _
  | .passRestartsLock _ _ | .passDesired _ | .passSnapshot _ _ => True
  | .replayDesired | .replayAssignments _ | .replayNodes _ _ | .replayStart _ _ => False

/-- User starts, the passes of the one reconcile loop, exits, time, and other replicas' rows. -/
def StartsOnly (w : World N) : Event N → Prop
  | .request _ op => op = .start
  | .replay _ => False
  | .pass _ => ∀ j, ¬ (w.pc j).OfPass
  | .run _ _ | .exit _ | .clock _ | .store _ => True

/-- No spawn fails, and no restart of a FAILED instance is refused before `start` takes the lock:
`build_spec` and the pre-flight checks let it through. -/
def Unrefused (w : World N) : Event N → Prop
  | .run i inp => (∀ c spec, w.pc i = .startSpawn c spec → inp.ok = true) ∧
    (w.inst.state = .failed →
      (∀ f, w.pc i = .call (.restart f) .start → inp.spec ≠ none) ∧
      ∀ f spec, w.pc i = .startPreflight (.restart f) spec → inp.ok = true)
  | _ => True

/-- The registry is built: the instance is down, or adopted, on a node that can run it. -/
structure Booted (cfg : Settings) (w : World N) : Prop where
  idle : ∀ i, w.pc i = .idle
  registered : w.registered = true
  canRun : cfg.nodeCanRun w.inst.engine = true
  state : w.inst.state = .stopped ∨ w.inst.state = .ready
  unarmed : w.inst.nextRestartAt = none

/-- A wanted instance that has FAILED has a restart armed, or was given up with an alert. -/
def NotAbandoned (cfg : Settings) (v : Vigil N) : Prop :=
  v.world.inst.desired = .running → v.world.inst.state = .failed →
    (v.world.inst.nextRestartAt ≠ none ∧ v.world.inst.restartCount < cfg.maxRestarts) ∨
      ∃ a ∈ v.sent, a.event = .modelGaveUp

/-! ## Where the coroutines may be -/

/-- Where a coroutine may be. Only a sleep depends on the record. -/
inductive VigilPc (inst : ModelInstance) : Pc N → Prop
  | pass {pc : Pc N} (hpc : pc.InPass) : VigilPc inst pc
  | start (c : Caller) : VigilPc inst (.call c .start)
  | call (op : Op) : VigilPc inst (.call .converge op)
  | preflight (c : Caller) (spec : LaunchSpec) : VigilPc inst (.startPreflight c spec)
  | spawn (c : Caller) (spec : LaunchSpec) : VigilPc inst (.startSpawn c spec)
  | store (c : Caller) (p : Pid) : VigilPc inst (.startStore c p)
  | stopLock : VigilPc inst (.stopLock .converge)
  | stopHeld : VigilPc inst (.stopHeld .converge)
  | stopDrain (p : Pid) : VigilPc inst (.stopDrain .converge p)
  | stopReap (p : Pid) : VigilPc inst (.stopReap .converge p)
  | sleepLock : VigilPc inst (.sleepLock .converge)
  | sleepPost (hs : inst.state = .ready) : VigilPc inst (.sleepPost .converge)
  | wakeLock : VigilPc inst (.wakeLock .converge)
  | wakePost : VigilPc inst (.wakePost .converge)
  | wakeRecord : VigilPc inst (.wakeRecord .converge)
  | row (c : Caller) (want : Desired) : VigilPc inst (.persistRow c want)
  | assign (c : Caller) : VigilPc inst (.persistAssign c)

/-- A pass that still has to call `start` for the restart it took, or to record that the budget is
spent. -/
inductive Loose (cfg : Settings) (inst : ModelInstance) : Pc N → Prop
  | call (f : Bool) : Loose cfg inst (.call (.restart f) .start)
  | preflight (f : Bool) (spec : LaunchSpec) : Loose cfg inst (.startPreflight (.restart f) spec)
  | spent (hnext : inst.nextRestartAt = none) (hcount : cfg.maxRestarts ≤ inst.restartCount)
      (hm : inst.managed = true) : Loose cfg inst (.passRecord .failed)

structure VigilInv (cfg : Settings) (v : Vigil N) : Prop where
  registered : v.world.registered = true
  canRun : cfg.nodeCanRun v.world.inst.engine = true
  managed : v.world.inst.state = .starting → v.world.inst.managed = true
  budget : v.world.inst.nextRestartAt ≠ none → v.world.inst.restartCount < cfg.maxRestarts
  single : ∀ i j, (v.world.pc i).OfPass → (v.world.pc j).OfPass → i = j
  pcs : ∀ i, VigilPc v.world.inst (v.world.pc i)
  kept : NotAbandoned cfg v ∨ ∃ i, Loose cfg v.world.inst (v.world.pc i)

theorem Booted.inv {cfg : Settings} {w : World N} (h : Booted cfg w) : VigilInv cfg (.init w) where
  registered := h.registered
  canRun := h.canRun
  managed hs := by obtain hst | hst := h.state <;> cases hst.symm.trans hs
  budget hne := absurd h.unarmed hne
  single i j hi := by
    rw [Vigil.init, h.idle i] at hi
    exact hi.elim
  pcs i := by
    rw [Vigil.init, h.idle i]
    exact .pass trivial
  kept := by
    refine .inl fun _ hs => ?_
    obtain hst | hst := h.state <;> cases hst.symm.trans hs

/-! ## What a step does -/

/-- What the invariant reads of a record is the same. -/
structure Alike (inst inst' : ModelInstance) : Prop where
  state : inst'.state = inst.state
  desired : inst'.desired = inst.desired
  next : inst'.nextRestartAt = inst.nextRestartAt
  count : inst'.restartCount = inst.restartCount
  managed : inst'.managed = inst.managed
  engine : inst'.engine = inst.engine

theorem Alike.of_eq {inst inst' : ModelInstance} (h : inst' = inst) : Alike inst inst' := by
  rw [h]
  exact ⟨rfl, rfl, rfl, rfl, rfl, rfl⟩

/-- After a step of coroutine `i`: the instance is kept, or this coroutine still has to see to it,
or nothing has changed that matters. -/
structure Watched (cfg : Settings) (v : Vigil N) (e : Event N) (i : Nat) (w' : World N) : Prop where
  registered : w'.registered = v.world.registered
  engine : w'.inst.engine = v.world.inst.engine
  managed : w'.inst.state = .starting → w'.inst.managed = true
  budget : w'.inst.nextRestartAt ≠ none → w'.inst.restartCount < cfg.maxRestarts
  ofPass : (w'.pc i).OfPass → (v.world.pc i).OfPass
  pc : VigilPc w'.inst (w'.pc i)
  ready : (v.world.pc i).OfPass ∨ (v.world.inst.state = .ready → w'.inst.state = .ready)
  kept : NotAbandoned cfg (v.note e w') ∨ Loose cfg w'.inst (w'.pc i) ∨
    (Alike v.world.inst w'.inst ∧ e.UserStarts w' = false ∧ ¬ Loose cfg v.world.inst (v.world.pc i))

section Watch

variable {cfg : Settings} {v : Vigil N} {e : Event N} {i : Nat} {w' : World N} {inp : Input}

theorem kept_of_state (h : w'.inst.state ≠ .failed) : NotAbandoned cfg (v.note e w') :=
  fun _ hs => absurd hs h

theorem kept_of_desired (h : w'.inst.desired ≠ .running) : NotAbandoned cfg (v.note e w') :=
  fun hd _ => absurd hd h

/-- Alerts are kept by a step that is no READY and no user start. -/
theorem sent_note (hs : w'.inst.state = v.world.inst.state) (he : e.UserStarts w' = false) :
    (v.note e w').sent =
      w'.alerts.take (w'.alerts.length - v.world.alerts.length) ++ v.sent := by
  refine if_neg ?_
  rintro (⟨hne, hr⟩ | hu)
  · exact hne (hs.symm.trans hr)
  · rw [he] at hu
    cases hu

theorem kept_of_alike (h : Alike v.world.inst w'.inst) (he : e.UserStarts w' = false)
    (hk : NotAbandoned cfg v) : NotAbandoned cfg (v.note e w') := by
  intro hd hs
  obtain hnext | ⟨a, ha, hgave⟩ := hk (h.desired.symm.trans hd) (h.state.symm.trans hs)
  · refine .inl ?_
    show w'.inst.nextRestartAt ≠ none ∧ w'.inst.restartCount < _
    rw [h.next, h.count]
    exact hnext
  · refine .inr ⟨a, ?_, hgave⟩
    rw [sent_note h.state he]
    exact List.mem_append_right _ ha

/-- A place in a pass holds on while a READY instance stays READY. -/
theorem VigilPc.mono {pc : Pc N} {inst inst' : ModelInstance} (hpc : VigilPc inst pc)
    (h : pc.OfPass → inst.state = .ready → inst'.state = .ready) : VigilPc inst' pc := by
  cases hpc with
  | pass hpc => exact .pass hpc
  | start c => exact .start c
  | call op => exact .call op
  | preflight c spec => exact .preflight c spec
  | spawn c spec => exact .spawn c spec
  | store c p => exact .store c p
  | stopLock => exact .stopLock
  | stopHeld => exact .stopHeld
  | stopDrain p => exact .stopDrain p
  | stopReap p => exact .stopReap p
  | sleepLock => exact .sleepLock
  | sleepPost hs => exact .sleepPost (h (by rintro ⟨⟩) hs)
  | wakeLock => exact .wakeLock
  | wakePost => exact .wakePost
  | wakeRecord => exact .wakeRecord
  | row c want => exact .row c want
  | assign c => exact .assign c

theorem VigilPc.of_alike {pc : Pc N} {inst inst' : ModelInstance} (h : Alike inst inst')
    (hpc : VigilPc inst pc) : VigilPc inst' pc :=
  hpc.mono fun _ hs => h.state.trans hs

theorem Loose.of_alike {pc : Pc N} {inst inst' : ModelInstance} (h : Alike inst inst')
    (hpc : Loose cfg inst pc) : Loose cfg inst' pc := by
  cases hpc with
  | call f => exact .call f
  | preflight f spec => exact .preflight f spec
  | spent hnext hcount hm =>
    exact .spent (h.next.trans hnext) (h.count ▸ hcount) (h.managed.trans hm)

theorem Loose.ofPass {pc : Pc N} {inst : ModelInstance} (h : Loose cfg inst pc) : pc.OfPass := by
  cases h with
  | call f => exact (by rintro ⟨⟩)
  | preflight f spec => exact (by rintro ⟨⟩)
  | spent => trivial

/-- A step to a record that is alike, from a coroutine that has nothing to see to. -/
theorem watched_of_alike {u : World N} {pc : Pc N} (hv : VigilInv cfg v)
    (h : Alike v.world.inst u.inst) (hreg : u.registered = v.world.registered)
    (hpass : pc.OfPass → (v.world.pc i).OfPass) (hpc : VigilPc v.world.inst pc)
    (hstart : pc.UserStarts = false) (hloose : ¬ Loose cfg v.world.inst (v.world.pc i)) :
    Watched cfg v (.run i inp) i (u.goto i pc) := by
  have hself : (u.goto i pc).pc i = pc := World.goto_self ..
  have hinst : (u.goto i pc).inst = u.inst := rfl
  refine ⟨hreg, h.engine, ?_, ?_, ?_, ?_, .inr fun hs => h.state.trans hs, .inr (.inr ⟨h, ?_, hloose⟩)⟩
  · rw [hinst, h.state, h.managed]
    exact hv.managed
  · rw [hinst, h.next, h.count]
    exact hv.budget
  · rw [hself]
    exact hpass
  · rw [hself]
    exact hpc.of_alike h
  · show ((u.goto i pc).pc i).UserStarts = false
    rw [hself]
    exact hstart

/-- A step after which the instance is kept, from a coroutine of the pass. -/
theorem watched_of_kept {u : World N} {pc : Pc N} (hreg : u.registered = v.world.registered)
    (heng : u.inst.engine = v.world.inst.engine)
    (hmanaged : u.inst.state = .starting → u.inst.managed = true)
    (hbudget : u.inst.nextRestartAt ≠ none → u.inst.restartCount < cfg.maxRestarts)
    (hpass : pc.OfPass → (v.world.pc i).OfPass)
    (hready : (v.world.pc i).OfPass ∨ (v.world.inst.state = .ready → u.inst.state = .ready))
    (hpc : VigilPc u.inst pc)
    (hkept : NotAbandoned cfg (v.note (.run i inp) (u.goto i pc)) ∨ Loose cfg u.inst pc) :
    Watched cfg v (.run i inp) i (u.goto i pc) := by
  have hself : (u.goto i pc).pc i = pc := World.goto_self ..
  refine ⟨hreg, heng, hmanaged, hbudget, ?_, ?_, hready, ?_⟩
  · rw [hself]
    exact hpass
  · rw [hself]
    exact hpc
  · rw [hself]
    obtain h | h := hkept
    · exact .inl h
    · exact .inr (.inl h)

/-! ## The steps of a pass -/

/-- A failure that was noticed: a restart is armed, or the budget is spent. -/
def Noticed (cfg : Settings) (inst : ModelInstance) : Prop :=
  inst.desired = .running →
    (inst.nextRestartAt ≠ none ∧ inst.restartCount < cfg.maxRestarts) ∨
    (inst.nextRestartAt = none ∧ cfg.maxRestarts ≤ inst.restartCount ∧ inst.managed = true)

theorem noticed_maybeScheduleRestart (hauto : cfg.autoRestart = true) {inst : ModelInstance}
    {now : Time} (hm : inst.managed = true)
    (hb : inst.nextRestartAt ≠ none → inst.restartCount < cfg.maxRestarts) :
    Noticed cfg (maybeScheduleRestart cfg inst now) := by
  intro hd
  by_cases hlt : inst.restartCount < cfg.maxRestarts
  · have hd : inst.desired = .running := by
      obtain ⟨t, ht⟩ := maybeScheduleRestart_eq cfg inst now
      rwa [ht] at hd
    rw [maybeScheduleRestart, if_pos ⟨hd, hm, hauto, hlt⟩]
    exact .inl ⟨Option.some_ne_none _, hlt⟩
  · rw [maybeScheduleRestart, if_neg fun h => hlt h.2.2.2]
    exact .inr ⟨by_contra fun hne => hlt (hb hne), Nat.le_of_not_lt hlt, hm⟩

theorem budget_maybeScheduleRestart {inst : ModelInstance} {now : Time}
    (hb : inst.nextRestartAt ≠ none → inst.restartCount < cfg.maxRestarts) :
    (maybeScheduleRestart cfg inst now).nextRestartAt ≠ none →
      (maybeScheduleRestart cfg inst now).restartCount < cfg.maxRestarts := by
  unfold maybeScheduleRestart
  split_ifs with h
  · exact fun _ => h.2.2.2
  · exact hb

theorem kept_of_noticed (h : Noticed cfg w'.inst) :
    NotAbandoned cfg (v.note e w') ∨ Loose cfg w'.inst (.passRecord .failed : Pc N) := by
  by_cases hd : w'.inst.desired = .running
  · obtain harmed | ⟨hnext, hcount, hm⟩ := h hd
    · exact .inl fun _ _ => .inl harmed
    · exact .inr (.spent hnext hcount hm)
  · exact .inl (kept_of_desired hd)

/-- A pass that notices a failure. `inst` is the record before the restart is considered. -/
theorem watched_of_failure {u : World N} {inst : ModelInstance} {now : Time} (hv : VigilInv cfg v)
    (hauto : cfg.autoRestart = true) (hi : (v.world.pc i).OfPass)
    (hreg : u.registered = v.world.registered) (hu : u.inst = maybeScheduleRestart cfg inst now)
    (hstate : inst.state = .failed) (hm : inst.managed = true)
    (hnext : inst.nextRestartAt = v.world.inst.nextRestartAt)
    (hcount : inst.restartCount = v.world.inst.restartCount)
    (heng : inst.engine = v.world.inst.engine) :
    Watched cfg v (.run i inp) i (u.goto i (.passRecord .failed)) := by
  have hb : inst.nextRestartAt ≠ none → inst.restartCount < cfg.maxRestarts := by
    rw [hnext, hcount]
    exact hv.budget
  have hfailed : u.inst.state = .failed ∧ u.inst.engine = v.world.inst.engine := by
    obtain ⟨t, ht⟩ := maybeScheduleRestart_eq cfg inst now
    rw [hu, ht]
    exact ⟨hstate, heng⟩
  refine watched_of_kept hreg hfailed.2 ?_ ?_ (fun _ => hi) (.inl hi) (.pass trivial) ?_
  · intro hs
    cases hfailed.1.symm.trans hs
  · rw [hu]
    exact budget_maybeScheduleRestart hb
  · have hnoticed : Noticed cfg (u.goto i (.passRecord .failed)).inst := by
      show Noticed cfg u.inst
      rw [hu]
      exact noticed_maybeScheduleRestart hauto hm hb
    exact kept_of_noticed hnoticed

theorem passStep_watched (hv : VigilInv cfg v) (hauto : cfg.autoRestart = true)
    (hpc : v.world.pc i = .passLock) :
    Watched cfg v (.run i inp) i (passStep cfg v.world i) := by
  have hi : (v.world.pc i).OfPass := by
    rw [hpc]
    trivial
  have hloose : ¬ Loose cfg v.world.inst (v.world.pc i) := by
    rw [hpc]
    rintro ⟨⟩
  have same {u : World N} {pc : Pc N} (hu : u.inst = v.world.inst)
      (hreg : u.registered = v.world.registered) (hpass : pc.InPass) (hs : pc.UserStarts = false) :
      Watched cfg v (.run i inp) i (u.goto i pc) :=
    watched_of_alike hv (.of_eq hu) hreg (fun _ => hi) (.pass hpass) hs hloose
  obtain h | ⟨inst, tr, hexit, h⟩ | ⟨-, h⟩ := passStep_cases cfg v.world i
  · rw [h]
    exact same rfl rfl trivial rfl
  · rw [h]
    unfold reconcileExit checkProcessExit at hexit
    split at hexit
    next p hm hp =>
      split_ifs at hexit
      · cases hexit
      · cases hexit
        refine watched_of_kept rfl rfl ?_ hv.budget (fun _ => hi) (.inl hi) (.pass trivial)
          (.inl (kept_of_state ?_))
        · rintro ⟨⟩
        · rintro ⟨⟩
      · simp only [Option.map_some, if_true, Option.some.injEq, Prod.mk.injEq] at hexit
        rw [← hexit.1, ← hexit.2]
        exact watched_of_failure hv hauto hi rfl rfl rfl hm rfl rfl rfl
    next => cases hexit
  · rw [h]
    exact same rfl rfl trivial rfl

theorem probeStep_watched (hv : VigilInv cfg v) (hauto : cfg.autoRestart = true)
    (hpc : v.world.pc i = .passProbe) :
    Watched cfg v (.run i inp) i (probeStep cfg v.world i inp) := by
  have hi : (v.world.pc i).OfPass := by
    rw [hpc]
    trivial
  have hloose : ¬ Loose cfg v.world.inst (v.world.pc i) := by
    rw [hpc]
    rintro ⟨⟩
  have hreg (u : World N) (kill : Option Pid) : (u.hand kill).registered = u.registered := by
    cases kill <;> rfl
  unfold probeStep reconcileProbe
  by_cases hs : v.world.inst.state = .starting
  · rw [if_pos hs]
    by_cases hok : inp.ok = true
    · rw [if_pos hok]
      refine watched_of_kept rfl rfl ?_ ?_ (fun _ => hi) (.inl hi) (.pass trivial)
        (.inl (kept_of_state ?_))
      · rintro ⟨⟩
      · exact fun hne => absurd rfl hne
      · rintro ⟨⟩
    · obtain ⟨n, t, hnote⟩ := noteProgress_eq v.world.inst inp.size v.world.clock
      rw [if_neg hok, hnote]
      dsimp only
      split_ifs
      · exact watched_of_failure hv hauto hi (hreg _ _) (World.hand_inst ..) rfl (hv.managed hs) rfl
          rfl rfl
      · exact watched_of_alike hv ⟨rfl, rfl, rfl, rfl, rfl, rfl⟩ rfl (fun _ => hi) (.pass trivial)
          rfl hloose
  · rw [if_neg hs]
    exact watched_of_alike hv (.of_eq rfl) rfl (fun _ => hi) (.pass trivial) rfl hloose

/-- A record that is emitted. A budget that is spent is alerted here. -/
theorem recordStep_watched {target : ModelState} {pc : Pc N} (hv : VigilInv cfg v)
    (hauto : cfg.autoRestart = true)
    (hat : v.world.pc i = .passRecord target ∨ ¬ Loose cfg v.world.inst (v.world.pc i))
    (hi : (v.world.pc i).OfPass) (hpc : VigilPc v.world.inst pc) (hs : pc.UserStarts = false) :
    Watched cfg v (.run i inp) i ((recordStep cfg v.world target).goto i pc) := by
  obtain ⟨f, hinst⟩ := recordStep_inst cfg v.world target
  have halike : Alike v.world.inst (recordStep cfg v.world target).inst := by
    rw [hinst]
    exact ⟨rfl, rfl, rfl, rfl, rfl, rfl⟩
  by_cases hloose : Loose cfg v.world.inst (v.world.pc i)
  · obtain hat | hno := hat
    · rw [hat] at hloose
      obtain _ | _ | ⟨hnext, hcount, hm⟩ := hloose
      refine watched_of_kept rfl halike.engine ?_ ?_ (fun _ => hi) (.inl hi) (hpc.of_alike halike)
        (.inl fun hd _ => .inr ?_)
      · rw [halike.state, halike.managed]
        exact hv.managed
      · rw [halike.next, halike.count]
        exact hv.budget
      · -- the alert is sent by this step
        have hd : v.world.inst.desired = .running := halike.desired.symm.trans hd
        refine ⟨⟨.modelGaveUp, v.world.inst.restartCount⟩, ?_, rfl⟩
        have hsent : (recordStep cfg v.world .failed).alerts =
            ⟨.modelGaveUp, v.world.inst.restartCount⟩ :: v.world.alerts := by
          simp [recordStep, emitTransition, classifyEvent, hm, hd, hauto, hcount, hnext]
        have hstart : Event.UserStarts ((recordStep cfg v.world .failed).goto i pc)
            (.run i inp) = false := by
          show (((recordStep cfg v.world .failed).goto i pc).pc i).UserStarts = false
          rw [World.goto_self]
          exact hs
        have hstate : ((recordStep cfg v.world .failed).goto i pc).inst.state =
            v.world.inst.state := halike.state
        rw [sent_note hstate hstart]
        refine List.mem_append_left _ ?_
        show _ ∈ ((recordStep cfg v.world .failed).alerts).take
          ((recordStep cfg v.world .failed).alerts.length - _)
        rw [hsent, List.length_cons, Nat.add_sub_cancel_left]
        exact List.mem_cons_self
    · exact absurd hloose hno
  · exact watched_of_alike hv halike rfl (fun _ => hi) hpc hs hloose

theorem userStarts_of_inPass {pc : Pc N} (h : pc.InPass) : pc.UserStarts = false := by
  cases pc <;> first | rfl | exact h.elim

theorem resume_inPass (c : Caller) : (c.resume : Pc N).InPass := by
  cases c <;> trivial

theorem ofPass_resume {c : Caller} (h : (c.resume : Pc N).OfPass) : c ≠ .user := by
  rintro rfl
  exact h

variable [DecidableEq N] {me : N}

/-- **Steps of a pass.** -/
theorem pass_watched (hv : VigilInv cfg v) (hauto : cfg.autoRestart = true)
    (hpc : (v.world.pc i).InPass)
    (h : resume cfg me v.world i inp (v.world.pc i) = some w') :
    Watched cfg v (.run i inp) i w' := by
  have on {pc : Pc N} (hi : (v.world.pc i).OfPass) (hloose : ¬ Loose cfg v.world.inst (v.world.pc i))
      (hpc : VigilPc v.world.inst pc) (hs : pc.UserStarts = false) :
      Watched cfg v (.run i inp) i (v.world.goto i pc) :=
    watched_of_alike hv (.of_eq rfl) rfl (fun _ => hi) hpc hs hloose
  have after (foreign : Bool) (hi : (v.world.pc i).OfPass)
      (hloose : ¬ Loose cfg v.world.inst (v.world.pc i)) :
      Watched cfg v (.run i inp) i (v.world.goto i (afterForeign cfg foreign)) :=
    on hi hloose (.pass (inPass_afterForeign cfg foreign))
      (userStarts_of_inPass (inPass_afterForeign cfg foreign))
  cases hat : v.world.pc i <;> rw [hat] at hpc <;> try exact hpc.elim
  all_goals rw [hat] at h on after
  case idle => cases h
  case passLock =>
    obtain ⟨-, rfl⟩ := World.locked_eq_some.mp h
    exact passStep_watched hv hauto hat
  case passProbe =>
    cases h
    exact probeStep_watched hv hauto hat
  case passRecord target =>
    cases h
    exact recordStep_watched hv hauto (.inl hat) (by rw [hat]; trivial) (.pass trivial) rfl
  case passAssignments =>
    cases h
    split_ifs
    · exact on trivial (by rintro ⟨⟩) (.pass trivial) rfl
    · exact after false trivial (by rintro ⟨⟩)
  case passNodes owner =>
    cases h
    exact after _ trivial (by rintro ⟨⟩)
  case passRestarts foreign =>
    cases h
    exact on trivial (by rintro ⟨⟩) (.pass trivial) rfl
  case passRestartsLock foreign now =>
    obtain ⟨-, rfl⟩ := World.locked_eq_some.mp h
    split_ifs with hdue
    · refine watched_of_kept rfl rfl hv.managed ?_ (fun _ => ?_) (.inl ?_) (.start _)
        (.inr (.call foreign))
      · exact fun hne => absurd rfl hne
      · rw [hat]
        trivial
      · rw [hat]
        trivial
    · exact on trivial (by rintro ⟨⟩) (.pass trivial) rfl
  case passDesired foreign =>
    cases h
    refine on trivial (by rintro ⟨⟩) (.pass ?_) ?_ <;>
      cases inp.ok <;> cases v.world.store.desired <;> trivial
  case passSnapshot foreign want =>
    obtain ⟨-, rfl⟩ := World.locked_eq_some.mp h
    refine on trivial (by rintro ⟨⟩) ?_ ?_ <;> split_ifs
    · exact .pass trivial
    · cases convergeAction want v.world.inst.state with
      | none => exact .pass trivial
      | some op => exact .call op
    · rfl
    · cases convergeAction want v.world.inst.state <;> rfl

omit [DecidableEq N] in
/-- A start that gets past `build_spec`, and one that does not. -/
theorem enter_start (hv : VigilInv cfg v) (c : Caller) : v.world.enter cfg c .start inp =
    match inp.spec with
    | none => c.resume
    | some spec => .startPreflight c spec := by
  unfold World.enter
  rw [hv.registered, hv.canRun]
  rfl

omit [DecidableEq N] in
theorem start_watched {c : Caller} (hv : VigilInv cfg v) (hat : v.world.pc i = .call c .start)
    (hspec : v.world.inst.state = .failed → ∀ f, c = .restart f → inp.spec ≠ none) :
    Watched cfg v (.run i inp) i (v.world.goto i (v.world.enter cfg c .start inp)) := by
  have hpass (pc : Pc N) (h : pc.OfPass → c ≠ .user) : pc.OfPass → (v.world.pc i).OfPass := by
    rw [hat]
    exact h
  rw [enter_start hv]
  by_cases hc : ∃ f, c = .restart f
  · obtain ⟨f, rfl⟩ := hc
    have hi : (v.world.pc i).OfPass := by
      rw [hat]
      exact (by rintro ⟨⟩)
    cases hspec' : inp.spec with
    | none =>
      have hs : v.world.inst.state ≠ .failed := fun hs => hspec hs f rfl hspec'
      exact watched_of_kept rfl rfl hv.managed hv.budget (fun _ => hi) (.inl hi) (.pass trivial)
        (.inl (kept_of_state hs))
    | some spec =>
      exact watched_of_kept rfl rfl hv.managed hv.budget (fun _ => hi) (.inl hi) (.preflight _ _)
        (.inr (.preflight f spec))
  · have hloose : ¬ Loose cfg v.world.inst (v.world.pc i) := by
      rw [hat]
      rintro ⟨⟩
      exact hc ⟨_, rfl⟩
    cases inp.spec with
    | none =>
      exact watched_of_alike hv (.of_eq rfl) rfl (hpass _ ofPass_resume) (.pass (resume_inPass c))
        (userStarts_of_inPass (resume_inPass c)) hloose
    | some spec =>
      exact watched_of_alike hv (.of_eq rfl) rfl (hpass _ id) (.preflight c spec) rfl hloose

omit [DecidableEq N] in
/-- The calls of `converge_desired`. -/
theorem converge_watched {op : Op} (hv : VigilInv cfg v) (hat : v.world.pc i = .call .converge op) :
    Watched cfg v (.run i inp) i (v.world.goto i (v.world.enter cfg .converge op inp)) := by
  have hi : (v.world.pc i).OfPass := by
    rw [hat]
    exact (by rintro ⟨⟩)
  have hloose : ¬ Loose cfg v.world.inst (v.world.pc i) := by
    rw [hat]
    rintro ⟨⟩
  have on {pc : Pc N} (hpc : VigilPc v.world.inst pc) (hs : pc.UserStarts = false) :
      Watched cfg v (.run i inp) i (v.world.goto i pc) :=
    watched_of_alike hv (.of_eq rfl) rfl (fun _ => hi) hpc hs hloose
  obtain h | ⟨-, hno⟩ | ⟨-, spec, -, h⟩ | ⟨-, h⟩ | ⟨-, h⟩ | ⟨-, h⟩ :=
    v.world.enter_cases cfg .converge op inp
  · rw [h]
    exact on (.pass trivial) rfl
  · rw [hv.canRun] at hno
    cases hno
  · rw [h]
    exact on (.preflight _ _) rfl
  · rw [h]
    exact on .stopLock rfl
  · rw [h]
    exact on .sleepLock rfl
  · rw [h]
    exact on .wakeLock rfl

/-- A start that passed its pre-flight takes the instance to STARTING, or finds it there. -/
theorem preflight_watched {c : Caller} {spec : LaunchSpec} (hv : VigilInv cfg v)
    (hat : v.world.pc i = .startPreflight c spec)
    (hok : v.world.inst.state = .failed → ∀ f, c = .restart f → inp.ok = true)
    (h : resume cfg me v.world i inp (.startPreflight c spec) = some w') :
    Watched cfg v (.run i inp) i w' := by
  have hback : ∀ {pc : Pc N}, (pc.OfPass → c ≠ .user) → pc.OfPass → (v.world.pc i).OfPass := by
    intro pc h
    rw [hat]
    exact h
  have back (hs : v.world.inst.state ≠ .failed) :
      Watched cfg v (.run i inp) i (v.world.goto i c.resume) :=
    watched_of_kept rfl rfl hv.managed hv.budget (hback ofPass_resume) (.inr id)
      (.pass (resume_inPass c)) (.inl (kept_of_state hs))
  simp only [resume] at h
  split_ifs at h with hinp
  · split at h
    next err hstart =>
      obtain ⟨-, rfl⟩ := World.locked_eq_some.mp h
      refine back fun hs => ?_
      unfold startSection at hstart
      split_ifs at hstart with hbusy
      obtain hbusy | hbusy := hbusy <;> cases hs.symm.trans hbusy
    next inst hstart =>
      obtain ⟨-, rfl⟩ := World.locked_eq_some.mp h
      obtain ⟨-, hready, rfl⟩ := startSection_eq_ok hstart
      refine watched_of_kept rfl rfl (fun _ => rfl) ?_ (hback id) (.inr fun hs => absurd hs hready)
        (.spawn _ _) (.inl (kept_of_state ?_))
      · exact fun hne => absurd rfl hne
      · rintro ⟨⟩
  · cases h
    by_cases hc : ∃ f, c = .restart f
    · obtain ⟨f, rfl⟩ := hc
      exact back fun hs => hinp (hok hs f rfl)
    · refine watched_of_alike hv (.of_eq rfl) rfl (hback ofPass_resume) (.pass (resume_inPass c))
        (userStarts_of_inPass (resume_inPass c)) ?_
      rw [hat]
      rintro ⟨⟩
      exact hc ⟨_, rfl⟩

theorem converge_ne_user : Caller.converge ≠ .user := by
  rintro ⟨⟩

/-- **Every step of a coroutine is watched**, under the condition. -/
theorem run_watched (hv : VigilInv cfg v) (hauto : cfg.autoRestart = true)
    (hG : Unrefused v.world (.run i inp))
    (h : step cfg me v.world (.run i inp) = some w') : Watched cfg v (.run i inp) i w' := by
  obtain ⟨hspawn, hrefuse⟩ := hG
  have hpc := hv.pcs i
  simp only [step] at h
  generalize hat : v.world.pc i = pc at h hpc
  have hpass : pc.OfPass → (v.world.pc i).OfPass := hat ▸ id
  -- a step to a record that is alike, from a coroutine that has nothing to see to
  have on {u : World N} {pc' : Pc N} (hu : Alike v.world.inst u.inst)
      (hreg : u.registered = v.world.registered) (hpass : pc'.OfPass → pc.OfPass)
      (hpc : VigilPc v.world.inst pc') (hs : pc'.UserStarts = false)
      (hloose : ¬ Loose cfg v.world.inst pc) : Watched cfg v (.run i inp) i (u.goto i pc') :=
    watched_of_alike hv hu hreg (hat ▸ hpass) hpc hs (hat ▸ hloose)
  cases hpc with
  | pass hp => exact pass_watched hv hauto (hat ▸ hp) (hat ▸ h)
  | start c =>
    cases h
    refine start_watched hv hat fun hs f hf => (hrefuse hs).1 f ?_
    rw [hat, hf]
  | call op =>
    cases h
    exact converge_watched hv hat
  | preflight c spec =>
    refine preflight_watched hv hat (fun hs f hf => (hrefuse hs).2 f spec ?_) h
    rw [hat, hf]
  | spawn c spec =>
    simp only [resume, hspawn c spec hat, if_true] at h
    cases h
    exact on (.of_eq rfl) rfl id (.store c _) rfl (by rintro ⟨⟩)
  | store c p =>
    obtain ⟨-, rfl⟩ := World.locked_eq_some.mp h
    exact on ⟨rfl, rfl, rfl, rfl, rfl, rfl⟩ rfl id (.row c _) rfl (by rintro ⟨⟩)
  | stopLock =>
    simp only [resume] at h
    have hi := hpass converge_ne_user
    obtain ⟨p, -, -, hstop⟩ | ⟨⟨-, hs⟩, hstop⟩ | ⟨-, -, hstop⟩ := stopSection_cases v.world.inst
    all_goals
      rw [hstop] at h
      obtain ⟨-, rfl⟩ := World.locked_eq_some.mp h
    · refine watched_of_kept rfl rfl ?_ hv.budget (fun _ => hi) (.inl hi) (.stopDrain p)
        (.inl (kept_of_state ?_)) <;> rintro ⟨⟩
    · refine watched_of_kept rfl rfl hv.managed hv.budget (fun _ => hi) (.inl hi) .stopHeld
        (.inl (kept_of_desired ?_))
      rintro ⟨⟩
    · refine watched_of_kept rfl rfl ?_ hv.budget (fun _ => hi) (.inl hi) .stopHeld
        (.inl (kept_of_state ?_)) <;> rintro ⟨⟩
  | stopHeld =>
    cases h
    refine on ?_ ?_ ofPass_resume (.pass trivial) rfl (by rintro ⟨⟩)
    · exact .of_eq (World.setRow_inst ..)
    · cases inp.ok <;> rfl
  | stopDrain p =>
    cases h
    exact on (.of_eq rfl) rfl id (.stopReap p) rfl (by rintro ⟨⟩)
  | stopReap p =>
    simp only [resume] at h
    split_ifs at h
    obtain ⟨-, rfl⟩ := World.locked_eq_some.mp h
    have hi := hpass converge_ne_user
    refine watched_of_kept rfl rfl ?_ hv.budget (fun _ => hi) (.inl hi) (.row _ _)
      (.inl (kept_of_state ?_)) <;> rintro ⟨⟩
  | sleepLock =>
    simp only [resume] at h
    have hi := hpass converge_ne_user
    split at h
    · obtain ⟨-, rfl⟩ := World.locked_eq_some.mp h
      exact on (.of_eq rfl) rfl ofPass_resume (.pass trivial) rfl (by rintro ⟨⟩)
    next inst hsleep =>
      obtain ⟨-, rfl⟩ := World.locked_eq_some.mp h
      obtain ⟨hs, rfl⟩ := sleepSection_eq_ok hsleep
      refine watched_of_kept rfl rfl hv.managed hv.budget (fun _ => hi) (.inl hi) (.sleepPost hs)
        (.inl (kept_of_desired ?_))
      rintro ⟨⟩
  | sleepPost hs =>
    simp only [resume] at h
    have hi := hpass converge_ne_user
    split_ifs at h <;> obtain ⟨-, rfl⟩ := World.locked_eq_some.mp h
    · refine watched_of_kept rfl rfl ?_ hv.budget (fun _ => hi) (.inl hi) (.row _ _)
        (.inl (kept_of_state ?_)) <;> rintro ⟨⟩
    · -- the record is still READY
      refine watched_of_kept rfl rfl hv.managed hv.budget (fun _ => hi) (.inl hi) (.pass trivial)
        (.inl (kept_of_state ?_))
      show v.world.inst.state ≠ .failed
      rw [hs]
      rintro ⟨⟩
  | wakeLock =>
    simp only [resume] at h
    have hi := hpass converge_ne_user
    split at h
    · obtain ⟨-, rfl⟩ := World.locked_eq_some.mp h
      exact on (.of_eq rfl) rfl ofPass_resume (.pass trivial) rfl (by rintro ⟨⟩)
    next inst hwake =>
      obtain ⟨-, rfl⟩ := World.locked_eq_some.mp h
      obtain ⟨hs, rfl⟩ := wakeSection_eq_ok hwake
      refine watched_of_kept rfl rfl hv.managed hv.budget (fun _ => hi) (.inl hi) .wakePost
        (.inl (kept_of_state ?_))
      show v.world.inst.state ≠ .failed
      rw [hs]
      rintro ⟨⟩
  | wakePost =>
    simp only [resume] at h
    have hi := hpass converge_ne_user
    split_ifs at h <;> obtain ⟨-, rfl⟩ := World.locked_eq_some.mp h
    · refine watched_of_kept rfl rfl ?_ hv.budget (fun _ => hi) (.inl hi) .wakeRecord
        (.inl (kept_of_state ?_)) <;> rintro ⟨⟩
    · refine watched_of_kept rfl rfl hv.managed hv.budget (fun _ => hi) (.inl hi) (.pass trivial)
        (.inl (kept_of_desired ?_))
      rintro ⟨⟩
  | wakeRecord =>
    cases h
    refine recordStep_watched hv hauto (.inr ?_) ?_ (.row _ _) rfl <;> rw [hat]
    · rintro ⟨⟩
    · exact (by rintro ⟨⟩)
  | row c want =>
    cases h
    refine on (.of_eq (World.setRow_inst ..)) ?_ ?_ ?_ ?_ (by rintro ⟨⟩)
    · cases inp.ok <;> rfl
    · split_ifs
      · exact ofPass_resume
      · exact id
    · split_ifs
      · exact .pass (resume_inPass c)
      · exact .assign c
    · split_ifs
      · exact userStarts_of_inPass (resume_inPass c)
      · rfl
  | assign c =>
    cases h
    refine on (.of_eq (World.setAssignment_inst ..)) ?_ ofPass_resume (.pass (resume_inPass c))
      (userStarts_of_inPass (resume_inPass c)) (by rintro ⟨⟩)
    cases inp.ok <;> rfl

/-! ## Runs -/

omit [DecidableEq N] in
/-- A step of the environment. -/
theorem VigilInv.outside {u : World N} (hv : VigilInv cfg v) (hinst : u.inst = v.world.inst)
    (hreg : u.registered = v.world.registered) (he : e.UserStarts u = false)
    (hsingle : ∀ i j, (u.pc i).OfPass → (u.pc j).OfPass → i = j)
    (hpcs : ∀ i, VigilPc v.world.inst (u.pc i))
    (hloose : ∀ i, Loose cfg v.world.inst (v.world.pc i) → Loose cfg v.world.inst (u.pc i)) :
    VigilInv cfg (v.note e u) := by
  have halike := Alike.of_eq hinst
  refine ⟨hreg.trans hv.registered, ?_, ?_, ?_, hsingle, fun i => (hpcs i).of_alike halike, ?_⟩
  · exact hinst.symm ▸ hv.canRun
  · exact hinst.symm ▸ hv.managed
  · exact hinst.symm ▸ hv.budget
  · obtain hk | ⟨i, hi⟩ := hv.kept
    · exact .inl (kept_of_alike halike he hk)
    · exact .inr ⟨i, (hloose i hi).of_alike halike⟩

theorem VigilInv.run (hv : VigilInv cfg v) (hauto : cfg.autoRestart = true)
    (hG : Unrefused v.world (.run i inp)) (h : step cfg me v.world (.run i inp) = some w') :
    VigilInv cfg (v.note (.run i inp) w') := by
  obtain ⟨hreg, heng, hmanaged, hbudget, hpass, hpc, hready, hkept⟩ := run_watched hv hauto hG h
  have hother (j : Nat) (hj : j ≠ i) : w'.pc j = v.world.pc j := resume_pc_of_ne h hj
  have hback (j : Nat) (hj : (w'.pc j).OfPass) : (v.world.pc j).OfPass := by
    by_cases hji : j = i
    · rw [hji] at hj ⊢
      exact hpass hj
    · rwa [hother j hji] at hj
  refine ⟨hreg.trans hv.registered, ?_, hmanaged, hbudget,
    fun j k hj hk => hv.single j k (hback j hj) (hback k hk), fun j => ?_, ?_⟩
  · show cfg.nodeCanRun w'.inst.engine = true
    rw [heng]
    exact hv.canRun
  · by_cases hji : j = i
    · rw [hji]
      exact hpc
    · show VigilPc w'.inst (w'.pc j)
      rw [hother j hji]
      -- beside a pass only users' starts run, and they leave a READY instance alone
      refine (hv.pcs j).mono fun hj hs => ?_
      obtain hi | hkeep := hready
      · exact absurd (hv.single j i hj hi) hji
      · exact hkeep hs
  · obtain hk | hl | ⟨halike, hstart, hno⟩ := hkept
    · exact .inl hk
    · exact .inr ⟨i, hl⟩
    · obtain hk | ⟨j, hj⟩ := hv.kept
      · exact .inl (kept_of_alike halike hstart hk)
      · have hji : j ≠ i := by
          rintro rfl
          exact hno hj
        refine .inr ⟨j, ?_⟩
        show Loose cfg w'.inst (w'.pc j)
        rw [hother j hji]
        exact hj.of_alike halike

theorem VigilInv.step (hv : VigilInv cfg v) (hauto : cfg.autoRestart = true)
    (hG : StartsOnly v.world e ∧ Unrefused v.world e) (h : step cfg me v.world e = some w') :
    VigilInv cfg (v.note e w') := by
  -- a coroutine that was idle takes up something new
  have fresh {i : Nat} {pc : Pc N} (he : e.UserStarts (v.world.goto i pc) = false)
      (hidle : v.world.pc i = .idle) (hpc : VigilPc v.world.inst pc)
      (hsingle : pc.OfPass → ∀ j, ¬ (v.world.pc j).OfPass) :
      VigilInv cfg (v.note e (v.world.goto i pc)) := by
    refine hv.outside rfl rfl he ?_ ?_ ?_
    · intro j k hj hk
      rw [World.goto_pc] at hj hk
      split_ifs at hj hk with hji hki hki
      · rw [hji, hki]
      · exact absurd hk (hsingle hj k)
      · exact absurd hj (hsingle hk j)
      · exact hv.single j k hj hk
    · intro j
      rw [World.goto_pc]
      split_ifs
      · exact hpc
      · exact hv.pcs j
    · intro j hj
      by_cases hji : j = i
      · rw [hji, hidle] at hj
        cases hj
      · rwa [World.goto_pc_of_ne _ _ hji]
  cases e with
  | request i op =>
    obtain ⟨rfl, -⟩ := hG
    simp only [Node.step] at h
    split_ifs at h with hidle
    cases h
    exact fresh rfl hidle (.start .user) fun hp => absurd rfl hp
  | replay i => exact hG.1.elim
  | pass i =>
    simp only [Node.step] at h
    split_ifs at h with hidle
    cases h
    exact fresh rfl hidle (.pass trivial) fun _ => hG.1
  | run i inp => exact hv.run hauto hG.2 h
  | exit p =>
    simp only [Node.step] at h
    split_ifs at h
    cases h
    exact hv.outside rfl rfl rfl hv.single hv.pcs fun _ => id
  | clock now =>
    cases h
    exact hv.outside rfl rfl rfl hv.single hv.pcs fun _ => id
  | store rows =>
    cases h
    exact hv.outside rfl rfl rfl hv.single hv.pcs fun _ => id

/-- **A wanted instance is not abandoned in silence**, as long as no spawn fails and no restart is
refused by a pre-flight. -/
theorem kept_of_reach {w : World N} (hauto : cfg.autoRestart = true) (h₀ : Booted cfg w)
    (h : Reach (vigilStep cfg me) (fun v e => StartsOnly v.world e ∧ Unrefused v.world e)
      (.init w) v)
    (hend : ∀ i, ¬ (v.world.pc i).OfPass) : NotAbandoned cfg v := by
  have hv : VigilInv cfg v := by
    refine h.invariant (I := VigilInv cfg) h₀.inv fun {a b e} hi hG he => ?_
    obtain ⟨w', hstep, rfl⟩ := Option.map_eq_some_iff.mp he
    exact hi.step hauto hG hstep
  obtain hk | ⟨i, hi⟩ := hv.kept
  · exact hk
  · exact absurd hi.ofPass (hend i)

end Watch

/-! ## A crash, and a restart that is refused -/

theorem booted_bootWorld : Booted {} bootWorld := ⟨fun _ => rfl, rfl, rfl, .inl rfl, rfl⟩

/-- Coroutine `i` is resumed, its await succeeded, and `build_spec` would resolve. -/
def Event.spec (i : Nat) : Event Unit := .run i { spec := some sampleSpec }

/-- A pass comes up. The user starts the model, which crashes. -/
def startAndCrash : List (Event Unit) :=
  .pass 1 :: .request 0 .start :: List.replicate 6 (.spec 0) ++ [.exit 0]

/-- The pass notices the crash and goes on to its end. -/
def crashNoticed : List (Event Unit) := startAndCrash ++ List.replicate 8 (.spec 1)

/-- The pass takes the restart, which a pre-flight check refuses. -/
def restartRefused : List (Event Unit) :=
  startAndCrash ++ [.spec 1, .clock 6] ++ List.replicate 6 (.spec 1) ++ [.run 1 { ok := false }] ++
    List.replicate 2 (.spec 1)

/-- Only two coroutines are used. -/
theorem idle_of_run {es : List (Event Unit)} {v : Vigil Unit}
    (h : run (vigilStep {} ()) (.init bootWorld) es = some v)
    (hes : ∀ e ∈ es, e.on = none ∨ e.on = some 0 ∨ e.on = some 1) (h₀ : v.world.pc 0 = .idle)
    (h₁ : v.world.pc 1 = .idle) (i : Nat) : v.world.pc i = .idle := by
  have hrun : run (step {} ()) bootWorld es = some v.world := by
    refine run_project (p := Vigil.world) (fun {v e v'} he => ?_) h
    obtain ⟨w', hstep, rfl⟩ := Option.map_eq_some_iff.mp he
    exact hstep
  by_cases hi : i = 0
  · rw [hi, h₀]
  · by_cases hi' : i = 1
    · rw [hi', h₁]
    · refine run_pc_of_ne hrun fun e he => ?_
      obtain h | h | h := hes e he <;> rw [h] <;> simp [Ne.symm hi, Ne.symm hi']

/-- Events that meet the condition in every state. -/
theorem along_noticed : Along (vigilStep {} ()) (fun v e => StartsOnly v.world e ∧ Unrefused v.world e)
    (.init bootWorld) crashNoticed := by
  refine ⟨⟨fun j => id, trivial⟩, fun _ _ => ⟨⟨rfl, trivial⟩, fun _ _ => ?_⟩⟩
  refine Reach.along_of_forall fun e he v => ?_
  have he : (∃ i, e = .spec i) ∨ e = .exit 0 := by
    have he : e ∈ List.replicate 6 (Event.spec 0) ++ [.exit 0] ++ List.replicate 8 (.spec 1) := he
    simp only [List.mem_append, List.mem_replicate, List.mem_singleton] at he
    obtain (⟨-, rfl⟩ | rfl) | ⟨-, rfl⟩ := he
    · exact .inl ⟨0, rfl⟩
    · exact .inr rfl
    · exact .inl ⟨1, rfl⟩
  obtain ⟨i, rfl⟩ | rfl := he
  · exact ⟨trivial, fun _ _ _ => rfl, fun _ => ⟨fun _ _ => Option.some_ne_none _, fun _ _ _ => rfl⟩⟩
  · exact ⟨trivial, trivial⟩

/-- A crash that the pass has noticed: a restart is armed. -/
theorem kept_noticed : ∃ v, run (vigilStep {} ()) (.init bootWorld) crashNoticed = some v ∧
    v.world.inst.state = .failed ∧ v.world.inst.desired = .running ∧ NotAbandoned {} v := by
  have hany : (run (vigilStep {} ()) (.init bootWorld) crashNoticed).any (fun v =>
      v.world.inst.state = .failed ∧ v.world.inst.desired = .running ∧
        v.world.pc 0 = .idle ∧ v.world.pc 1 = .idle) = true := by decide +kernel
  obtain ⟨v, hrun, hv⟩ := (Option.any_eq_true _ _).mp hany
  obtain ⟨hs, hd, h₀, h₁⟩ := of_decide_eq_true hv
  have hidle := idle_of_run hrun (by decide) h₀ h₁
  refine ⟨v, hrun, hs, hd, kept_of_reach rfl booted_bootWorld
    (Reach.of_guarded_run hrun along_noticed) fun i => ?_⟩
  rw [hidle i]
  exact id

/-- **Abandoned in silence.** The pass has ended, the instance is wanted and FAILED, no restart is
armed and only `model_failed` was sent. -/
theorem abandoned : ∃ v, Reach (vigilStep {} ()) (fun v e => StartsOnly v.world e) (.init bootWorld) v ∧
    (∀ i, v.world.pc i = .idle) ∧ ¬ NotAbandoned {} v := by
  have hany : (run (vigilStep {} ()) (.init bootWorld) restartRefused).any (fun v =>
      v.world.inst.state = .failed ∧ v.world.inst.desired = .running ∧
        v.world.inst.nextRestartAt = none ∧ v.sent = [⟨.modelFailed, 0⟩] ∧
        v.world.pc 0 = .idle ∧ v.world.pc 1 = .idle) = true := by decide +kernel
  obtain ⟨v, hrun, hv⟩ := (Option.any_eq_true _ _).mp hany
  obtain ⟨hs, hd, hnext, hsent, h₀, h₁⟩ := of_decide_eq_true hv
  have halong : Along (vigilStep {} ()) (fun v e => StartsOnly v.world e) (.init bootWorld)
      restartRefused := by
    refine ⟨fun j => id, fun _ _ => ⟨rfl, fun _ _ => Reach.along_of_forall fun e he v => ?_⟩⟩
    have he : e ∈ List.replicate 6 (Event.spec 0) ++ [.exit 0, .spec 1, .clock 6] ++
      List.replicate 6 (.spec 1) ++ [.run 1 { ok := false }, .spec 1, .spec 1] := he
    simp only [List.mem_append, List.mem_replicate, List.mem_cons, List.not_mem_nil, or_false] at he
    obtain ((⟨-, rfl⟩ | rfl | rfl | rfl) | ⟨-, rfl⟩) | rfl | rfl | rfl := he <;> trivial
  refine ⟨v, Reach.of_guarded_run hrun halong, idle_of_run hrun (by decide) h₀ h₁, fun hk => ?_⟩
  obtain ⟨hne, -⟩ | ⟨a, ha, hgave⟩ := hk hd hs
  · exact hne hnext
  · rw [hsent, List.mem_singleton] at ha
    rw [ha] at hgave
    cases hgave

end Llmops.Node
