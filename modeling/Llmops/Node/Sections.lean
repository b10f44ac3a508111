import Llmops.Instance
import Mathlib

/-!
# The locked sections of the manager and the reconciler

Everything that `llmops/manager.py` and `llmops/reconciler.py` do to a record happens in sections
that run under `registry.lock` without an await inside. Each section is one pure function here,
under the source's name for it:

* `ModelManager.start` (`manager.py:453-509`): `startSection`, `startStoreSection`,
  `startFailSection`; `ModelManager.stop` (`:511-555`): `stopSection`, `stopFinalSection`;
  `sleep` and `wake` (`:559-638`): `sleepSection`, `sleepDone`, `sleepFailed` and their `wake`
  counterparts; `_defer_to_owner` (`:130-153`): `deferSection`;
* `_check_process_exit`, `_maybe_schedule_restart`, `_reconcile_instance`
  (`reconciler.py:47-156`), `_process_restarts` (`:167-199`) and the table of `converge_desired`
  (`:265-314`);
* `classify_event` and `emit_transition` (`events.py:20-73`).

Error texts are the source's. `Node/Step.lean` interleaves the sections.
-/

namespace Llmops

/-- The `BackendSettings` these functions read, with their defaults (`core/settings.py`). -/
structure Settings where
  autoRestart : Bool := true
  maxRestarts : Nat := 3
  restartBackoffBase : Time := 5
  startTimeout : Time := 300
  nodeEngines : List String := []

/-- `_node_can_run`: an empty `node_engines` runs any engine. -/
def Settings.nodeCanRun (cfg : Settings) (engine : String) : Bool :=
  cfg.nodeEngines.isEmpty || cfg.nodeEngines.contains engine

/-- The exceptions of the manager that these sections raise. -/
inductive ManagerError where
  | modelNotFound (key : String)
  | modelAlreadyRunning (key : String)
  | modelConflict (message : String)
  deriving DecidableEq, Repr

/-- `ModelState.value`. -/
def ModelState.value : ModelState → String
  | .stopped => "stopped"
  | .starting => "starting"
  | .ready => "ready"
  | .sleeping => "sleeping"
  | .failed => "failed"
  | .stopping => "stopping"

/-! ## `ModelManager.start` -/

/-- `_vram_preflight` writes the device it placed an unpinned launch on into the spec's
environment. -/
def LaunchSpec.autoPlace (spec : LaunchSpec) : Option String → LaunchSpec
  | none => spec
  | some gpu =>
    { spec with
      env := spec.env.filter (fun kv => kv.1 ≠ "CUDA_VISIBLE_DEVICES") ++
        [("CUDA_VISIBLE_DEVICES", gpu)] }

/-- The first locked section of `start`: only STARTING and READY are refused. -/
def startSection (inst : ModelInstance) (spec : LaunchSpec) (resetRestart : Bool) (now : Time) :
    Except ManagerError ModelInstance :=
  if inst.state = .starting ∨ inst.state = .ready then
    .error (.modelAlreadyRunning inst.key)
  else
    .ok { inst with
      spec := spec
      desired := .running
      managed := true
      startedAt := some now
      lastLogSize := 0
      lastProgressAt := some now
      restartCount := if resetRestart then 0 else inst.restartCount
      nextRestartAt := none
      state := .starting }

/-- The second locked section of `start`: the spawned process is stored, whatever is there. -/
def startStoreSection (inst : ModelInstance) (proc : Pid) : ModelInstance :=
  { inst with proc := some proc }

/-- The locked section of `start` after a failed spawn. -/
def startFailSection (inst : ModelInstance) : ModelInstance :=
  { inst with managed := false, state := .failed }

/-- What an admitted start leaves in the record. -/
theorem startSection_eq_ok {inst inst' : ModelInstance} {spec : LaunchSpec} {reset : Bool}
    {now : Time} (h : startSection inst spec reset now = .ok inst') :
    inst.state ≠ .starting ∧ inst.state ≠ .ready ∧ inst' = { inst with
      spec := spec, desired := .running, managed := true, startedAt := some now, lastLogSize := 0,
      lastProgressAt := some now, restartCount := if reset then 0 else inst.restartCount,
      nextRestartAt := none, state := .starting } := by
  unfold startSection at h
  by_cases hs : inst.state = .starting ∨ inst.state = .ready
  · rw [if_pos hs] at h
    cases h
  · rw [if_neg hs] at h
    cases h
    exact ⟨fun h => hs (.inl h), fun h => hs (.inr h), rfl⟩

/-! ## `ModelManager.stop` -/

/-- The first locked section of `stop`: the record, and the process to terminate if the backend
owns one. An adopted READY instance is left as it is. -/
def stopSection (inst : ModelInstance) : ModelInstance × Option Pid :=
  match inst.managed, inst.proc with
  | true, some proc => ({ inst with desired := .stopped, state := .stopping }, some proc)
  | _, _ =>
    if inst.managed = false ∧ inst.state = .ready then ({ inst with desired := .stopped }, none)
    else ({ inst with desired := .stopped, proc := none, state := .stopped }, none)

/-- A stop takes the process of a managed record; or refuses an adopted READY one; or clears what
is not running. -/
theorem stopSection_cases (inst : ModelInstance) :
    (∃ proc, inst.managed = true ∧ inst.proc = some proc ∧
      stopSection inst = ({ inst with desired := .stopped, state := .stopping }, some proc)) ∨
    ((inst.managed = false ∧ inst.state = .ready) ∧
      stopSection inst = ({ inst with desired := .stopped }, none)) ∨
    ((inst.managed = false ∨ inst.proc = none) ∧ ¬ (inst.managed = false ∧ inst.state = .ready) ∧
      stopSection inst =
        ({ inst with desired := .stopped, proc := none, state := .stopped }, none)) := by
  unfold stopSection
  cases hm : inst.managed with
  | false =>
    by_cases hs : inst.state = .ready <;> simp [hs]
  | true => cases hp : inst.proc <;> simp

/-- The last locked section of `stop`: `inst.proc` is cleared, whoever stored it. -/
def stopFinalSection (inst : ModelInstance) : ModelInstance :=
  { inst with proc := none, state := .stopped }

/-! ## `ModelManager.sleep` and `wake`, `_defer_to_owner` -/

/-- The first locked section of `sleep`. -/
def sleepSection (inst : ModelInstance) : Except ManagerError ModelInstance :=
  if inst.state ≠ .ready then
    .error (.modelConflict s!"can only sleep a ready model; {inst.key} is {inst.state.value}")
  else .ok { inst with desired := .asleep }

theorem sleepSection_eq_ok {inst inst' : ModelInstance} (h : sleepSection inst = .ok inst') :
    inst.state = .ready ∧ inst' = { inst with desired := .asleep } := by
  unfold sleepSection at h
  by_cases hs : inst.state = .ready
  · rw [if_neg (not_not.mpr hs)] at h
    cases h
    exact ⟨hs, rfl⟩
  · rw [if_pos hs] at h
    cases h

/-- The section of `sleep` after a successful call: SLEEPING, whatever the state is by now. -/
def sleepDone (inst : ModelInstance) : ModelInstance := { inst with state := .sleeping }

/-- The section of `sleep` after a failed call. -/
def sleepFailed (inst : ModelInstance) : ModelInstance := { inst with desired := .running }

/-- The first locked section of `wake`. -/
def wakeSection (inst : ModelInstance) : Except ManagerError ModelInstance :=
  if inst.state ≠ .sleeping then
    .error (.modelConflict s!"can only wake a sleeping model; {inst.key} is {inst.state.value}")
  else .ok { inst with desired := .running }

theorem wakeSection_eq_ok {inst inst' : ModelInstance} (h : wakeSection inst = .ok inst') :
    inst.state = .sleeping ∧ inst' = { inst with desired := .running } := by
  unfold wakeSection at h
  by_cases hs : inst.state = .sleeping
  · rw [if_neg (not_not.mpr hs)] at h
    cases h
    exact ⟨hs, rfl⟩
  · rw [if_pos hs] at h
    cases h

/-- The section of `wake` after a successful call. -/
def wakeDone (inst : ModelInstance) : ModelInstance := { inst with state := .ready }

/-- The section of `wake` after a failed call. -/
def wakeFailed (inst : ModelInstance) : ModelInstance := { inst with desired := .asleep }

/-- The locked section of `_defer_to_owner`. -/
def deferSection (inst : ModelInstance) (desired : Desired) : ModelInstance :=
  { inst with desired := desired }

/-! ## The reconciler -/

/-- A captured transition `(from, to)` of one record. -/
abbrev Transition := ModelState × ModelState

/-- `_maybe_schedule_restart`: arm a restart with exponential backoff. -/
def maybeScheduleRestart (cfg : Settings) (inst : ModelInstance) (now : Time) : ModelInstance :=
  if inst.desired = .running ∧ inst.managed = true ∧ cfg.autoRestart = true ∧
      inst.restartCount < cfg.maxRestarts then
    { inst with nextRestartAt := some (now + cfg.restartBackoffBase * 2 ^ inst.restartCount) }
  else inst

/-- `_check_process_exit`: a managed process that exited moves the record to STOPPED when a stop
was asked for, to FAILED otherwise. `alive p` is `poll() is None`. -/
def checkProcessExit (alive : Pid → Bool) (inst : ModelInstance) :
    Option (ModelInstance × Transition) :=
  match inst.managed, inst.proc with
  | true, some proc =>
    if alive proc then none
    else if inst.state = .stopping then
      some ({ inst with proc := none, state := .stopped }, (.stopping, .stopped))
    else
      some ({ inst with proc := none, state := .failed, wasFailed := true }, (inst.state, .failed))
  | _, _ => none

/-- Step 1 of `_reconcile_instance`: process death, with the restart it arms. -/
def reconcileExit (cfg : Settings) (alive : Pid → Bool) (now : Time) (inst : ModelInstance) :
    Option (ModelInstance × Transition) :=
  (checkProcessExit alive inst).map fun r =>
    if r.2.2 = .failed then (maybeScheduleRestart cfg r.1 now, r.2) else r

/-- `_log_size`: the last seen size when the log cannot be read. -/
def logSize (inst : ModelInstance) (size : Option Nat) : Nat := size.getD inst.lastLogSize

/-- The progress bookkeeping of a STARTING instance whose probe failed. -/
def noteProgress (inst : ModelInstance) (size : Option Nat) (now : Time) : ModelInstance :=
  if inst.lastLogSize < logSize inst size then
    { inst with lastLogSize := logSize inst size, lastProgressAt := some now }
  else inst

/-- The moment the idle window of a STARTING instance opened. -/
def idleSince (inst : ModelInstance) (now : Time) : Time :=
  (inst.lastProgressAt.or inst.startedAt).getD now

/-- Step 2 of `_reconcile_instance`, after the probe answered: the record, the transition, and
the process that `_kill_async` reaps on a startup timeout. -/
def reconcileProbe (cfg : Settings) (inst : ModelInstance) (ready : Bool) (size : Option Nat)
    (now : Time) : ModelInstance × Option Transition × Option Pid :=
  if inst.state = .starting then
    if ready then
      ({ inst with restartCount := 0, nextRestartAt := none, state := .ready },
        some (.starting, .ready), none)
    else
      let inst := noteProgress inst size now
      if cfg.startTimeout < now - idleSince inst now then
        (maybeScheduleRestart cfg
          { inst with proc := none, state := .failed, wasFailed := true } now,
          some (.starting, .failed), inst.proc)
      else (inst, none, none)
  else (inst, none, none)

/-- `_process_restarts`: the instance is crashed, wanted, and its backoff has elapsed. -/
def restartDue (cfg : Settings) (foreign : Bool) (now : Time) (inst : ModelInstance) : Bool :=
  inst.state = .failed && inst.desired = .running && inst.managed && !foreign &&
    inst.nextRestartAt.any (fun t => decide (t ≤ now)) && inst.restartCount < cfg.maxRestarts

/-- The bookkeeping `_process_restarts` does for a due instance before it calls `start`. -/
def takeRestart (inst : ModelInstance) : ModelInstance :=
  { inst with nextRestartAt := none, restartCount := inst.restartCount + 1 }

/-! What these functions leave alone, and all they can do. -/

/-- A STARTING instance has shown no progress for longer than `start_timeout`. -/
def TimedOut (cfg : Settings) (inst : ModelInstance) (size : Option Nat) (now : Time) : Prop :=
  cfg.startTimeout < now - idleSince (noteProgress inst size now) now

theorem maybeScheduleRestart_eq (cfg : Settings) (inst : ModelInstance) (now : Time) :
    ∃ t, maybeScheduleRestart cfg inst now = { inst with nextRestartAt := t } := by
  unfold maybeScheduleRestart
  split_ifs
  · exact ⟨_, rfl⟩
  · exact ⟨inst.nextRestartAt, rfl⟩

theorem noteProgress_eq (inst : ModelInstance) (size : Option Nat) (now : Time) :
    ∃ n t, noteProgress inst size now = { inst with lastLogSize := n, lastProgressAt := t } := by
  unfold noteProgress
  split_ifs
  · exact ⟨_, _, rfl⟩
  · exact ⟨inst.lastLogSize, inst.lastProgressAt, rfl⟩

/-- An exit is noticed of a managed process that is dead. The record then names none, and is
STOPPED if it was STOPPING and FAILED otherwise. -/
theorem reconcileExit_eq_some {cfg : Settings} {alive : Pid → Bool} {now : Time}
    {inst inst' : ModelInstance} {tr : Transition}
    (h : reconcileExit cfg alive now inst = some (inst', tr)) :
    ∃ p, inst.managed = true ∧ inst.proc = some p ∧ alive p = false ∧
      ((inst.state = .stopping ∧ inst' = { inst with proc := none, state := .stopped } ∧
        tr = (.stopping, .stopped)) ∨
      (inst.state ≠ .stopping ∧ tr = (inst.state, .failed) ∧ ∃ t, inst' =
        { inst with proc := none, state := .failed, wasFailed := true, nextRestartAt := t })) := by
  unfold reconcileExit checkProcessExit at h
  split at h
  case h_2 => cases h
  case h_1 p hm hp =>
    refine ⟨p, hm, hp, ?_⟩
    split_ifs at h with ha hs
    · cases h
    · cases h
      exact ⟨Bool.eq_false_iff.mpr ha, .inl ⟨hs, rfl, rfl⟩⟩
    · obtain ⟨t, ht⟩ := maybeScheduleRestart_eq cfg
        { inst with proc := none, state := .failed, wasFailed := true } now
      simp only [Option.map_some, if_true, ht, Option.some.injEq, Prod.mk.injEq] at h
      exact ⟨Bool.eq_false_iff.mpr ha, .inr ⟨hs, h.2.symm, t, h.1.symm⟩⟩

/-- After a probe a record is as before but for its progress; or READY; or, with the process
handed over, FAILED. -/
theorem reconcileProbe_cases (cfg : Settings) (inst : ModelInstance) (ready : Bool)
    (size : Option Nat) (now : Time) :
    (∃ n t, reconcileProbe cfg inst ready size now =
      ({ inst with lastLogSize := n, lastProgressAt := t }, none, none)) ∨
    (inst.state = .starting ∧ ready = true ∧ reconcileProbe cfg inst ready size now =
      ({ inst with restartCount := 0, nextRestartAt := none, state := .ready },
        some (.starting, .ready), none)) ∨
    (inst.state = .starting ∧ ready = false ∧ TimedOut cfg inst size now ∧
      ∃ n t r, reconcileProbe cfg inst ready size now =
        ({ inst with lastLogSize := n, lastProgressAt := t, proc := none, state := .failed,
                     wasFailed := true, nextRestartAt := r },
          some (.starting, .failed), inst.proc)) := by
  unfold reconcileProbe TimedOut
  by_cases hs : inst.state = .starting
  · rw [if_pos hs]
    cases ready with
    | true => exact .inr (.inl ⟨hs, rfl, if_pos rfl⟩)
    | false =>
      obtain ⟨n, t, hnote⟩ := noteProgress_eq inst size now
      simp only [Bool.false_eq_true, if_false]
      by_cases ht : cfg.startTimeout < now - idleSince (noteProgress inst size now) now
      · obtain ⟨r, hr⟩ := maybeScheduleRestart_eq cfg { noteProgress inst size now with
          proc := none, state := .failed, wasFailed := true } now
        refine .inr (.inr ⟨hs, trivial, ht, n, t, r, ?_⟩)
        rw [if_pos ht, hr, hnote]
      · exact .inl ⟨n, t, by rw [if_neg ht, hnote]⟩
  · exact .inl ⟨inst.lastLogSize, inst.lastProgressAt, by rw [if_neg hs]⟩

/-- The four lifecycle operations of the manager. -/
inductive Op where
  | start | stop | sleep | wake
  deriving DecidableEq, Repr

/-- The desired state an operation persists. -/
def Op.desired : Op → Desired
  | .start => .running
  | .stop => .stopped
  | .sleep => .asleep
  | .wake => .running

/-- The table of `converge_desired`: persisted desired state and snapshot state to an action. -/
def convergeAction : Desired → ModelState → Option Op
  | .running, .stopped => some .start
  | .stopped, .ready => some .stop
  | .stopped, .starting => some .stop
  | .stopped, .sleeping => some .stop
  | .asleep, .ready => some .sleep
  | .running, .sleeping => some .wake
  | _, _ => none

/-! ## Events -/

/-- The lifecycle events that are alerted. -/
inductive AlertKind where
  | modelGaveUp | modelFailed | modelRecovered
  deriving DecidableEq, Repr

/-- `AlertEvent`, without its texts. -/
structure AlertEvent where
  event : AlertKind
  restartCount : Nat
  deriving DecidableEq, Repr

/-- `classify_event`: the alert that a transition to `target` deserves, read off the record as it
is when the event is emitted. -/
def classifyEvent (cfg : Settings) (inst : ModelInstance) (target : ModelState) :
    Option AlertEvent :=
  if target = .failed then
    let gaveUp := inst.managed && inst.desired = .running && cfg.autoRestart &&
      decide (cfg.maxRestarts ≤ inst.restartCount) && inst.nextRestartAt.isNone
    some ⟨if gaveUp then .modelGaveUp else .modelFailed, inst.restartCount⟩
  else if target = .ready ∧ inst.wasFailed = true then some ⟨.modelRecovered, inst.restartCount⟩
  else none

/-- `emit_transition` with a notifier: a READY clears the failed flag. -/
def emitTransition (cfg : Settings) (inst : ModelInstance) (target : ModelState) :
    ModelInstance × Option AlertEvent :=
  (if target = .ready then { inst with wasFailed := false } else inst,
    classifyEvent cfg inst target)

end Llmops
