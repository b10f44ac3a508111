import Llmops.Lib.Run
import Llmops.Node.Sections

/-!
# One node's backend, seen from one key

A backend process serves every API call, restart and reconcile pass on one asyncio loop, so two
of them interleave only at awaits, and the sections under `registry.lock` exclude each other.
`Agent` is what one process holds for one key: the record, the lock, where each coroutine is
suspended (`Pc`), and the operating-system processes spawned for the key. `Store` is what the
shared database holds for the key. `step` resumes one coroutine up to its next await.

* A coroutine is a number; there is no bound on how many there are. It runs one lifecycle
  operation (`request`), one `reconcile_once` pass (`pass`) or one `replay_desired` (`replay`).
  The passes are not assumed to follow each other.
* `Input` is what the resumed await answered: whether the call succeeded, the spec that
  `build_spec` resolved, the device the pre-flight chose, the size of the log.
* A `registry.lock` that is held across awaits is a field (`lock`): a pass holds it while it
  probes, and `stop` holds it while it records a stop that had nothing to kill.
* Awaits after which nothing of the record, the store or the processes is touched are merged with
  the next one (drain and undrain calls, router reloads, the recording of a transition that is
  neither READY nor FAILED). Other keys take time and the lock, which is to say that a coroutine
  of this key runs later.
* `exit` is the operating system letting a process end, `store` is another replica writing the
  rows.
-/

namespace Llmops.Node

/-- What the shared store holds for the key: the `instance_desired` row, the assignment, and the
nodes whose heartbeat has not expired. -/
structure Store (N : Type*) where
  desired : Option Desired := none
  assignment : Option N := none
  nodes : List N := []

/-- On whose behalf a lifecycle operation runs. -/
inductive Caller where
  | user
  | restart (foreign : Bool)
  | converge
  deriving DecidableEq, Repr

/-- Where a coroutine is suspended: the await it will be resumed from. -/
inductive Pc (N : Type*) where
  | idle
  | call (c : Caller) (op : Op)
  -- `start`
  | startPreflight (c : Caller) (spec : LaunchSpec)
  | startSpawn (c : Caller) (spec : LaunchSpec)
  | startStore (c : Caller) (proc : Pid)
  | startFail (c : Caller)
  | startFailRecord (c : Caller)
  -- `stop`
  | stopLock (c : Caller)
  | stopHeld (c : Caller)
  | stopDrain (c : Caller) (proc : Pid)
  | stopReap (c : Caller) (proc : Pid)
  -- `sleep` and `wake`
  | sleepLock (c : Caller)
  | sleepPost (c : Caller)
  | wakeLock (c : Caller)
  | wakePost (c : Caller)
  | wakeRecord (c : Caller)
  -- `_persist_desired` and `_defer_to_owner`
  | persistRow (c : Caller) (desired : Desired)
  | persistAssign (c : Caller)
  | deferLock (c : Caller) (desired : Desired)
  | deferRow (c : Caller) (desired : Desired)
  | deferAssign (c : Caller)
  -- `reconcile_once`
  | passLock
  | passProbe
  | passRecord (target : ModelState)
  | passAssignments
  | passNodes (owner : Option N)
  | passRestarts (foreign : Bool)
  | passRestartsLock (foreign : Bool) (now : Time)
  | passDesired (foreign : Bool)
  | passSnapshot (foreign : Bool) (want : Desired)
  -- `replay_desired`
  | replayDesired
  | replayAssignments (want : Desired)
  | replayNodes (want : Desired) (owner : Option N)
  | replayStart (want : Desired) (foreign : Bool)
  deriving DecidableEq

/-- What one backend process holds for the key. `alive`, `stored` and `handed` say of a spawned
process that it has not exited, that its start has stored it, and that it was passed to
`terminate_process_group`. `alerts` are the alerts sent, newest first. -/
structure Agent (N : Type*) where
  inst : ModelInstance
  registered : Bool := true
  lock : Option Nat := none
  pc : Nat → Pc N := fun _ => .idle
  alive : Pid → Bool := fun _ => false
  stored : Pid → Bool := fun _ => false
  handed : Pid → Bool := fun _ => false
  nextPid : Pid := 0
  clock : Time := 0
  alerts : List AlertEvent := []

/-- One backend process and the rows it shares. -/
structure World (N : Type*) extends Agent N where
  store : Store N := {}

/-- What the await of the resumed coroutine answered. -/
structure Input where
  ok : Bool := true
  spec : Option LaunchSpec := none
  gpu : Option String := none
  size : Option Nat := none

inductive Event (N : Type*) where
  | request (i : Nat) (op : Op)
  | pass (i : Nat)
  | replay (i : Nat)
  | run (i : Nat) (inp : Input)
  | exit (proc : Pid)
  | clock (now : Time)
  | store (rows : Store N)

variable {N : Type*}

/-- What a coroutine does once the operation it called has returned or raised: a restart is
followed by `converge_desired`, the others are done with the key. -/
def Caller.resume : Caller → Pc N
  | .user => .idle
  | .restart foreign => .passDesired foreign
  | .converge => .idle

/-- `reset_restart` of the call of `start`. -/
def Caller.resetRestart : Caller → Bool
  | .restart _ => false
  | _ => true

namespace World

/-- Coroutine `i` is suspended again, at `pc`. -/
def goto (w : World N) (i : Nat) (pc : Pc N) : World N :=
  { w with pc := Function.update w.pc i pc }

/-- A section under `registry.lock` runs when nobody holds the lock. -/
def locked (w v : World N) : Option (World N) := if w.lock = none then some v else none

/-- The `instance_desired` row, unless the write failed. -/
def setRow (w : World N) (ok : Bool) (desired : Desired) : World N :=
  if ok then { w with store := { w.store with desired := some desired } } else w

/-- The assignment row, unless the write failed. -/
def setAssignment (w : World N) (ok : Bool) (owner : Option N) : World N :=
  if ok then { w with store := { w.store with assignment := owner } } else w

/-- A process for which `terminate_process_group` was called. -/
def hand (w : World N) : Option Pid → World N
  | none => w
  | some p => { w with handed := Function.update w.handed p true }

/-- `_require`, `_node_can_run` and what else an operation does before its first await. -/
def enter (cfg : Settings) (w : World N) (c : Caller) (op : Op) (inp : Input) : Pc N :=
  if w.registered = false then c.resume
  else if cfg.nodeCanRun w.inst.engine = false then .deferLock c op.desired
  else match op with
    | .start => match inp.spec with
      | none => c.resume
      | some spec => .startPreflight c spec
    | .stop => .stopLock c
    | .sleep => if w.inst.spec.sleepEnabled then .sleepLock c else c.resume
    | .wake => .wakeLock c

end World

/-- `foreign_assignments`, for the key: assigned to another node that is alive. -/
def isForeign [DecidableEq N] (me : N) (owner : Option N) (nodes : List N) : Bool :=
  owner.any fun n => n ≠ me && nodes.contains n

/-- Where a pass goes once it knows its `foreign` set. -/
def afterForeign (cfg : Settings) (foreign : Bool) : Pc N :=
  if cfg.autoRestart then .passRestarts foreign else .passDesired foreign

/-- `reconcile_once` on the key, up to its first await. -/
def passStep (cfg : Settings) (w : World N) (i : Nat) : World N :=
  if w.registered = false then w.goto i .passAssignments
  else match reconcileExit cfg w.alive w.clock w.inst with
    | some (inst, tr) => { w with inst := inst }.goto i (.passRecord tr.2)
    | none =>
      if w.inst.state = .starting ∨ w.inst.state = .ready then
        { w with lock := some i }.goto i .passProbe
      else w.goto i .passAssignments

/-- The rest of the locked part of a pass, once the probe answered. -/
def probeStep (cfg : Settings) (w : World N) (i : Nat) (inp : Input) : World N :=
  match reconcileProbe cfg w.inst inp.ok inp.size w.clock with
  | (inst, tr, kill) =>
    ({ w with inst := inst, lock := none }.hand kill).goto i
      (match tr with
        | some tr => .passRecord tr.2
        | none => .passAssignments)

/-- `emit_transition`. -/
def recordStep (cfg : Settings) (w : World N) (target : ModelState) : World N :=
  match emitTransition cfg w.inst target with
  | (inst, alert) => { w with inst := inst, alerts := alert.toList ++ w.alerts }

/-- Coroutine `i`, suspended at the given await, runs up to its next one. -/
def resume [DecidableEq N] (cfg : Settings) (me : N) (w : World N) (i : Nat) (inp : Input) :
    Pc N → Option (World N)
  | .idle => none
  | .call c op => some (w.goto i (w.enter cfg c op inp))
  | .startPreflight c spec =>
    if inp.ok then
      match startSection w.inst (spec.autoPlace inp.gpu) c.resetRestart w.clock with
      | .error _ => w.locked (w.goto i c.resume)
      | .ok inst => w.locked ({ w with inst := inst }.goto i (.startSpawn c inst.spec))
    else some (w.goto i c.resume)
  | .startSpawn c _ =>
    if inp.ok then
      some ({ w with alive := Function.update w.alive w.nextPid true
                     nextPid := w.nextPid + 1 }.goto i (.startStore c w.nextPid))
    else some (w.goto i (.startFail c))
  | .startStore c proc =>
    w.locked ({ w with inst := startStoreSection w.inst proc
                       stored := Function.update w.stored proc true }.goto i
      (.persistRow c .running))
  | .startFail c =>
    w.locked ({ w with inst := startFailSection w.inst }.goto i (.startFailRecord c))
  | .startFailRecord c => some ((recordStep cfg w .failed).goto i c.resume)
  | .stopLock c =>
    match stopSection w.inst with
    | (inst, some proc) => w.locked ({ w with inst := inst }.goto i (.stopDrain c proc))
    | (inst, none) => w.locked ({ w with inst := inst, lock := some i }.goto i (.stopHeld c))
  | .stopHeld c => some (({ w with lock := none }.setRow inp.ok .stopped).goto i c.resume)
  | .stopDrain c proc => some ((w.hand (some proc)).goto i (.stopReap c proc))
  | .stopReap c proc =>
    if w.alive proc then none
    else w.locked ({ w with inst := stopFinalSection w.inst }.goto i (.persistRow c .stopped))
  | .sleepLock c =>
    match sleepSection w.inst with
    | .error _ => w.locked (w.goto i c.resume)
    | .ok inst => w.locked ({ w with inst := inst }.goto i (.sleepPost c))
  | .sleepPost c =>
    if inp.ok then w.locked ({ w with inst := sleepDone w.inst }.goto i (.persistRow c .asleep))
    else w.locked ({ w with inst := sleepFailed w.inst }.goto i c.resume)
  | .wakeLock c =>
    match wakeSection w.inst with
    | .error _ => w.locked (w.goto i c.resume)
    | .ok inst => w.locked ({ w with inst := inst }.goto i (.wakePost c))
  | .wakePost c =>
    if inp.ok then w.locked ({ w with inst := wakeDone w.inst }.goto i (.wakeRecord c))
    else w.locked ({ w with inst := wakeFailed w.inst }.goto i c.resume)
  | .wakeRecord c => some ((recordStep cfg w .ready).goto i (.persistRow c .running))
  | .persistRow c desired =>
    some ((w.setRow inp.ok desired).goto i
      (if desired = .stopped then c.resume else .persistAssign c))
  | .persistAssign c => some ((w.setAssignment inp.ok (some me)).goto i c.resume)
  | .deferLock c desired =>
    w.locked ({ w with inst := deferSection w.inst desired }.goto i (.deferRow c desired))
  | .deferRow c desired =>
    some ((w.setRow inp.ok desired).goto i
      (if desired = .stopped then c.resume else .deferAssign c))
  | .deferAssign c => some ((w.setAssignment inp.ok none).goto i c.resume)
  | .passLock => w.locked (passStep cfg w i)
  | .passProbe => some (probeStep cfg w i inp)
  | .passRecord target => some ((recordStep cfg w target).goto i .passAssignments)
  | .passAssignments =>
    some (w.goto i
      (if inp.ok then .passNodes w.store.assignment else afterForeign cfg false))
  | .passNodes owner =>
    some (w.goto i
      (afterForeign cfg (isForeign me owner (if inp.ok then w.store.nodes else []))))
  | .passRestarts foreign => some (w.goto i (.passRestartsLock foreign w.clock))
  | .passRestartsLock foreign now =>
    w.locked
      (if w.registered = true ∧ restartDue cfg foreign now w.inst = true then
        { w with inst := takeRestart w.inst }.goto i (.call (.restart foreign) .start)
      else w.goto i (.passDesired foreign))
  | .passDesired foreign =>
    some (w.goto i
      (match inp.ok, w.store.desired with
        | true, some want => .passSnapshot foreign want
        | _, _ => .idle))
  | .passSnapshot foreign want =>
    w.locked (w.goto i
      (if foreign = true ∨ w.registered = false then .idle
      else match convergeAction want w.inst.state with
        | some op => .call .converge op
        | none => .idle))
  | .replayDesired =>
    some (w.goto i
      (match inp.ok, w.store.desired with
        | true, some want => .replayAssignments want
        | _, _ => .idle))
  | .replayAssignments want =>
    some (w.goto i
      (if inp.ok then .replayNodes want w.store.assignment else .replayStart want false))
  | .replayNodes want owner =>
    some (w.goto i
      (.replayStart want (isForeign me owner (if inp.ok then w.store.nodes else []))))
  | .replayStart want foreign =>
    some (w.goto i
      (if w.registered = true ∧ want = .running ∧ foreign = false ∧
          (w.inst.state = .stopped ∨ w.inst.state = .failed) then
        w.enter cfg .user .start inp
      else .idle))

/-! ## What the shared pieces can do -/

theorem World.locked_eq_some {w v u : World N} : w.locked v = some u ↔ w.lock = none ∧ v = u := by
  simp only [World.locked]
  split_ifs with h <;> simp [h]

theorem World.goto_pc (w : World N) (i : Nat) (pc : Pc N) (j : Nat) :
    (w.goto i pc).pc j = if j = i then pc else w.pc j := Function.update_apply ..

/-- An operation returns at once, defers, or waits for its first await. -/
theorem World.enter_cases (cfg : Settings) (w : World N) (c : Caller) (op : Op) (inp : Input) :
    w.enter cfg c op inp = c.resume ∨
    (w.enter cfg c op inp = .deferLock c op.desired ∧ cfg.nodeCanRun w.inst.engine = false) ∨
    (op = .start ∧ ∃ spec, inp.spec = some spec ∧ w.enter cfg c op inp = .startPreflight c spec) ∨
    (op = .stop ∧ w.enter cfg c op inp = .stopLock c) ∨
    (op = .sleep ∧ w.enter cfg c op inp = .sleepLock c) ∨
    (op = .wake ∧ w.enter cfg c op inp = .wakeLock c) := by
  unfold World.enter
  by_cases hr : w.registered = false
  · simp [hr]
  · by_cases hn : cfg.nodeCanRun w.inst.engine = false
    · simp [hr, hn]
    · cases op with
      | start => cases hspec : inp.spec <;> simp [hr, hn]
      | stop => simp [hr, hn]
      | sleep => by_cases hs : w.inst.spec.sleepEnabled = true <;> simp [hr, hn, hs]
      | wake => simp [hr, hn]

/-- A pass leaves an instance to the rest of the pass, notices an exit, or goes on to probe. -/
theorem passStep_cases (cfg : Settings) (w : World N) (i : Nat) :
    passStep cfg w i = w.goto i .passAssignments ∨
    (∃ inst tr, reconcileExit cfg w.alive w.clock w.inst = some (inst, tr) ∧
      passStep cfg w i = { w with inst := inst }.goto i (.passRecord tr.2)) ∨
    ((w.inst.state = .starting ∨ w.inst.state = .ready) ∧
      passStep cfg w i = { w with lock := some i }.goto i .passProbe) := by
  unfold passStep
  by_cases hr : w.registered = false
  · exact .inl (if_pos hr)
  · rw [if_neg hr]
    cases hx : reconcileExit cfg w.alive w.clock w.inst with
    | some r => exact .inr (.inl ⟨r.1, r.2, rfl, rfl⟩)
    | none =>
      by_cases hs : w.inst.state = .starting ∨ w.inst.state = .ready
      · exact .inr (.inr ⟨hs, if_pos hs⟩)
      · exact .inl (if_neg hs)

theorem World.goto_self (w : World N) (i : Nat) (pc : Pc N) : (w.goto i pc).pc i = pc :=
  Function.update_self ..

theorem afterForeign_cases (cfg : Settings) (foreign : Bool) :
    (afterForeign cfg foreign : Pc N) = .passRestarts foreign ∨
    (afterForeign cfg foreign : Pc N) = .passDesired foreign := by
  unfold afterForeign
  split_ifs
  · exact .inl rfl
  · exact .inr rfl

theorem World.goto_pc_of_ne (w : World N) {i j : Nat} (pc : Pc N) (hj : j ≠ i) :
    (w.goto i pc).pc j = w.pc j := Function.update_of_ne hj ..

@[simp] theorem World.setRow_pc (w : World N) (ok : Bool) (desired : Desired) :
    (w.setRow ok desired).pc = w.pc := by cases ok <;> rfl

@[simp] theorem World.setAssignment_pc (w : World N) (ok : Bool) (owner : Option N) :
    (w.setAssignment ok owner).pc = w.pc := by cases ok <;> rfl

@[simp] theorem World.hand_pc (w : World N) (proc : Option Pid) : (w.hand proc).pc = w.pc := by
  cases proc <;> rfl

@[simp] theorem World.setRow_inst (w : World N) (ok : Bool) (desired : Desired) :
    (w.setRow ok desired).inst = w.inst := by cases ok <;> rfl

@[simp] theorem World.setAssignment_inst (w : World N) (ok : Bool) (owner : Option N) :
    (w.setAssignment ok owner).inst = w.inst := by cases ok <;> rfl

@[simp] theorem World.hand_inst (w : World N) (proc : Option Pid) :
    (w.hand proc).inst = w.inst := by cases proc <;> rfl

theorem passStep_pc_of_ne (cfg : Settings) (w : World N) {i j : Nat} (hj : j ≠ i) :
    (passStep cfg w i).pc j = w.pc j := by
  obtain h | ⟨inst, tr, -, h⟩ | ⟨-, h⟩ := passStep_cases cfg w i <;>
    rw [h, World.goto_pc_of_ne _ _ hj]

theorem probeStep_pc_of_ne (cfg : Settings) (w : World N) (inp : Input) {i j : Nat} (hj : j ≠ i) :
    (probeStep cfg w i inp).pc j = w.pc j :=
  (World.goto_pc_of_ne _ _ hj).trans (by rw [World.hand_pc])

/-- **A resumed coroutine leaves the others where they are.** -/
theorem resume_pc_of_ne [DecidableEq N] {cfg : Settings} {me : N} {w w' : World N} {i j : Nat}
    {inp : Input} {pc : Pc N} (h : resume cfg me w i inp pc = some w') (hj : j ≠ i) :
    w'.pc j = w.pc j := by
  cases pc <;> simp only [resume] at h <;> (repeat' split at h) <;>
    simp only [World.locked_eq_some, Option.some.injEq, reduceCtorEq] at h <;>
    first
    | (subst h  -- a step without the lock
       simp only [probeStep_pc_of_ne, World.goto_pc_of_ne _ _ hj, World.setRow_pc,
         World.setAssignment_pc, World.hand_pc, recordStep, hj, ne_eq, not_false_eq_true])
    | (obtain ⟨-, rfl⟩ := h  -- a section under the lock
       simp only [passStep_pc_of_ne, World.goto_pc_of_ne _ _ hj, hj, ne_eq, not_false_eq_true])

/-- One event of one backend process. -/
def step [DecidableEq N] (cfg : Settings) (me : N) (w : World N) : Event N → Option (World N)
  | .request i op => if w.pc i = .idle then some (w.goto i (.call .user op)) else none
  | .pass i => if w.pc i = .idle then some (w.goto i .passLock) else none
  | .replay i => if w.pc i = .idle then some (w.goto i .replayDesired) else none
  | .run i inp => resume cfg me w i inp (w.pc i)
  | .exit proc =>
    if w.alive proc then some { w with alive := Function.update w.alive proc false } else none
  | .clock now => some { w with clock := now }
  | .store rows => some { w with store := rows }

/-- The coroutine that an event starts or resumes. -/
def Event.on : Event N → Option Nat
  | .request i _ | .pass i | .replay i | .run i _ => some i
  | .exit _ | .clock _ | .store _ => none

/-- The other coroutines stay where they are. -/
theorem step_pc_of_ne [DecidableEq N] {cfg : Settings} {me : N} {w w' : World N} {e : Event N}
    {j : Nat} (h : step cfg me w e = some w') (hj : e.on ≠ some j) : w'.pc j = w.pc j := by
  cases e with
  | request i op =>
    simp only [step] at h
    split_ifs at h
    cases h
    exact World.goto_pc_of_ne _ _ fun heq => hj (congrArg some heq.symm)
  | pass i =>
    simp only [step] at h
    split_ifs at h
    cases h
    exact World.goto_pc_of_ne _ _ fun heq => hj (congrArg some heq.symm)
  | replay i =>
    simp only [step] at h
    split_ifs at h
    cases h
    exact World.goto_pc_of_ne _ _ fun heq => hj (congrArg some heq.symm)
  | run i inp => exact resume_pc_of_ne h fun heq => hj (congrArg some heq.symm)
  | exit p =>
    simp only [step] at h
    split_ifs at h
    cases h
    rfl
  | clock now =>
    cases h
    rfl
  | store rows =>
    cases h
    rfl

theorem run_pc_of_ne [DecidableEq N] {cfg : Settings} {me : N} {es : List (Event N)}
    {w w' : World N} {j : Nat} (h : Lib.run (step cfg me) w es = some w')
    (hj : ∀ e ∈ es, e.on ≠ some j) : w'.pc j = w.pc j := by
  induction es generalizing w with
  | nil => rw [show w = w' from Option.some.inj h]
  | cons e es ih =>
    obtain ⟨u, hu, h⟩ := Option.bind_eq_some_iff.mp h
    rw [ih h fun e' he' => hj e' (List.mem_cons_of_mem e he'),
      step_pc_of_ne hu (hj e List.mem_cons_self)]

/-! ## A sample start -/

/-- A launch of one instance, for runs on fixed inputs. -/
def sampleSpec : LaunchSpec where
  key := "chat::a"
  kind := .llm
  command := ["vllm", "serve", "chat"]
  env := []
  logPath := "logs/chat-a.log"
  host := "localhost"
  port := 8001
  probeUrl := "http://localhost:8001/health"

/-- Coroutine `i` is resumed and its await succeeded. -/
def Event.go (i : Nat) : Event N := .run i {}

/-- `start` on coroutine `i`, from its call to its store. -/
def startEvents (i : Nat) : List (Event N) :=
  [.request i .start, .run i { spec := some sampleSpec }, .go i, .go i, .go i]

end Llmops.Node
