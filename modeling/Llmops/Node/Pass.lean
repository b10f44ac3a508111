import Llmops.Node.Step

/-!
# What one step of a reconcile pass can do

Every invariant about passes rests on `resume_pass`: a suspended `reconcile_once` touches neither
the rows nor the processes, changes the record in one of six ways (`PassChange`), and either stays
in the pass or calls the manager: `start` for a restart that is due, or the action that
`converge_desired` finds for its snapshot.
-/

namespace Llmops.Node

variable {N : Type*}

/-- A coroutine that runs a pass, or nothing, and is not inside a call of the manager. -/
def Pc.InPass : Pc N → Prop
  | .idle | .passLock | .passProbe | .passRecord _ | .passAssignments | .passNodes _
  | .passRestarts _ | .passRestartsLock _ _ | .passDesired _ | .passSnapshot _ _ => True
  | _ => False

/-- The record and the processes handed over, after a step of a pass. -/
inductive PassChange (cfg : Settings) (w : World N) (inp : Input) :
    ModelInstance → (Pid → Bool) → Prop
  | minor (n : Nat) (t : Option Time) (f : Bool) : PassChange cfg w inp
      { w.inst with lastLogSize := n, lastProgressAt := t, wasFailed := f } w.handed
  | ready (hs : w.inst.state = .starting) (hok : inp.ok = true) : PassChange cfg w inp
      { w.inst with restartCount := 0, nextRestartAt := none, state := .ready } w.handed
  | timeout (n : Nat) (t r : Option Time) (hs : w.inst.state = .starting) (hok : inp.ok = false)
      (ht : TimedOut cfg w.inst inp.size w.clock) : PassChange cfg w inp
      { w.inst with lastLogSize := n, lastProgressAt := t, proc := none, state := .failed,
                    wasFailed := true, nextRestartAt := r } (w.hand w.inst.proc).handed
  | stopped (p : Pid) (hm : w.inst.managed = true) (hp : w.inst.proc = some p)
      (hdead : w.alive p = false) (hs : w.inst.state = .stopping) : PassChange cfg w inp
      { w.inst with proc := none, state := .stopped } w.handed
  | crashed (p : Pid) (t : Option Time) (hm : w.inst.managed = true) (hp : w.inst.proc = some p)
      (hdead : w.alive p = false) (hs : w.inst.state ≠ .stopping) : PassChange cfg w inp
      { w.inst with proc := none, state := .failed, wasFailed := true, nextRestartAt := t }
      w.handed
  | restart (foreign : Bool) (now : Time) (hdue : restartDue cfg foreign now w.inst = true) :
      PassChange cfg w inp (takeRestart w.inst) w.handed

/-- Where a pass goes next. A row that it holds is the one it has just read. -/
inductive PassNext (cfg : Settings) (w : World N) (i : Nat) : Pc N → Prop
  | pass {pc : Pc N} (hpc : pc.InPass)
      (hrow : ∀ f want, pc = .passSnapshot f want → w.store.desired = some want) :
      PassNext cfg w i pc
  | restart (foreign : Bool) (now : Time) (hdue : restartDue cfg foreign now w.inst = true) :
      PassNext cfg w i (.call (.restart foreign) .start)
  | converge (want : Desired) (op : Op) (hpc : w.pc i = .passSnapshot false want)
      (hreg : w.registered = true) (hact : convergeAction want w.inst.state = some op) :
      PassNext cfg w i (.call .converge op)

/-- A step of coroutine `i` that is a step of a pass. -/
structure PassStep (cfg : Settings) (w : World N) (i : Nat) (inp : Input) (w' : World N) :
    Prop where
  change : PassChange cfg w inp w'.inst w'.handed
  next : PassNext cfg w i (w'.pc i)
  store : w'.store = w.store
  alive : w'.alive = w.alive
  stored : w'.stored = w.stored
  nextPid : w'.nextPid = w.nextPid
  registered : w'.registered = w.registered

variable {cfg : Settings} {w w' : World N} {i : Nat} {inp : Input}

theorem PassChange.refl : PassChange cfg w inp w.inst w.handed :=
  .minor w.inst.lastLogSize w.inst.lastProgressAt w.inst.wasFailed

theorem PassNext.away {pc : Pc N} (hpc : pc.InPass) (hrow : ∀ f want, pc ≠ .passSnapshot f want) :
    PassNext cfg w i pc :=
  .pass hpc fun f want h => absurd h (hrow f want)

/-- A pass that only moves on. -/
theorem PassStep.goto {v : World N} {pc : Pc N} (hv : v.inst = w.inst) (hh : v.handed = w.handed)
    (hs : v.store = w.store) (ha : v.alive = w.alive) (ht : v.stored = w.stored)
    (hn : v.nextPid = w.nextPid) (hr : v.registered = w.registered)
    (hpc : PassNext cfg w i pc) : PassStep cfg w i inp (v.goto i pc) := by
  refine ⟨?_, ?_, hs, ha, ht, hn, hr⟩
  · show PassChange cfg w inp v.inst v.handed
    rw [hv, hh]
    exact .refl
  · rw [World.goto_pc, if_pos rfl]
    exact hpc

theorem afterForeign_next (foreign : Bool) : PassNext cfg w i (afterForeign cfg foreign) := by
  rcases afterForeign_cases (N := N) cfg foreign with h | h <;> rw [h]
  · exact .away trivial (by rintro _ _ ⟨⟩)
  · exact .away trivial (by rintro _ _ ⟨⟩)

theorem passStep_step : PassStep cfg w i inp (passStep cfg w i) := by
  obtain h | ⟨inst, tr, hexit, h⟩ | ⟨-, h⟩ := passStep_cases cfg w i
  · rw [h]
    exact .goto rfl rfl rfl rfl rfl rfl rfl (.away trivial (by rintro _ _ ⟨⟩))
  · rw [h]
    refine ⟨?_, ?_, rfl, rfl, rfl, rfl, rfl⟩
    · obtain ⟨p, hm, hp, hdead, ⟨hs, rfl, -⟩ | ⟨hs, -, t, rfl⟩⟩ := reconcileExit_eq_some hexit
      · exact .stopped p hm hp hdead hs
      · exact .crashed p t hm hp hdead hs
    · rw [World.goto_pc, if_pos rfl]
      exact .away trivial (by rintro _ _ ⟨⟩)
  · rw [h]
    exact .goto rfl rfl rfl rfl rfl rfl rfl (.away trivial (by rintro _ _ ⟨⟩))

theorem probeStep_step : PassStep cfg w i inp (probeStep cfg w i inp) := by
  have record (target : ModelState) : PassNext cfg w i (.passRecord target) :=
    .away trivial (by rintro _ _ ⟨⟩)
  unfold probeStep
  obtain ⟨n, t, h⟩ | ⟨hs, hok, h⟩ | ⟨hs, hok, ht, n, t, r, h⟩ :=
    reconcileProbe_cases cfg w.inst inp.ok inp.size w.clock
  · rw [h]
    refine ⟨.minor n t w.inst.wasFailed, ?_, rfl, rfl, rfl, rfl, rfl⟩
    rw [World.goto_pc, if_pos rfl]
    exact .away trivial (by rintro _ _ ⟨⟩)
  · rw [h]
    refine ⟨.ready hs hok, ?_, rfl, rfl, rfl, rfl, rfl⟩
    rw [World.goto_pc, if_pos rfl]
    exact record _
  · rw [h]
    have change : PassChange cfg w inp _ _ := .timeout n t r hs hok ht
    cases hp : w.inst.proc with
    | none =>
      rw [hp] at change
      refine ⟨change, ?_, rfl, rfl, rfl, rfl, rfl⟩
      rw [World.goto_pc, if_pos rfl]
      exact record _
    | some p =>
      rw [hp] at change
      refine ⟨change, ?_, rfl, rfl, rfl, rfl, rfl⟩
      rw [World.goto_pc, if_pos rfl]
      exact record _

/-- What a probe leaves, whatever it answered. -/
theorem probeStep_eq (cfg : Settings) (w : World N) (i : Nat) (inp : Input) :
    (probeStep cfg w i inp).inst = (reconcileProbe cfg w.inst inp.ok inp.size w.clock).1 ∧
    (probeStep cfg w i inp).store = w.store ∧
    ((probeStep cfg w i inp).pc i = .passAssignments ∨
      ∃ target, (probeStep cfg w i inp).pc i = .passRecord target) := by
  unfold probeStep
  obtain ⟨inst, tr, kill⟩ := reconcileProbe cfg w.inst inp.ok inp.size w.clock
  refine ⟨?_, ?_, ?_⟩
  · exact World.hand_inst ..
  · cases kill <;> rfl
  · dsimp only
    cases tr with
    | none => exact .inl (Function.update_self ..)
    | some tr => exact .inr ⟨tr.2, Function.update_self ..⟩

theorem recordStep_inst (cfg : Settings) (w : World N) (target : ModelState) :
    ∃ f, (recordStep cfg w target).inst = { w.inst with wasFailed := f } := by
  unfold recordStep emitTransition
  split_ifs
  · exact ⟨false, rfl⟩
  · exact ⟨w.inst.wasFailed, rfl⟩

theorem recordStep_step (target : ModelState) :
    PassStep cfg w i inp ((recordStep cfg w target).goto i .passAssignments) := by
  refine ⟨?_, ?_, rfl, rfl, rfl, rfl, rfl⟩
  · by_cases ht : target = .ready
    · simp only [recordStep, emitTransition, if_pos ht, World.goto]
      exact .minor w.inst.lastLogSize w.inst.lastProgressAt false
    · simp only [recordStep, emitTransition, if_neg ht, World.goto]
      exact .refl
  · rw [World.goto_pc, if_pos rfl]
    exact .away trivial (by rintro _ _ ⟨⟩)

/-- **Steps of a pass.** -/
theorem resume_pass [DecidableEq N] {me : N} (hpc : (w.pc i).InPass)
    (h : resume cfg me w i inp (w.pc i) = some w') : PassStep cfg w i inp w' := by
  have quiet : ∀ {pc : Pc N}, PassNext cfg w i pc → PassStep cfg w i inp (w.goto i pc) :=
    .goto rfl rfl rfl rfl rfl rfl rfl
  cases hi : w.pc i <;> rw [hi] at hpc <;> try exact hpc.elim
  all_goals rw [hi] at h
  case idle => cases h
  case passLock =>
    obtain ⟨-, rfl⟩ := World.locked_eq_some.mp h
    exact passStep_step
  case passProbe => cases h; exact probeStep_step
  case passRecord target => cases h; exact recordStep_step target
  case passAssignments =>
    cases h
    refine quiet ?_
    split_ifs
    · exact .away trivial (by rintro _ _ ⟨⟩)
    · exact afterForeign_next false
  case passNodes owner => cases h; exact quiet (afterForeign_next _)
  case passRestarts foreign => cases h; exact quiet (.away trivial (by rintro _ _ ⟨⟩))
  case passRestartsLock foreign now =>
    obtain ⟨-, rfl⟩ := World.locked_eq_some.mp h
    split_ifs with hdue
    · refine ⟨.restart foreign now hdue.2, ?_, rfl, rfl, rfl, rfl, rfl⟩
      rw [World.goto_pc, if_pos rfl]
      exact .restart foreign now hdue.2
    · exact quiet (.away trivial (by rintro _ _ ⟨⟩))
  case passDesired foreign =>
    cases h
    refine quiet ?_
    cases hrow : w.store.desired with
    | none => cases inp.ok <;> exact .away trivial (by rintro _ _ ⟨⟩)
    | some want =>
      cases inp.ok
      · exact .away trivial (by rintro _ _ ⟨⟩)
      · refine .pass trivial fun f want' heq => ?_
        obtain ⟨-, rfl⟩ := Pc.passSnapshot.inj heq
        exact hrow
  case passSnapshot foreign want =>
    obtain ⟨-, rfl⟩ := World.locked_eq_some.mp h
    refine quiet ?_
    split_ifs with hskip
    · exact .away trivial (by rintro _ _ ⟨⟩)
    · obtain ⟨hf, hr⟩ := not_or.mp hskip
      rw [Bool.not_eq_true] at hf
      cases hact : convergeAction want w.inst.state with
      | none => exact .away trivial (by rintro _ _ ⟨⟩)
      | some op => exact .converge want op (by rw [hi, hf]) (Bool.not_eq_false _ ▸ hr) hact

end Llmops.Node
