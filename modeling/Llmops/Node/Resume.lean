import Llmops.Node.Pass

/-!
# What one resumed coroutine does

`resume` has a branch for each await. What the branches do to the record, the lock and the clock is
said once here (`resume_resumed`), and the invariants that need no more are case analyses of
`Resumed`.
-/

namespace Llmops.Node

variable {N : Type*}

/-- What an await is to the rest of the node: `spawn` waits for `spawn_process` and `unspawned` has
to record that it failed, `probe` and `held` keep the lock, `announce` has to announce a transition
into READY. -/
inductive Mark where
  | plain | spawn | unspawned | probe | held | announce
  deriving DecidableEq

def Pc.mark : Pc N → Mark
  | .startSpawn _ _ => .spawn
  | .startFail _ => .unspawned
  | .passProbe => .probe
  | .stopHeld _ => .held
  | .wakeRecord _ => .announce
  | .passRecord target => if target = .ready then .announce else .plain
  | _ => .plain

/-- What a section of an operation makes of a record that it neither starts, fails nor wakes. -/
inductive SectionChange (inst : ModelInstance) : ModelInstance → Prop
  | same : SectionChange inst inst
  | want (desired : Desired) : SectionChange inst { inst with desired := desired }
  | store (proc : Pid) : SectionChange inst (startStoreSection inst proc)
  | down (desired : Desired) (proc : Option Pid) (s : ModelState)
      (hs : s = .stopped ∨ s = .stopping) :
      SectionChange inst { inst with desired := desired, proc := proc, state := s }
  | slept : SectionChange inst (sleepDone inst)
  | taken : SectionChange inst (takeRestart inst)

/-- Coroutine `i`, resumed from an await. -/
inductive Resumed (cfg : Settings) (w : World N) (i : Nat) (inp : Input) (pc : Pc N)
    (w' : World N) : Prop
  | move (hfrom : pc.mark = .plain ∨ pc.mark = .spawn)
      (hto : (w'.pc i).mark = .plain ∨ (w'.pc i).mark = .unspawned) (hinst : w'.inst = w.inst)
      (hlock : w'.lock = w.lock) (hclock : w'.clock = w.clock)
  | change (hfrom : pc.mark = .plain) (hto : (w'.pc i).mark = .plain) (hfree : w.lock = none)
      (hchange : SectionChange w.inst w'.inst) (hlock : w'.lock = none)
      (hclock : w'.clock = w.clock)
  | admitted (spec : LaunchSpec) (reset : Bool) (hfrom : pc.mark = .plain)
      (hto : (w'.pc i).mark = .spawn) (hfree : w.lock = none)
      (hstart : startSection w.inst spec reset w.clock = .ok w'.inst) (hlock : w'.lock = none)
      (hclock : w'.clock = w.clock)
  | unspawned (hfrom : pc.mark = .unspawned) (hto : (w'.pc i).mark = .plain)
      (hfree : w.lock = none) (hinst : w'.inst = startFailSection w.inst) (hlock : w'.lock = none)
      (hclock : w'.clock = w.clock)
  | woken (hfrom : pc.mark = .plain) (hto : (w'.pc i).mark = .announce) (hfree : w.lock = none)
      (hinst : w'.inst = wakeDone w.inst) (hlock : w'.lock = none) (hclock : w'.clock = w.clock)
  | exit (tr : Transition) (hfrom : pc = .passLock) (hto : (w'.pc i).mark = .plain)
      (hfree : w.lock = none)
      (hexit : reconcileExit cfg w.alive w.clock w.inst = some (w'.inst, tr))
      (hlock : w'.lock = none) (hclock : w'.clock = w.clock)
  | holdProbe (hfrom : pc = .passLock) (hto : w'.pc i = .passProbe) (hfree : w.lock = none)
      (hinst : w'.inst = w.inst) (hlock : w'.lock = some i) (hclock : w'.clock = w.clock)
  | holdStop (hfrom : pc.mark = .plain) (hto : (w'.pc i).mark = .held) (hfree : w.lock = none)
      (hchange : SectionChange w.inst w'.inst) (hlock : w'.lock = some i)
      (hclock : w'.clock = w.clock)
  | probe (hfrom : pc = .passProbe) (hworld : w' = probeStep cfg w i inp)
  | release (hfrom : pc.mark = .held) (hto : (w'.pc i).mark = .plain) (hinst : w'.inst = w.inst)
      (hlock : w'.lock = none) (hclock : w'.clock = w.clock)
  | announce (target : Pc N) (hfrom : pc.mark = .announce) (hto : target.mark = .plain)
      (hworld : w' = (recordStep cfg w .ready).goto i target)

section Steps

variable {cfg : Settings} {me : N} {w w' : World N} {i : Nat} {inp : Input} {pc : Pc N}

theorem mark_resume (c : Caller) : (c.resume : Pc N).mark = .plain := by
  cases c <;> rfl

theorem mark_afterForeign (cfg : Settings) (foreign : Bool) :
    (afterForeign cfg foreign : Pc N).mark = .plain := by
  obtain h | h := afterForeign_cases (N := N) cfg foreign <;> rw [h] <;> rfl

theorem mark_enter (cfg : Settings) (w : World N) (c : Caller) (op : Op) (inp : Input) :
    (w.enter cfg c op inp).mark = .plain := by
  obtain h | ⟨h, -⟩ | ⟨-, _, -, h⟩ | ⟨-, h⟩ | ⟨-, h⟩ | ⟨-, h⟩ := w.enter_cases cfg c op inp <;>
    rw [h]
  · exact mark_resume c
  all_goals rfl

theorem mark_goto {v : World N} {target : Pc N} {m : Mark} (h : target.mark = m) :
    ((v.goto i target).pc i).mark = m := by
  rw [World.goto_self]
  exact h

theorem Resumed.goto {v : World N} {target : Pc N} (hfrom : pc.mark = .plain)
    (hto : target.mark = .plain) (hinst : v.inst = w.inst) (hlock : v.lock = w.lock)
    (hclock : v.clock = w.clock) : Resumed cfg w i inp pc (v.goto i target) :=
  .move (.inl hfrom) (.inl (mark_goto hto)) hinst hlock hclock

theorem Resumed.locked {v : World N} {target : Pc N} (hfrom : pc.mark = .plain)
    (h : w.locked (v.goto i target) = some w') (hto : target.mark = .plain)
    (hchange : SectionChange w.inst v.inst) (hlock : v.lock = w.lock) (hclock : v.clock = w.clock) :
    Resumed cfg w i inp pc w' := by
  obtain ⟨hfree, rfl⟩ := World.locked_eq_some.mp h
  exact .change hfrom (mark_goto hto) hfree hchange (hlock.trans hfree) hclock

theorem passStep_resumed (h : w.locked (passStep cfg w i) = some w') :
    Resumed cfg w i inp .passLock w' := by
  obtain hp | ⟨inst, tr, hexit, hp⟩ | ⟨-, hp⟩ := passStep_cases cfg w i <;> rw [hp] at h
  · exact .locked rfl h rfl .same rfl rfl
  · obtain ⟨hfree, rfl⟩ := World.locked_eq_some.mp h
    refine .exit tr rfl (mark_goto ?_) hfree hexit hfree rfl
    obtain ⟨-, -, -, -, ⟨-, -, rfl⟩ | ⟨-, rfl, -⟩⟩ := reconcileExit_eq_some hexit <;> rfl
  · obtain ⟨hfree, rfl⟩ := World.locked_eq_some.mp h
    exact .holdProbe rfl (World.goto_self ..) hfree rfl rfl rfl

theorem recordStep_resumed {target : ModelState} (ht : target ≠ .ready) {next : Pc N}
    (hfrom : pc.mark = .plain) (hto : next.mark = .plain) :
    Resumed cfg w i inp pc ((recordStep cfg w target).goto i next) :=
  .goto hfrom hto (if_neg ht) rfl rfl

/-- **Every await.** -/
theorem resume_resumed [DecidableEq N] (h : resume cfg me w i inp pc = some w') :
    Resumed cfg w i inp pc w' := by
  cases pc with
  | idle => cases h
  | call c op =>
    cases h
    exact .goto rfl (mark_enter cfg w c op inp) rfl rfl rfl
  | startPreflight c spec =>
    simp only [resume] at h
    split_ifs at h
    · split at h
      · exact .locked rfl h (mark_resume c) .same rfl rfl
      next inst hstart =>
        obtain ⟨hfree, rfl⟩ := World.locked_eq_some.mp h
        exact .admitted _ _ rfl (mark_goto rfl) hfree hstart hfree rfl
    · cases h
      exact .goto rfl (mark_resume c) rfl rfl rfl
  | startSpawn c spec =>
    simp only [resume] at h
    split_ifs at h <;> cases h
    · exact .move (.inr rfl) (.inl (mark_goto rfl)) rfl rfl rfl
    · exact .move (.inr rfl) (.inr (mark_goto rfl)) rfl rfl rfl
  | startStore c p => exact .locked rfl h rfl (.store p) rfl rfl
  | startFail c =>
    obtain ⟨hfree, rfl⟩ := World.locked_eq_some.mp h
    exact .unspawned rfl (mark_goto rfl) hfree rfl hfree rfl
  | startFailRecord c =>
    cases h
    exact recordStep_resumed (by rintro ⟨⟩) rfl (mark_resume c)
  | stopLock c =>
    simp only [resume] at h
    obtain ⟨p, -, -, hstop⟩ | ⟨-, hstop⟩ | ⟨-, -, hstop⟩ := stopSection_cases w.inst <;>
      rw [hstop] at h
    · exact .locked rfl h rfl (.down _ _ _ (.inr rfl)) rfl rfl
    · obtain ⟨hfree, rfl⟩ := World.locked_eq_some.mp h
      exact .holdStop rfl (mark_goto rfl) hfree (.want _) rfl rfl
    · obtain ⟨hfree, rfl⟩ := World.locked_eq_some.mp h
      exact .holdStop rfl (mark_goto rfl) hfree (.down _ _ _ (.inl rfl)) rfl rfl
  | stopHeld c =>
    cases h
    refine .release rfl (mark_goto (mark_resume c)) (World.setRow_inst ..) ?_ ?_ <;>
      cases inp.ok <;> rfl
  | stopDrain c p =>
    cases h
    exact .goto rfl rfl rfl rfl rfl
  | stopReap c p =>
    simp only [resume] at h
    split_ifs at h
    exact .locked rfl h rfl (.down _ _ _ (.inl rfl)) rfl rfl
  | sleepLock c =>
    simp only [resume] at h
    split at h
    · exact .locked rfl h (mark_resume c) .same rfl rfl
    next inst hsleep =>
      obtain ⟨-, rfl⟩ := sleepSection_eq_ok hsleep
      exact .locked rfl h rfl (.want _) rfl rfl
  | wakeLock c =>
    simp only [resume] at h
    split at h
    · exact .locked rfl h (mark_resume c) .same rfl rfl
    next inst hwake =>
      obtain ⟨-, rfl⟩ := wakeSection_eq_ok hwake
      exact .locked rfl h rfl (.want _) rfl rfl
  | sleepPost c =>
    simp only [resume] at h
    split_ifs at h
    · exact .locked rfl h rfl .slept rfl rfl
    · exact .locked rfl h (mark_resume c) (.want _) rfl rfl
  | wakePost c =>
    simp only [resume] at h
    split_ifs at h
    · obtain ⟨hfree, rfl⟩ := World.locked_eq_some.mp h
      exact .woken rfl (mark_goto rfl) hfree rfl hfree rfl
    · exact .locked rfl h (mark_resume c) (.want _) rfl rfl
  | wakeRecord c =>
    cases h
    exact .announce _ rfl rfl rfl
  | passRecord target =>
    cases h
    by_cases ht : target = .ready
    · rw [ht]
      exact .announce _ rfl rfl rfl
    · exact recordStep_resumed ht (if_neg ht) rfl
  | persistRow c want | deferRow c want =>
    cases h
    refine .goto rfl ?_ (World.setRow_inst ..) ?_ ?_
    · split_ifs
      · exact mark_resume c
      · rfl
    all_goals cases inp.ok <;> rfl
  | persistAssign c | deferAssign c =>
    cases h
    refine .goto rfl (mark_resume c) (World.setAssignment_inst ..) ?_ ?_ <;> cases inp.ok <;> rfl
  | deferLock c want => exact .locked rfl h rfl (.want _) rfl rfl
  | passLock => exact passStep_resumed h
  | passProbe =>
    cases h
    exact .probe rfl rfl
  | passAssignments =>
    cases h
    refine .goto rfl ?_ rfl rfl rfl
    split_ifs
    · rfl
    · exact mark_afterForeign cfg _
  | passNodes owner =>
    cases h
    exact .goto rfl (mark_afterForeign cfg _) rfl rfl rfl
  | passRestarts foreign =>
    cases h
    exact .goto rfl rfl rfl rfl rfl
  | passRestartsLock foreign now =>
    simp only [resume] at h
    split_ifs at h
    · exact .locked rfl h rfl .taken rfl rfl
    · exact .locked rfl h rfl .same rfl rfl
  | passDesired foreign | replayDesired =>
    cases h
    refine .goto rfl ?_ rfl rfl rfl
    split <;> rfl
  | passSnapshot foreign want =>
    refine .locked rfl h ?_ .same rfl rfl
    split_ifs
    · rfl
    · split <;> rfl
  | replayAssignments want =>
    cases h
    refine .goto rfl ?_ rfl rfl rfl
    split_ifs <;> rfl
  | replayNodes want owner =>
    cases h
    exact .goto rfl rfl rfl rfl rfl
  | replayStart want foreign =>
    cases h
    refine .goto rfl ?_ rfl rfl rfl
    split_ifs
    · exact mark_enter cfg w _ _ inp
    · rfl

end Steps

end Llmops.Node
