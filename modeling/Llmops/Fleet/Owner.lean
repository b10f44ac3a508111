import Llmops.Fleet.Step
import Llmops.Lib.Claim

/-!
# One owner of an instance in the fleet

The assignment row is a register in the sense of `Lib/Claim.lean`: `start`, `sleep` and `wake` end
by writing their node into it (`_persist_desired`), the scheduler moves it and `_defer_to_owner`
deletes it. No lock spans the nodes, and neither `start` nor the write of the scheduler looks at
the register when it acts.

* `one_owner_of_respectsAssignment`: as long as operations enter where the row allows it and the
  row is not moved away from a live instance, no two nodes run the instance;
* `started_on_two_nodes`: two starts of one key, on two nodes.
-/

namespace Llmops

/-- The instance is up here as a managed process. -/
def ModelInstance.runsHere (inst : ModelInstance) : Bool :=
  inst.managed && (inst.state = .starting || inst.state = .ready || inst.state = .sleeping)

end Llmops

namespace Llmops.Node

open Llmops.Lib (ClaimRole)

variable {N : Type*}

/-- Whether a suspended coroutine is going to claim the assignment row. -/
def Pc.claimRole : Pc N → ClaimRole
  | .startSpawn _ _ | .startStore _ _ | .startFail _ | .wakeRecord _ | .persistAssign _ => .claim
  | .persistRow _ desired => if desired = .stopped then .away else .claim
  | .sleepPost _ | .wakePost _ => .hold
  | _ => .away

@[simp] theorem claimRole_resume (c : Caller) : (c.resume : Pc N).claimRole = .away := by
  cases c <;> rfl

theorem claimRole_enter (cfg : Settings) (w : World N) (c : Caller) (op : Op) (inp : Input) :
    (w.enter cfg c op inp).claimRole = .away := by
  obtain h | ⟨h, -⟩ | ⟨-, spec, -, h⟩ | ⟨-, h⟩ | ⟨-, h⟩ | ⟨-, h⟩ := w.enter_cases cfg c op inp
  · rw [h, claimRole_resume]
  all_goals rw [h]; rfl

theorem Pc.InPass.claimRole {pc : Pc N} (h : pc.InPass) : pc.claimRole = .away := by
  cases pc <;> first | rfl | exact h.elim

/-- The await is a call of the store. -/
def Pc.AwaitsStore : Pc N → Prop
  | .stopHeld _ | .persistRow _ _ | .persistAssign _ | .deferRow _ _ | .deferAssign _
  | .passAssignments | .passNodes _ | .passDesired _ | .replayDesired | .replayAssignments _
  | .replayNodes _ _ => True
  | _ => False

/-- The first locked section of a start, sleep or wake is about to let it through. -/
def Enters (w : World N) (i : Nat) (inp : Input) : Prop :=
  (∃ c spec, w.pc i = .startPreflight c spec ∧ inp.ok = true ∧ w.inst.state ≠ .starting ∧
    w.inst.state ≠ .ready) ∨
  (∃ c, w.pc i = .sleepLock c ∧ w.inst.state = .ready) ∨
  (∃ c, w.pc i = .wakeLock c ∧ w.inst.state = .sleeping)

/-- A pass brings nothing up: it can only take an instance down. -/
theorem PassChange.runsHere {cfg : Settings} {w : World N} {inp : Input} {inst : ModelInstance}
    {handed : Pid → Bool} (h : PassChange cfg w inp inst handed) (hup : inst.runsHere = true) :
    w.inst.runsHere = true := by
  cases h with
  | minor => exact hup
  | ready hs _ =>
    simp only [ModelInstance.runsHere, hs] at hup ⊢
    simpa using hup
  | timeout => simp [ModelInstance.runsHere] at hup
  | stopped => simp [ModelInstance.runsHere] at hup
  | crashed => simp [ModelInstance.runsHere] at hup
  | restart => exact hup

theorem PassNext.claimRole {cfg : Settings} {w : World N} {i : Nat} {pc : Pc N}
    (h : PassNext cfg w i pc) : pc.claimRole = .away := by
  cases h with
  | pass hpc _ => exact hpc.claimRole
  | restart => rfl
  | converge => rfl

end Llmops.Node

namespace Llmops.Fleet

open Llmops.Lib
open Llmops.Node

variable {N : Type*}

/-- The fleet as claims on the assignment row. -/
def Cluster.claims (f : Cluster N) : Claims N Nat where
  owner := f.store.assignment
  live := fun n => (f.agent n).inst.runsHere
  role := fun n i => ((f.agent n).pc i).claimRole

/-- **The discipline that keeps one owner.** A start, sleep or wake passes its first section at a
node where the instance is not up only when the assignment names no other node on which it is up and
no other node has such an operation on its way to its `set_assignment`; and the assignment is neither
deleted nor moved by the scheduler while the instance is up on the node that it names. -/
def RespectsAssignment (f : Cluster N) : FleetEvent N → Prop
  | .on n (.run i inp) =>
    (Enters (f.world n) i inp → (f.agent n).inst.runsHere = true ∨ f.claims.Free n) ∧
    (∀ c, (f.agent n).pc i = .deferAssign c →
      ∀ m, f.store.assignment = some m → (f.agent m).inst.runsHere = false)
  | .sched i => ∀ target, f.sched i = .write target →
      ∀ m, f.store.assignment = some m → (f.agent m).inst.runsHere = true → target = m
  | _ => True

/-- Calls of the store succeed. -/
def StoreWorks (f : Cluster N) : FleetEvent N → Prop
  | .on n (.run i inp) => ((f.agent n).pc i).AwaitsStore → inp.ok = true
  | _ => True

theorem quiet {A : Type*} {s : Claims N A} {n : N} {a : A} {l : Bool} {r : ClaimRole}
    {o : Option N} (hl : l = true → s.live n = true) (hr : r = s.role n a) (ho : o = s.owner) :
    s.Allowed n a l r o := by
  subst hr ho
  exact .quiet l hl

theorem not_runsHere_of_down {inst : ModelInstance}
    (h : inst.state = .stopped ∨ inst.state = .stopping) : ¬inst.runsHere = true := by
  obtain h | h := h <;> simp [ModelInstance.runsHere, h]

theorem runsHere_recordStep (cfg : Settings) (w : World N) (target : ModelState) :
    (recordStep cfg w target).inst.runsHere = w.inst.runsHere := by
  unfold recordStep emitTransition
  split_ifs <;> rfl

section

variable [LinearOrder N] {cfg : N → Settings} {f f' : Cluster N} {n : N} {w' : World N} {i : Nat}
  {inp : Input}

omit [LinearOrder N] in
/-- The client goes on with nothing that comes up, and with its role. -/
theorem allowed_goto {v : World N} {target : Pc N}
    (hup : v.inst.runsHere = true → (f.agent n).inst.runsHere = true)
    (hrole : f.claims.role n i = target.claimRole)
    (hrow : v.store.assignment = f.store.assignment) :
    f.claims.Allowed n i (v.goto i target).inst.runsHere ((v.goto i target).pc i).claimRole
      (v.goto i target).store.assignment := by
  rw [World.goto_self]
  exact quiet hup hrole.symm hrow

/-- **Every resumption at a node is allowed**, under the discipline. -/
theorem resume_allowed (hG : RespectsAssignment f (.on n (.run i inp)))
    (hok : StoreWorks f (.on n (.run i inp)))
    (h : Node.resume (cfg n) n (f.world n) i inp ((f.agent n).pc i) = some w') :
    f.claims.Allowed n i w'.inst.runsHere (w'.pc i).claimRole w'.store.assignment := by
  generalize hpc : (f.agent n).pc i = pc at h
  have hrole : f.claims.role n i = pc.claimRole := congrArg Pc.claimRole hpc
  by_cases hpass : pc.InPass
  · -- a step of a pass: nothing comes up, and no operation is on its way
    subst hpc
    have hs := resume_pass (w := f.world n) hpass h
    refine quiet (fun hup => hs.change.runsHere hup) ?_ (by rw [hs.store]; rfl)
    rw [hrole, hpass.claimRole, hs.next.claimRole]
  cases pc <;> try exact absurd trivial hpass
  case call c op =>
    cases h
    exact allowed_goto id (hrole.trans (claimRole_enter ..).symm) rfl
  case startPreflight c spec =>
    simp only [resume] at h
    split_ifs at h with hin
    · split at h
      · obtain ⟨-, rfl⟩ := World.locked_eq_some.mp h
        exact allowed_goto id (hrole.trans (claimRole_resume c).symm) rfl
      · rename_i inst hsec
        obtain ⟨-, rfl⟩ := World.locked_eq_some.mp h
        obtain ⟨hs, hr, rfl⟩ := startSection_eq_ok hsec
        rw [World.goto_self]
        exact .enter _ _ (fun _ => .inl rfl) (hG.1 (.inl ⟨c, spec, hpc, hin, hs, hr⟩)) hrole
    · cases h
      exact allowed_goto id (hrole.trans (claimRole_resume c).symm) rfl
  case startSpawn c spec =>
    simp only [resume] at h
    split_ifs at h <;> cases h
    · exact allowed_goto id hrole rfl
    · exact allowed_goto id hrole rfl
  case startStore c proc =>
    obtain ⟨-, rfl⟩ := World.locked_eq_some.mp h
    exact allowed_goto id hrole rfl
  case startFail c =>
    obtain ⟨-, rfl⟩ := World.locked_eq_some.mp h
    rw [World.goto_self]
    exact .abort hrole
  case startFailRecord c =>
    cases h
    exact allowed_goto (runsHere_recordStep (cfg n) (f.world n) .failed).symm.trans
      (hrole.trans (claimRole_resume c).symm) rfl
  case stopLock c =>
    obtain ⟨p, -, -, hsec⟩ | ⟨-, hsec⟩ | ⟨-, -, hsec⟩ := stopSection_cases (f.world n).inst <;>
      simp only [resume, hsec] at h <;> obtain ⟨-, rfl⟩ := World.locked_eq_some.mp h
    · exact allowed_goto (fun hup => absurd hup (not_runsHere_of_down (.inr rfl))) hrole rfl
    · exact allowed_goto id hrole rfl
    · exact allowed_goto (fun hup => absurd hup (not_runsHere_of_down (.inl rfl))) hrole rfl
  case stopHeld c =>
    cases h
    refine allowed_goto ?_ (hrole.trans (claimRole_resume c).symm) ?_ <;> cases inp.ok
    · exact id
    · exact id
    · rfl
    · rfl
  case stopDrain c proc =>
    cases h
    exact allowed_goto id hrole rfl
  case stopReap c proc =>
    simp only [resume] at h
    split_ifs at h
    obtain ⟨-, rfl⟩ := World.locked_eq_some.mp h
    exact allowed_goto (fun hup => absurd hup (not_runsHere_of_down (.inl rfl))) hrole rfl
  case sleepLock c =>
    simp only [resume] at h
    split at h
    · obtain ⟨-, rfl⟩ := World.locked_eq_some.mp h
      exact allowed_goto id (hrole.trans (claimRole_resume c).symm) rfl
    · rename_i inst hsec
      obtain ⟨-, rfl⟩ := World.locked_eq_some.mp h
      obtain ⟨hs, rfl⟩ := sleepSection_eq_ok hsec
      rw [World.goto_self]
      exact .enter _ _ .inr (hG.1 (.inr (.inl ⟨c, hpc, hs⟩))) hrole
  case wakeLock c =>
    simp only [resume] at h
    split at h
    · obtain ⟨-, rfl⟩ := World.locked_eq_some.mp h
      exact allowed_goto id (hrole.trans (claimRole_resume c).symm) rfl
    · rename_i inst hsec
      obtain ⟨-, rfl⟩ := World.locked_eq_some.mp h
      obtain ⟨hs, rfl⟩ := wakeSection_eq_ok hsec
      rw [World.goto_self]
      exact .enter _ _ .inr (hG.1 (.inr (.inr ⟨c, hpc, hs⟩))) hrole
  case sleepPost c | wakePost c =>
    simp only [resume] at h
    split_ifs at h <;> obtain ⟨-, rfl⟩ := World.locked_eq_some.mp h <;> rw [World.goto_self]
    · exact .settle _ hrole
    · rw [claimRole_resume]
      exact .cancel _ id hrole
  case wakeRecord c =>
    cases h
    exact allowed_goto (runsHere_recordStep (cfg n) (f.world n) .ready).symm.trans hrole rfl
  case persistRow c desired =>
    cases h
    refine allowed_goto ?_ (hrole.trans ?_) ?_
    · cases inp.ok <;> exact id
    · by_cases hd : desired = .stopped
      · rw [if_pos hd, claimRole_resume]
        simp only [Pc.claimRole, if_pos hd]
      · rw [if_neg hd]
        simp only [Pc.claimRole, if_neg hd]
    · cases inp.ok <;> rfl
  case persistAssign c =>
    have hin : inp.ok = true := hok (by rw [hpc]; trivial)
    simp only [resume, World.setAssignment, if_pos hin] at h
    cases h
    rw [World.goto_self, claimRole_resume]
    exact .commit _ id hrole
  case deferLock c desired =>
    obtain ⟨-, rfl⟩ := World.locked_eq_some.mp h
    exact allowed_goto id hrole rfl
  case deferRow c desired =>
    cases h
    refine allowed_goto ?_ (hrole.trans ?_) ?_
    · cases inp.ok <;> exact id
    · split_ifs
      · exact (claimRole_resume c).symm
      · rfl
    · cases inp.ok <;> rfl
  case deferAssign c =>
    have hin : inp.ok = true := hok (by rw [hpc]; trivial)
    simp only [resume, World.setAssignment, if_pos hin] at h
    cases h
    rw [World.goto_self, claimRole_resume]
    have hd := Claims.Allowed.disown (s := f.claims) (n := n) (a := i) none
      (f.agent n).inst.runsHere id
      fun m ho hm => absurd (hm.symm.trans (hG.2 c hpc m ho)) (by rintro ⟨⟩)
    rw [hrole] at hd
    exact hd
  case replayDesired =>
    cases h
    refine allowed_goto id (hrole.trans ?_) rfl
    split <;> rfl
  case replayAssignments want =>
    cases h
    refine allowed_goto id (hrole.trans ?_) rfl
    split_ifs <;> rfl
  case replayNodes want owner =>
    cases h
    exact allowed_goto id hrole rfl
  case replayStart want foreign =>
    cases h
    refine allowed_goto id (hrole.trans ?_) rfl
    split_ifs
    · exact (claimRole_enter ..).symm
    · rfl

omit [LinearOrder N] in
/-- Where one client of one node has moved, the claims are put there. -/
theorem claims_setWorld [DecidableEq N] (hpc : ∀ j, j ≠ i → w'.pc j = (f.agent n).pc j) :
    (f.setWorld n w').claims =
      f.claims.put n i w'.inst.runsHere (w'.pc i).claimRole w'.store.assignment := by
  have hlive : (f.setWorld n w').claims.live =
      (f.claims.put n i w'.inst.runsHere (w'.pc i).claimRole w'.store.assignment).live := by
    funext m
    rw [Claims.live_put]
    show (Function.update f.agent n w'.toAgent m).inst.runsHere = _
    rw [Function.update_apply]
    split_ifs <;> rfl
  have hrole : (f.setWorld n w').claims.role =
      (f.claims.put n i w'.inst.runsHere (w'.pc i).claimRole w'.store.assignment).role := by
    funext m j
    rw [Claims.role_put]
    show ((Function.update f.agent n w'.toAgent m).pc j).claimRole = _
    rw [Function.update_apply]
    by_cases hm : m = n
    · by_cases hj : j = i
      · rw [if_pos hm, if_pos ⟨hm, hj⟩, hj]
      · rw [if_pos hm, if_neg fun h => hj h.2, hm]
        exact congrArg Pc.claimRole (hpc j hj)
    · rw [if_neg hm, if_neg fun h => hm h.1]
      rfl
  exact congrArg₂ (Claims.mk w'.store.assignment) hlive hrole

/-- The discipline, with a store that works. -/
def Disciplined (f : Cluster N) (e : FleetEvent N) : Prop :=
  RespectsAssignment f e ∧ StoreWorks f e

/-- Every event of a node is a move, under the discipline. -/
theorem node_move {e : Event N} (hG : Disciplined f (.on n e))
    (h : Node.step (cfg n) n (f.world n) e = some w') (hstore : ∀ rows, e ≠ .store rows) :
    Claims.Move f.claims (f.setWorld n w').claims := by
  have begins : ∀ {j : Nat} {pc : Pc N}, (f.agent n).pc j = .idle → pc.claimRole = .away →
      Claims.Move f.claims (f.setWorld n ((f.world n).goto j pc)).claims := by
    intro j pc hj haway
    have hother : ∀ k, k ≠ j → ((f.world n).goto j pc).pc k = (f.agent n).pc k :=
      fun k hk => World.goto_pc_of_ne _ _ hk
    rw [claims_setWorld hother]
    refine .act _ n j (quiet id ?_ rfl)
    rw [World.goto_pc, if_pos rfl, haway]
    exact (congrArg Pc.claimRole hj).symm
  have stays : ∀ {v : World N}, v.inst = (f.agent n).inst → v.pc = (f.agent n).pc →
      v.store = f.store → Claims.Move f.claims (f.setWorld n v).claims := by
    intro v hi hpc hs
    rw [claims_setWorld (i := 0) fun j _ => congrFun hpc j]
    refine .act _ n 0 (quiet (fun hup => ?_) ?_ ?_)
    · rw [hi] at hup; exact hup
    · rw [hpc]; rfl
    · rw [hs]; rfl
  cases e with
  | request i op =>
    simp only [Node.step] at h
    split_ifs at h with hi
    cases h
    exact begins hi rfl
  | pass i =>
    simp only [Node.step] at h
    split_ifs at h with hi
    cases h
    exact begins hi rfl
  | replay i =>
    simp only [Node.step] at h
    split_ifs at h with hi
    cases h
    exact begins hi rfl
  | run i inp =>
    rw [claims_setWorld fun j hj => resume_pc_of_ne h hj]
    exact .act _ n i (resume_allowed hG.1 hG.2 h)
  | exit p =>
    simp only [Node.step] at h
    split_ifs at h
    cases h
    exact stays rfl rfl rfl
  | clock now => cases h; exact stays rfl rfl rfl
  | store rows => exact absurd rfl (hstore rows)

/-- Every event of the fleet is a move, under the discipline. -/
theorem step_move {e : FleetEvent N} (hG : Disciplined f e) (h : step cfg f e = some f') :
    Claims.Move f.claims f'.claims := by
  have same : Claims.Move f.claims f.claims := .assign f.claims f.claims.owner fun _ ho _ => ho
  cases e with
  | on n e =>
    have hstore : ∀ rows, e ≠ .store rows := by
      rintro rows rfl
      cases h
    cases e <;> simp only [step] at h <;> try exact absurd rfl (hstore _)
    all_goals
      split_ifs at h
      obtain ⟨w', hw, rfl⟩ := Option.map_eq_some_iff.mp h
      exact node_move hG hw hstore
  | heartbeat n capacity => cases h; exact same
  | schedule i leader =>
    simp only [step] at h
    split at h
    · cases h; exact same
    · cases h
  | sched i =>
    simp only [step] at h
    cases hi : f.sched i with
    | idle => rw [hi] at h; cases h
    | readDesired leader => rw [hi] at h; cases h; exact same
    | readNodes leader wanted => rw [hi] at h; cases h; exact same
    | readAssignments leader wanted nodes => rw [hi] at h; cases h; exact same
    | write target =>
      rw [hi] at h
      cases h
      exact .assign f.claims (some target) fun m ho hm => congrArg some (hG.1 target hi m ho hm)

/-! ## Runs -/

omit [LinearOrder N] in
/-- Where runs start: every backend has just booted. The records, rows and capacities are
arbitrary otherwise, and adopted instances may be READY. -/
structure Boot (f : Cluster N) : Prop where
  unmanaged : ∀ n, (f.agent n).inst.managed = false
  idle : ∀ n i, (f.agent n).pc i = .idle

omit [LinearOrder N] in
theorem Boot.one (h : Boot f) : f.claims.One :=
  .of_none (fun n => by simp [Cluster.claims, ModelInstance.runsHere, h.unmanaged n])
    fun n i => congrArg Pc.claimRole (h.idle n i)

/-- **Single owner.** No two nodes have the instance up as a managed process. -/
def OneOwner (f : Cluster N) : Prop :=
  ∀ n m, (f.agent n).inst.runsHere = true → (f.agent m).inst.runsHere = true → n = m

/-- **Disciplined fleets have one owner**, over any number of nodes and passes. -/
theorem one_owner_of_respectsAssignment {f₀ : Cluster N} (h₀ : Boot f₀)
    (hr : Reach (step cfg) Disciplined f₀ f) : OneOwner f := by
  have hone : f.claims.One :=
    hr.invariant (I := fun f => f.claims.One) h₀.one fun h hG he => (step_move hG he).one h
  exact fun n m hn hm => hone.unique hn hm

end

/-! ## Two starts on two nodes -/

/-- Two nodes that have just booted, and a key that nobody owns. -/
def twoNodes : Cluster Nat where
  agent := fun _ => { inst := ModelInstance.ofSpec sampleSpec }
  store := { nodes := [0, 1] }

theorem boot_twoNodes : Boot twoNodes := ⟨fun _ => rfl, fun _ _ => rfl⟩

/-- `start` at node `n`, from its call to its store. -/
def startAt (n : Nat) : List (FleetEvent Nat) := (startEvents 0).map (.on n)

/-- A node that is alone with a key that nobody owns keeps the discipline. -/
theorem disciplined_of_alone {f : Cluster N} {n : N} {i : Nat} {inp : Input} (hok : inp.ok = true)
    (howner : f.store.assignment = none) (hidle : ∀ m, m ≠ n → ∀ j, (f.agent m).pc j = .idle) :
    Disciplined f (.on n (.run i inp)) := by
  refine ⟨⟨fun _ => .inr ⟨fun m hm _ => ?_, fun m j hj => ?_⟩, fun c _ m hm => ?_⟩,
    fun _ => hok⟩
  · exact absurd (howner.symm.trans hm) (by rintro ⟨⟩)
  · by_contra hne
    exact hj (congrArg Pc.claimRole (hidle m hne j))
  · exact absurd (howner.symm.trans hm) (by rintro ⟨⟩)

/-- Another node does not move. -/
theorem step_agent_of_ne [LinearOrder N] {cfg : N → Settings} {f f' : Cluster N} {n m : N}
    {e : Event N} (h : step cfg f (.on n e) = some f') (hm : m ≠ n) : f'.agent m = f.agent m := by
  cases e <;> simp only [step, reduceCtorEq] at h
  all_goals
    split_ifs at h
    obtain ⟨w', -, rfl⟩ := Option.map_eq_some_iff.mp h
    exact Function.update_of_ne hm ..

/-- A start on one node keeps the discipline. -/
theorem along_startAt : Along (step fun _ => {}) Disciplined twoNodes (startAt 0) := by
  have idle : ∀ {f f' : Cluster Nat} {e : Event Nat}, step (fun _ => {}) f (.on 0 e) = some f' →
      (∀ m, m ≠ 0 → ∀ j, (f.agent m).pc j = .idle) → ∀ m, m ≠ 0 → ∀ j, (f'.agent m).pc j = .idle :=
    fun he hf m hm j => by rw [step_agent_of_ne he hm]; exact hf m hm j
  have h₀ : ∀ m, m ≠ 0 → ∀ j, (twoNodes.agent m).pc j = .idle := fun _ _ _ => rfl
  refine ⟨⟨trivial, trivial⟩, fun f₁ e₁ => ?_⟩
  have h₁ := idle e₁ h₀
  refine ⟨disciplined_of_alone rfl (by cases e₁; rfl) h₁, fun f₂ e₂ => ?_⟩
  have h₂ := idle e₂ h₁
  refine ⟨disciplined_of_alone rfl (by cases e₁; cases e₂; rfl) h₂, fun f₃ e₃ => ?_⟩
  have h₃ := idle e₃ h₂
  refine ⟨disciplined_of_alone rfl (by cases e₁; cases e₂; cases e₃; rfl) h₃, fun f₄ e₄ => ?_⟩
  exact ⟨disciplined_of_alone rfl (by cases e₁; cases e₂; cases e₃; cases e₄; rfl) (idle e₄ h₃),
    fun _ _ => trivial⟩

/-- After a start on one of two nodes the instance is up there, and nowhere else. -/
theorem one_owner_start : ∃ f, run (step fun _ => {}) twoNodes (startAt 0) = some f ∧
    (f.agent 0).inst.runsHere = true ∧ OneOwner f := by
  have hr : ∀ {f}, run (step fun _ => {}) twoNodes (startAt 0) = some f →
      Reach (step fun _ => {}) Disciplined twoNodes f := fun h => Reach.of_guarded_run h along_startAt
  exact ⟨_, rfl, rfl, one_owner_of_respectsAssignment boot_twoNodes (hr rfl)⟩

/-- A start on node 0 claims the key; then a start arrives at node 1, whose registry says
STOPPED. -/
def startTwice : List (FleetEvent Nat) :=
  startAt 0 ++ [.on 0 (.go 0), .on 0 (.go 0)] ++ startAt 1

/-- **One key is started on two nodes.** The second start does not look at the assignment. -/
theorem started_on_two_nodes :
    ¬ ∀ (cfg : Nat → Settings) (f₀ f : Cluster Nat), Boot f₀ →
      Reach (step cfg) StoreWorks f₀ f → OneOwner f := by
  intro h
  obtain ⟨f, hrun, h0, h1⟩ : ∃ f, run (step fun _ => {}) twoNodes startTwice = some f ∧
      (f.agent 0).inst.runsHere = true ∧ (f.agent 1).inst.runsHere = true := ⟨_, rfl, rfl, rfl⟩
  have hreach : Reach (step fun _ => {}) StoreWorks twoNodes f :=
    Reach.of_guarded_run hrun (Reach.along_of_forall (by
      simp [startTwice, startAt, startEvents, StoreWorks, Event.go]))
  exact absurd (h _ twoNodes f boot_twoNodes hreach 0 1 h0 h1) (by decide)

end Llmops.Fleet
