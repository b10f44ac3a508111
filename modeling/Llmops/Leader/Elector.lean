import Llmops.Leader.Lease
import Llmops.Lib.Run
import Mathlib

/-!
# The leader elector

`LeaderElector.run` and `_step_down` in db mode (`core/leader.py:40-83`), with the callbacks that
`main.py:199-228` passes: `on_acquire` replays the desired states and then creates the leader
loops, `on_release` cancels them and waits until they are gone. Any number of replicas share one
lease and one clock. A replica is resumed at its awaits; a callback, the heartbeat wait and a call
of the store last as long as the run lets them.

`stop` sets the stop event, `cancel` cancels the elector's task, `fail` is an exception from a
call of the store, `raise` one from `on_acquire`, and `shutdown` is the last `_on_release` of the
lifespan, after the elector's task has ended.

* `exclusive_of_timely`: as long as no replica stays a leader, or keeps its loops, for its ttl
  without a renewal, whoever leads or runs loops has the lease, so one replica at most does;
* `two_leaders`: an `on_acquire` that outlasts the ttl gives two replicas running the loops.
-/

namespace Llmops.Leader

open Llmops.Lib

/-- The await a replica's elector is suspended at. -/
inductive Pc where
  | off
  | created
  | upsert (now : Time)
  | read (now : Time)
  | acquiring
  | releasing
  | wait
  | finalRelease
  | release
  | done
  deriving DecidableEq

/-- The awaits inside the `try` of `run`. -/
def Pc.inLoop : Pc → Bool
  | .upsert _ | .read _ | .acquiring | .releasing | .wait => true
  | _ => false

/-- The clock reading of the call of `try_acquire_leader` in progress. -/
def Pc.calledAt : Pc → Option Time
  | .upsert now | .read now => some now
  | _ => none

theorem Pc.inLoop_of_calledAt {pc : Pc} {t : Time} (h : pc.calledAt = some t) :
    pc.inLoop = true := by
  cases pc <;> first | rfl | cases h

/-- One replica: its elector, whether the tasks created by `_on_acquire` are running, and the
clock reading of its last call of `try_acquire_leader` that took the lease. -/
structure Replica where
  pc : Pc := .off
  isLeader : Bool := false
  loops : Bool := false
  stopped : Bool := false
  renewed : Time := 0

/-- The clock, the lease and the replicas. -/
structure Control (R : Type*) where
  now : Time := 0
  lease : Option (Lease R) := none
  rep : R → Replica := fun _ => {}

inductive ElectorEvent (R : Type*) where
  | tick (now : Time)
  | boot (r : R)
  | run (r : R)
  | fail (r : R)
  | raise (r : R)
  | cancel (r : R)
  | stop (r : R)
  | shutdown (r : R)

/-- `self.ttl`. -/
def leaseTtl (ttl : Time) : Time := max 2 ttl

variable {R : Type*} [DecidableEq R]

/-- Replica `r` goes on as `rep`. -/
def Control.set (c : Control R) (r : R) (rep : Replica) : Control R :=
  { c with rep := Function.update c.rep r rep }

/-- `_step_down` from the `finally` of `run`, up to its first await. -/
def Replica.finish (rep : Replica) : Replica :=
  if rep.isLeader then { rep with isLeader := false, pc := .finalRelease }
  else { rep with pc := .release }

/-- The branches of `run` after `try_acquire_leader` returned. -/
def Replica.react (rep : Replica) (got : Bool) : Replica :=
  if got && !rep.isLeader then { rep with isLeader := true, pc := .acquiring }
  else if !got && rep.isLeader then { rep with isLeader := false, pc := .releasing }
  else { rep with pc := .wait }

/-- The head of the loop of `run`, up to the call of `try_acquire_leader`. -/
def Replica.head (rep : Replica) (now : Time) : Replica :=
  if rep.stopped then rep.finish else { rep with pc := .upsert now }

/-- A replica is resumed from its await. -/
def resume (ttl : R → Time) (c : Control R) (r : R) : Option (Control R) :=
  let rep := c.rep r
  match rep.pc with
  | .off => none
  | .created | .wait => some (c.set r (rep.head c.now))
  | .upsert now =>
    let lease := upsertLease c.lease r now (leaseTtl (ttl r))
    -- the reading counts as a renewal when the statement took the lease
    let renewed := if lease.any (·.holder = r) then now else rep.renewed
    some ({ c with lease := lease }.set r { rep with pc := .read now, renewed := renewed })
  | .read now => some (c.set r (rep.react (holdsLease c.lease r now)))
  | .acquiring => some (c.set r { rep with loops := true, pc := .wait })
  | .releasing => some (c.set r { rep with loops := false, pc := .wait })
  | .finalRelease => some (c.set r { rep with loops := false, pc := .release })
  | .release => some ({ c with lease := deleteLease c.lease r }.set r { rep with pc := .done })
  | .done => none

/-- The elector's task is cancelled at its await. A cancellation inside the `finally` leaves it, and
a task that has not started never enters it. -/
def Replica.cancel (rep : Replica) : Option Replica :=
  match rep.pc with
  | .upsert _ | .read _ | .acquiring | .releasing | .wait => some rep.finish
  | .created | .finalRelease | .release => some { rep with pc := .done }
  | .off | .done => none

/-- One event. The clock does not go back. -/
def step (ttl : R → Time) (c : Control R) : ElectorEvent R → Option (Control R)
  | .tick now => if c.now ≤ now then some { c with now := now } else none
  | .boot r =>
    if (c.rep r).pc = .off then some (c.set r { c.rep r with pc := .created }) else none
  | .run r => resume ttl c r
  | .fail r => match (c.rep r).pc with
    | .upsert _ | .read _ => some (c.set r ((c.rep r).react false))
    | .release => some (c.set r { c.rep r with pc := .done })
    | _ => none
  | .raise r =>
    if (c.rep r).pc = .acquiring then some (c.set r (c.rep r).finish) else none
  | .cancel r => (c.rep r).cancel.map (c.set r)
  | .stop r => some (c.set r { c.rep r with stopped := true })
  | .shutdown r =>
    if (c.rep r).pc = .done then some (c.set r { c.rep r with loops := false }) else none

/-! ## The invariant, one replica at a time -/

/-- The replica leads, or its loops run. -/
def Replica.Active (rep : Replica) : Prop := rep.isLeader = true ∨ rep.loops = true

instance (rep : Replica) : Decidable rep.Active := inferInstanceAs (Decidable (_ ∨ _))

/-- No replica leads or runs its loops for its ttl without a renewal: the time since the reading
of its last `try_acquire_leader` that took the lease stays below the ttl. -/
def Timely (ttl : R → Time) (c : Control R) : ElectorEvent R → Prop
  | .tick now => ∀ r, (c.rep r).Active → now < (c.rep r).renewed + leaseTtl (ttl r)
  | _ => True

/-- Calls of the store succeed, and return before the ttl has passed. -/
def Prompt (ttl : R → Time) (c : Control R) : ElectorEvent R → Prop
  | .tick now => ∀ r, ∀ t ∈ (c.rep r).pc.calledAt, now < t + leaseTtl (ttl r)
  | .fail _ => False
  | _ => True

instance [Fintype R] (ttl : R → Time) (c : Control R) : ∀ e, Decidable (Timely ttl c e)
  | .tick now => inferInstanceAs (Decidable (∀ r, (c.rep r).Active → now < _))
  | .boot _ | .run _ | .fail _ | .raise _ | .cancel _ | .stop _ | .shutdown _ => isTrue trivial

instance [Fintype R] (ttl : R → Time) (c : Control R) : ∀ e, Decidable (Prompt ttl c e)
  | .tick now => inferInstanceAs (Decidable (∀ r, ∀ t ∈ (c.rep r).pc.calledAt, now < _))
  | .fail _ => isFalse id
  | .boot _ | .run _ | .raise _ | .cancel _ | .stop _ | .shutdown _ => isTrue trivial

/-- What holds of replica `r`: if it is active it has the lease, unexpired. -/
structure Good (ttl now : Time) (lease : Option (Lease R)) (r : R) (rep : Replica) : Prop where
  active : rep.Active → ∃ row, lease = some row ∧ row.holder = r ∧
    row.expiresAt = rep.renewed + leaseTtl ttl ∧ now < row.expiresAt
  calling : ∀ t ∈ rep.pc.calledAt, t ≤ now ∧ now < t + leaseTtl ttl
  reading : ∀ t row, rep.pc = .read t → lease = some row → row.holder = r →
    rep.renewed = t ∧ row.expiresAt = t + leaseTtl ttl
  loops : rep.loops = true → rep.isLeader = true ∨ rep.pc = .finalRelease ∨ rep.pc = .done
  leader : rep.isLeader = true → rep.pc.inLoop = true
  acquiring : rep.pc = .acquiring → rep.isLeader = true
  kept : rep.pc ≠ .releasing

variable {ttl now : Time} {lease lease' : Option (Lease R)} {r r' : R} {rep rep' : Replica}

omit [DecidableEq R] in
/-- A replica that is neither active nor in a call. -/
theorem Good.of_quiet (hlead : rep.isLeader = false)
    (hloops : rep.loops = true → rep.pc = .finalRelease ∨ rep.pc = .done)
    (hact : rep.loops = true → ∃ row, lease = some row ∧ row.holder = r ∧
      row.expiresAt = rep.renewed + leaseTtl ttl ∧ now < row.expiresAt)
    (hpc : rep.pc.inLoop = false) : Good ttl now lease r rep where
  active h := h.elim (fun h => absurd (hlead.symm.trans h) (by rintro ⟨⟩)) hact
  calling t h := absurd ((Pc.inLoop_of_calledAt h).symm.trans hpc) (by rintro ⟨⟩)
  reading t _ h := by rw [h] at hpc; cases hpc
  loops h := .inr (hloops h)
  leader h := absurd (hlead.symm.trans h) (by rintro ⟨⟩)
  acquiring h := by rw [h] at hpc; cases hpc
  kept h := by rw [h] at hpc; cases hpc

/-- The upsert of another replica does not touch an active one. -/
theorem Good.upsert_other (h : Good ttl now lease r rep) (hne : r' ≠ r) {t ttl' : Time}
    (ht : t ≤ now) : Good ttl now (upsertLease lease r' t ttl') r rep where
  active ha := by
    obtain ⟨row, rfl, hr, hexp, hlive⟩ := h.active ha
    refine ⟨row, upsertLease_of_live ?_ (ht.trans hlive.le), hr, hexp, hlive⟩
    rw [hr]
    exact Ne.symm hne
  calling := h.calling
  reading u row hpc hrow hr := by
    rcases upsertLease_cases lease r' t ttl' with hup | ⟨old, hold, -, -, hup⟩
    · rw [hup] at hrow
      obtain rfl := Option.some.inj hrow
      exact absurd hr hne
    · rw [hup] at hrow
      exact h.reading u row hpc (hold.trans hrow) hr
  loops := h.loops
  leader := h.leader
  acquiring := h.acquiring
  kept := h.kept

/-- Nor does the release of another replica. -/
theorem Good.delete_other (h : Good ttl now lease r rep) (hne : r' ≠ r) :
    Good ttl now (deleteLease lease r') r rep where
  active ha := by
    obtain ⟨row, rfl, hr, hexp, hlive⟩ := h.active ha
    refine ⟨row, deleteLease_of_ne ?_, hr, hexp, hlive⟩
    rw [hr]
    exact Ne.symm hne
  calling := h.calling
  reading u row hpc hrow hr := h.reading u row hpc (deleteLease_eq_some hrow).1 hr
  loops := h.loops
  leader := h.leader
  acquiring := h.acquiring
  kept := h.kept

omit [DecidableEq R] in
/-- A replica that was not in its `finally` enters it. -/
theorem Good.finish (h : Good ttl now lease r rep) (hf : rep.pc ≠ .finalRelease)
    (hd : rep.pc ≠ .done) : Good ttl now lease r rep.finish := by
  have hloops : rep.loops = true → rep.isLeader = true := fun hl =>
    (h.loops hl).resolve_right fun hp => hp.elim hf hd
  unfold Replica.finish
  split_ifs with hlead
  · exact .of_quiet rfl (fun _ => .inl rfl) (fun hl => h.active (.inr hl)) rfl
  · exact .of_quiet (Bool.eq_false_iff.mpr hlead) (fun hl => absurd (hloops hl) hlead)
      (fun hl => absurd (hloops hl) hlead) rfl

omit [DecidableEq R] in
/-- A replica in the loop of `run` that is in no call and still has the lease if it is active. -/
theorem Good.of_loop (hact : rep.Active → ∃ row, lease = some row ∧ row.holder = r ∧
      row.expiresAt = rep.renewed + leaseTtl ttl ∧ now < row.expiresAt)
    (hloops : rep.loops = true → rep.isLeader = true)
    (hpc : rep.pc = .acquiring ∧ rep.isLeader = true ∨ rep.pc = .wait) :
    Good ttl now lease r rep where
  active := hact
  calling t h := by rcases hpc with ⟨hpc, -⟩ | hpc <;> rw [hpc] at h <;> cases h
  reading t _ h := by rcases hpc with ⟨hpc, -⟩ | hpc <;> cases hpc.symm.trans h
  loops h := .inl (hloops h)
  leader _ := by rcases hpc with ⟨hpc, -⟩ | hpc <;> rw [hpc] <;> rfl
  acquiring h := by
    rcases hpc with ⟨-, hlead⟩ | hpc
    · exact hlead
    · cases hpc.symm.trans h
  kept := by rcases hpc with ⟨hpc, -⟩ | hpc <;> rw [hpc] <;> rintro ⟨⟩

omit [DecidableEq R] in
/-- The loops of a replica in the loop of `run` run only while it leads. -/
theorem Good.loops_leader (h : Good ttl now lease r rep) (hf : rep.pc ≠ .finalRelease)
    (hd : rep.pc ≠ .done) (hl : rep.loops = true) : rep.isLeader = true :=
  (h.loops hl).resolve_right fun hp => hp.elim hf hd

omit [DecidableEq R] in
theorem Good.not_loops (h : Good ttl now lease r rep) (hlead : rep.isLeader = false)
    (hf : rep.pc ≠ .finalRelease) (hd : rep.pc ≠ .done) : rep.loops ≠ true := fun hl =>
  Bool.false_ne_true (hlead.symm.trans (h.loops_leader hf hd hl))

/-- The answer of `try_acquire_leader`: a leader still has the lease, and a new one has it from
this call. -/
theorem Good.react (h : Good ttl now lease r rep) {t : Time} (hpc : rep.pc = .read t) :
    Good ttl now lease r (rep.react (holdsLease lease r t)) := by
  obtain ⟨ht, hlate⟩ := h.calling t (by rw [hpc]; rfl)
  unfold Replica.react
  cases hlead : rep.isLeader with
  | true =>
    obtain ⟨row, hrow, hr, hexp, hlive⟩ := h.active (.inl hlead)
    have hgot : holdsLease lease r t = true :=
      holdsLease_eq_true.mpr ⟨row, hrow, hr, ht.trans_lt hlive⟩
    rw [hgot]
    exact .of_loop (fun _ => ⟨row, hrow, hr, hexp, hlive⟩) (fun _ => rfl) (.inr rfl)
  | false =>
    have hdown := h.not_loops hlead (by rw [hpc]; rintro ⟨⟩) (by rw [hpc]; rintro ⟨⟩)
    cases hgot : holdsLease lease r t with
    | true =>
      obtain ⟨row, hrow, hr, -⟩ := holdsLease_eq_true.mp hgot
      obtain ⟨hren, hexp⟩ := h.reading t row hpc hrow hr
      refine .of_loop (fun _ => ⟨row, hrow, hr, ?_, ?_⟩) (fun _ => rfl) (.inl ⟨rfl, rfl⟩)
      · rw [hexp]
        exact congrArg (· + leaseTtl ttl) hren.symm
      · rw [hexp]
        exact hlate
    | false =>
      exact .of_loop (fun ha => ha.elim (fun hl => absurd hl Bool.false_ne_true) hdown.elim)
        (fun hl => absurd hl hdown) (.inr rfl)

omit [DecidableEq R] in
/-- The task of `on_acquire` has created the loops: the replica already led. -/
theorem Good.acquired (h : Good ttl now lease r rep) (hpc : rep.pc = .acquiring) :
    Good ttl now lease r { rep with loops := true, pc := .wait } :=
  .of_loop (fun _ => h.active (.inl (h.acquiring hpc))) (fun _ => h.acquiring hpc) (.inr rfl)

theorem leaseTtl_pos (ttl : Time) : 0 < leaseTtl ttl :=
  zero_lt_two.trans_le (le_max_left 2 ttl)

omit [DecidableEq R] in
/-- The loop starts over: `stop` has been called, or `try_acquire_leader` is. -/
theorem Good.head (h : Good ttl now lease r rep) (hf : rep.pc ≠ .finalRelease)
    (hd : rep.pc ≠ .done) : Good ttl now lease r (rep.head now) := by
  unfold Replica.head
  split_ifs with hstop
  · exact h.finish hf hd
  · refine ⟨h.active, ?_, (by rintro _ _ ⟨⟩), fun hl => .inl (h.loops_leader hf hd hl),
      fun _ => rfl, (by rintro ⟨⟩), (by rintro ⟨⟩)⟩
    intro t ht
    cases ht
    exact ⟨le_rfl, lt_add_of_pos_right now (leaseTtl_pos ttl)⟩

/-- The upsert of the replica itself renews the lease of an active one. -/
theorem Good.upsert (h : Good ttl now lease r rep) {t : Time} (hpc : rep.pc = .upsert t)
    (hlease : upsertLease lease r t (leaseTtl ttl) = lease') :
    Good ttl now lease' r { rep with
      pc := .read t, renewed := if lease'.any (·.holder = r) then t else rep.renewed } := by
  obtain ⟨ht, hlate⟩ := h.calling t (by rw [hpc]; rfl)
  refine ⟨fun ha => ?_, ?_, ?_, fun hl => .inl (h.loops_leader (by rw [hpc]; rintro ⟨⟩)
    (by rw [hpc]; rintro ⟨⟩) hl), fun _ => rfl, (by rintro ⟨⟩), (by rintro ⟨⟩)⟩
  · obtain ⟨row, rfl, hr, -⟩ := h.active ha
    rw [upsertLease_own hr] at hlease
    subst hlease
    exact ⟨_, rfl, rfl, by simp, hlate⟩
  · intro u hu
    cases hu
    exact ⟨ht, hlate⟩
  · intro u row hu hrow hr
    cases hu
    rcases upsertLease_cases lease r t (leaseTtl ttl) with hup | ⟨old, -, hold, -, hup⟩
    · rw [← hlease, hup] at hrow ⊢
      cases hrow
      exact ⟨by simp, rfl⟩
    · rw [← hlease, hup] at hrow
      cases hrow
      exact absurd hr hold

omit [DecidableEq R] in
/-- Outside the loop of `run` a replica does not lead. -/
theorem Good.quiet (h : Good ttl now lease r rep) (hpc : rep.pc.inLoop = false) :
    rep.isLeader = false := by
  by_contra hl
  exact absurd ((h.leader (Bool.eq_true_of_not_eq_false hl)).symm.trans hpc) (by rintro ⟨⟩)

omit [DecidableEq R] in
/-- The `finally` is left, or the task ends in it: the replica no longer leads. -/
theorem Good.end (h : Good ttl now lease r rep) (hpc : rep.pc.inLoop = false) :
    Good ttl now lease r { rep with pc := .done } :=
  .of_quiet (h.quiet hpc) (fun _ => .inr rfl) (fun hl => h.active (.inr hl)) rfl

/-! ## Every step keeps the invariant -/

/-- The invariant of the whole control plane. -/
def AllGood (ttl : R → Time) (c : Control R) : Prop :=
  ∀ r, Good (ttl r) c.now c.lease r (c.rep r)

variable {ttls : R → Time} {c c' : Control R} {e : ElectorEvent R}

theorem AllGood.set (hself : Good (ttls r) c.now c.lease r rep)
    (hothers : ∀ r', r' ≠ r → Good (ttls r') c.now c.lease r' (c.rep r')) :
    AllGood ttls (c.set r rep) := by
  intro r'
  rcases eq_or_ne r' r with rfl | hne
  · simpa only [Control.set, Function.update_self] using hself
  · simpa only [Control.set, Function.update_of_ne hne] using hothers r' hne

/-- A resumption: the store's statements touch no other active replica. -/
theorem AllGood.resume (inv : AllGood ttls c) (h : resume ttls c r = some c') :
    AllGood ttls c' := by
  have hr := inv r
  unfold Leader.resume at h
  cases hpc : (c.rep r).pc with
  | off | done => simp [hpc] at h
  | created | wait =>
    simp only [hpc, Option.some.injEq] at h
    subst h
    exact .set (hr.head (by rw [hpc]; rintro ⟨⟩) (by rw [hpc]; rintro ⟨⟩)) fun r' _ => inv r'
  | upsert t =>
    simp only [hpc, Option.some.injEq] at h
    subst h
    exact .set (hr.upsert hpc rfl) fun r' hne =>
      (inv r').upsert_other hne.symm (hr.calling t (by rw [hpc]; rfl)).1
  | read t =>
    simp only [hpc, Option.some.injEq] at h
    subst h
    exact .set (hr.react hpc) fun r' _ => inv r'
  | acquiring =>
    simp only [hpc, Option.some.injEq] at h
    subst h
    exact .set (hr.acquired hpc) fun r' _ => inv r'
  | releasing => exact absurd hpc hr.kept
  | finalRelease =>
    simp only [hpc, Option.some.injEq] at h
    subst h
    have hlead : (c.rep r).isLeader = false := hr.quiet (by rw [hpc]; rfl)
    exact .set (.of_quiet hlead (by rintro ⟨⟩) (by rintro ⟨⟩) rfl) fun r' _ => inv r'
  | release =>
    simp only [hpc, Option.some.injEq] at h
    subst h
    have hlead : (c.rep r).isLeader = false := hr.quiet (by rw [hpc]; rfl)
    have hdown := hr.not_loops hlead (by rw [hpc]; rintro ⟨⟩) (by rw [hpc]; rintro ⟨⟩)
    exact .set (.of_quiet hlead (fun hl => absurd hl hdown) (fun hl => absurd hl hdown) rfl)
      fun r' hne => (inv r').delete_other hne.symm

omit [DecidableEq R] in
/-- Time passes: the two timing guards are what an active replica and a call need. -/
theorem Good.tick (h : Good ttl now lease r rep) {now' : Time} (hle : now ≤ now')
    (hact : rep.Active → now' < rep.renewed + leaseTtl ttl)
    (hcall : ∀ t ∈ rep.pc.calledAt, now' < t + leaseTtl ttl) :
    Good ttl now' lease r rep where
  active ha := by
    obtain ⟨row, hrow, hr, hexp, -⟩ := h.active ha
    exact ⟨row, hrow, hr, hexp, hexp ▸ hact ha⟩
  calling t ht := ⟨(h.calling t ht).1.trans hle, hcall t ht⟩
  reading := h.reading
  loops := h.loops
  leader := h.leader
  acquiring := h.acquiring
  kept := h.kept

omit [DecidableEq R] in
/-- A cancellation lands in the `finally` of `run`, or leaves it. -/
theorem Good.cancel (h : Good ttl now lease r rep) (hc : rep.cancel = some rep') :
    Good ttl now lease r rep' := by
  unfold Replica.cancel at hc
  split at hc
  all_goals rename_i hpc
  case h_6 | h_7 | h_8 =>
    cases hc
    exact h.end (by rw [hpc]; rfl)
  case h_9 | h_10 => cases hc
  all_goals
    cases hc
    exact h.finish (by rw [hpc]; rintro ⟨⟩) (by rw [hpc]; rintro ⟨⟩)

/-- **Every event keeps the invariant.** -/
theorem AllGood.step (inv : AllGood ttls c) (hG : Timely ttls c e ∧ Prompt ttls c e)
    (h : step ttls c e = some c') : AllGood ttls c' := by
  obtain ⟨htimely, hprompt⟩ := hG
  cases e with
  | tick now =>
    simp only [Leader.step, Option.ite_none_right_eq_some, Option.some.injEq] at h
    obtain ⟨hle, rfl⟩ := h
    exact fun r => (inv r).tick hle (htimely r) (hprompt r)
  | boot r =>
    simp only [Leader.step, Option.ite_none_right_eq_some, Option.some.injEq] at h
    obtain ⟨hpc, rfl⟩ := h
    have hr := inv r
    have hlead : (c.rep r).isLeader = false := hr.quiet (by rw [hpc]; rfl)
    have hdown := hr.not_loops hlead (by rw [hpc]; rintro ⟨⟩) (by rw [hpc]; rintro ⟨⟩)
    exact .set (.of_quiet hlead (fun hl => absurd hl hdown) (fun hl => absurd hl hdown) rfl)
      fun r' _ => inv r'
  | run r => exact inv.resume h
  | fail r => exact hprompt.elim
  | raise r =>
    simp only [Leader.step, Option.ite_none_right_eq_some, Option.some.injEq] at h
    obtain ⟨hpc, rfl⟩ := h
    exact .set ((inv r).finish (by rw [hpc]; rintro ⟨⟩) (by rw [hpc]; rintro ⟨⟩)) fun r' _ => inv r'
  | cancel r =>
    obtain ⟨rep', hrep, rfl⟩ := Option.map_eq_some_iff.mp h
    exact .set ((inv r).cancel hrep) fun r' _ => inv r'
  | stop r =>
    cases h
    have hr := inv r
    exact .set ⟨hr.active, hr.calling, hr.reading, hr.loops, hr.leader, hr.acquiring, hr.kept⟩
      fun r' _ => inv r'
  | shutdown r =>
    simp only [Leader.step, Option.ite_none_right_eq_some, Option.some.injEq] at h
    obtain ⟨hpc, rfl⟩ := h
    have hout : (c.rep r).pc.inLoop = false := by rw [hpc]; rfl
    exact .set (.of_quiet ((inv r).quiet hout) (by rintro ⟨⟩)
      (by rintro ⟨⟩) hout) fun r' _ => inv r'

/-! ## Exclusivity -/

/-- No elector has been started; the lease may be in any state. -/
def Boot (c : Control R) : Prop :=
  ∀ r, (c.rep r).pc = .off ∧ (c.rep r).isLeader = false ∧ (c.rep r).loops = false

/-- Whoever leads or runs the loops has the lease, and the loops run once. -/
def Exclusive (c : Control R) : Prop :=
  (∀ r, (c.rep r).Active → ∃ row, c.lease = some row ∧ row.holder = r ∧ c.now < row.expiresAt) ∧
  ∀ r r', (c.rep r).loops = true → (c.rep r').loops = true → r = r'

omit [DecidableEq R] in
theorem AllGood.of_boot (h : Boot c) : AllGood ttls c := by
  intro r
  obtain ⟨hpc, hlead, hloops⟩ := h r
  have hdown : (c.rep r).loops = true → False := fun hl => absurd (hloops.symm.trans hl)
    (by rintro ⟨⟩)
  exact .of_quiet hlead (fun hl => (hdown hl).elim) (fun hl => (hdown hl).elim) (by rw [hpc]; rfl)

omit [DecidableEq R] in
theorem AllGood.exclusive (h : AllGood ttls c) : Exclusive c := by
  refine ⟨fun r ha => ?_, fun r r' hr hr' => ?_⟩
  · obtain ⟨row, hrow, hholder, -, hlive⟩ := (h r).active ha
    exact ⟨row, hrow, hholder, hlive⟩
  · obtain ⟨row, hrow, hholder, -⟩ := (h r).active (.inr hr)
    obtain ⟨row', hrow', hholder', -⟩ := (h r').active (.inr hr')
    obtain rfl := Option.some.inj (hrow.symm.trans hrow')
    exact hholder.symm.trans hholder'

/-- **As long as no replica leads, or keeps its loops, for its ttl without a renewal, whoever
leads or runs the loops has the lease.** -/
theorem exclusive_of_timely {c₀ c : Control R} (hboot : Boot c₀)
    (h : Reach (step ttls) (fun c e => Timely ttls c e ∧ Prompt ttls c e) c₀ c) : Exclusive c :=
  (h.invariant (I := AllGood ttls) (.of_boot hboot) fun inv hG he => inv.step hG he).exclusive

/-! ## Two leaders -/

/-- Two replicas before their electors start. -/
def twoReplicas : Control Bool := {}

theorem boot_twoReplicas : Boot twoReplicas := fun _ => ⟨rfl, rfl, rfl⟩

/-- Replica `r` takes the lease and starts `on_acquire`. -/
def takesLease (r : Bool) : List (ElectorEvent Bool) := [.boot r, .run r, .run r, .run r]

/-- The replay takes 10 of the 15 seconds of the ttl. -/
def leadsInTime : List (ElectorEvent Bool) := takesLease false ++ [.tick 10, .run false]

/-- A run in time keeps both timing guards. -/
theorem along_leadsInTime : Along (step fun _ => 15)
    (fun c e => Timely (fun _ => 15) c e ∧ Prompt (fun _ => 15) c e) twoReplicas leadsInTime := by
  decide +kernel

/-- The first replica leads after a replay in time, and nobody else does. -/
theorem exclusive_leadsInTime : ∃ c, run (step fun _ => 15) twoReplicas leadsInTime = some c ∧
    (c.rep false).loops = true ∧ Exclusive c := by
  obtain ⟨c, hrun, hr, hc⟩ := Reach.exists_of_any (P := fun c => (c.rep false).loops = true)
    along_leadsInTime (by decide +kernel)
  exact ⟨c, hrun, hc, exclusive_of_timely boot_twoReplicas hr⟩

/-- The replay of the first replica outlasts its lease; the second one takes it and starts its
loops; then the first replay ends. -/
def outlasts : List (ElectorEvent Bool) :=
  takesLease false ++ [.tick 16] ++ (takesLease true ++ [.run true, .run false])

/-- **Two replicas run the singleton loops.** While `on_acquire` replays the desired states nobody
renews the lease. -/
theorem two_leaders :
    ¬ ∀ (ttl : Bool → Time) (c₀ c : Control Bool), Boot c₀ →
      Reach (step ttl) (Prompt ttl) c₀ c → Exclusive c := by
  intro h
  have hes : Along (step fun _ => 15) (Prompt fun _ => 15) twoReplicas outlasts := by
    decide +kernel
  obtain ⟨c, -, hr, h0, h1⟩ := Reach.exists_of_any
    (P := fun c => (c.rep false).loops = true ∧ (c.rep true).loops = true) hes (by decide +kernel)
  exact absurd ((h _ twoReplicas c boot_twoReplicas hr).2 false true h0 h1) (by decide)

end Llmops.Leader
