import Llmops.Bench.Rows

/-!
# The rows that a replica has in hand

The queue and every suspended call that goes on with a run hold its row (`Call.evalHolds`,
`Call.perfHolds`). A stretch of code hands a row on, from the insert to the queue, from there to the
launch, the watch and the end, or gives it up with the write that ends the run.

* `Replica.evalHeld`, `Replica.perfHeld`: what a replica holds;
* `act_acted`: what one stretch of code does to it, if no launch raises and every write of a status
  succeeds;
* `act_sound`: a queued run keeps its request, and a process its watch.
-/

namespace Llmops.Bench

open Llmops.Lib

/-- A run of this status is to be in the hands of a replica. -/
def RunStatus.Active (status : RunStatus) : Prop := status = .queued ∨ status = .running

/-- The row of `perf_runs` that a caller of `_pump` holds. -/
def Caller.perfHolds : Caller → Option (Nat × RunStatus)
  | .done => none
  | .perfWatch id _ => some (id, .running)

/-- The row of `eval_runs` that a suspended call holds. -/
def Call.evalHolds : Call → Option (Nat × RunStatus)
  | .evalCreated _ id | .launch id _ | .cancel id => some (id, .queued)
  | .watchEval id | .finishEval id _ _ => some (id, .running)
  | .createEval _ | .createPerf | .perfCreated _ | .watchPerf _ | .finishPerf _ _ _ => none

/-- The row of `perf_runs` that a suspended call holds. -/
def Call.perfHolds : Call → Option (Nat × RunStatus)
  | .perfCreated id | .watchPerf id | .finishPerf id _ _ => some (id, .running)
  | .launch _ caller => caller.perfHolds
  | .createEval _ | .evalCreated _ _ | .createPerf | .cancel _ | .watchEval _ | .finishEval _ _ _ =>
    none

/-- The run whose eval process the call is to watch. -/
def Call.evalProc : Call → Option Nat
  | .launch id _ | .watchEval id => some id
  | _ => none

namespace Replica

/-- The rows of `eval_runs` in the hands of the replica. -/
def evalHeld (s : Replica) : Multiset (Nat × RunStatus) :=
  (s.calls.filterMap Call.evalHolds ++ s.eval.queued.map fun id => (id, RunStatus.queued) :
    List (Nat × RunStatus))

/-- The rows of `perf_runs` in the hands of the replica. -/
def perfHeld (s : Replica) : Multiset (Nat × RunStatus) := s.calls.filterMap Call.perfHolds

/-- A queued run has its request, and a process its watch. -/
structure Sound (s : Replica) : Prop where
  pending : ∀ id ∈ s.eval.queued, id ∈ s.eval.pending
  evalAlive : ∀ id ∈ s.evalAlive, ∃ c ∈ s.calls, c.evalProc = some id
  perfAlive : ∀ id ∈ s.perfAlive, .watchPerf id ∈ s.calls

end Replica

/-! ## What a replica holds -/

section Held

variable {s s' : Replica} {c : Call} {id batch : Nat} {caller : Caller}

theorem evalHeld_await (s : Replica) (c : Call) :
    (s.await c).evalHeld = (c.evalHolds.toList : Multiset (Nat × RunStatus)) + s.evalHeld := by
  unfold Replica.evalHeld Replica.await
  cases h : c.evalHolds with
  | none => simp [h]
  | some p => simp [h]

theorem evalHeld_await_some {p : Nat × RunStatus} (h : c.evalHolds = some p) :
    (s.await c).evalHeld = p ::ₘ s.evalHeld := by
  rw [evalHeld_await, h]
  rfl

theorem evalHeld_await_none (h : c.evalHolds = none) : (s.await c).evalHeld = s.evalHeld := by
  rw [evalHeld_await, h]
  exact zero_add _

theorem perfHeld_await (s : Replica) (c : Call) :
    (s.await c).perfHeld = (c.perfHolds.toList : Multiset (Nat × RunStatus)) + s.perfHeld := by
  unfold Replica.perfHeld Replica.await
  cases h : c.perfHolds with
  | none => simp [h]
  | some p => simp [h]

theorem evalHeld_perm (h : s'.calls.Perm s.calls) (hq : s'.eval.queued = s.eval.queued) :
    s'.evalHeld = s.evalHeld := by
  unfold Replica.evalHeld
  rw [hq]
  exact Multiset.coe_eq_coe.mpr ((h.filterMap _).append_right _)

theorem perfHeld_perm (h : s'.calls.Perm s.calls) : s'.perfHeld = s.perfHeld :=
  Multiset.coe_eq_coe.mpr (h.filterMap _)

theorem evalHeld_drop (hc : c ∈ s.calls) :
    s.evalHeld = (c.evalHolds.toList : Multiset (Nat × RunStatus)) + (s.drop c).evalHeld := by
  rw [← evalHeld_await]
  exact evalHeld_perm (List.perm_cons_erase hc) rfl

theorem perfHeld_drop (hc : c ∈ s.calls) :
    s.perfHeld = (c.perfHolds.toList : Multiset (Nat × RunStatus)) + (s.drop c).perfHeld := by
  rw [← perfHeld_await]
  exact perfHeld_perm (List.perm_cons_erase hc)

theorem evalHeld_drop_some {p : Nat × RunStatus} (hc : c ∈ s.calls) (h : c.evalHolds = some p) :
    s.evalHeld = p ::ₘ (s.drop c).evalHeld := by
  rw [evalHeld_drop hc, h]
  rfl

theorem evalHeld_drop_none (hc : c ∈ s.calls) (h : c.evalHolds = none) :
    (s.drop c).evalHeld = s.evalHeld := by
  rw [evalHeld_drop hc, h]
  exact (zero_add _).symm

theorem perfHeld_drop_some {p : Nat × RunStatus} (hc : c ∈ s.calls) (h : c.perfHolds = some p) :
    s.perfHeld = p ::ₘ (s.drop c).perfHeld := by
  rw [perfHeld_drop hc, h]
  rfl

theorem perfHeld_drop_none (hc : c ∈ s.calls) (h : c.perfHolds = none) :
    (s.drop c).perfHeld = s.perfHeld := by
  rw [perfHeld_drop hc, h]
  exact (zero_add _).symm

theorem perfHeld_await_some {p : Nat × RunStatus} (h : c.perfHolds = some p) :
    (s.await c).perfHeld = p ::ₘ s.perfHeld := by
  rw [perfHeld_await, h]
  rfl

theorem perfHeld_await_none (h : c.perfHolds = none) : (s.await c).perfHeld = s.perfHeld := by
  rw [perfHeld_await, h]
  exact zero_add _

theorem evalHeld_enqueue (s : Replica) (id batch : Nat) :
    { s with eval := s.eval.enqueue id batch }.evalHeld = (id, RunStatus.queued) ::ₘ s.evalHeld := by
  unfold Replica.evalHeld EvalManager.enqueue
  simp only [List.map_append, List.map_cons, List.map_nil, ← List.append_assoc]
  rw [Multiset.cons_coe, Multiset.coe_eq_coe]
  exact List.perm_append_singleton _ _

theorem evalHeld_cancel (h : id ∈ s.eval.queued) :
    (Replica.await { s with eval := s.eval.cancel id } (.cancel id)).evalHeld = s.evalHeld := by
  rw [evalHeld_await_some rfl]
  unfold Replica.evalHeld EvalManager.cancel
  rw [if_pos h, Multiset.cons_coe, Multiset.coe_eq_coe]
  refine List.perm_middle.symm.trans (List.Perm.append_left _ ?_)
  exact ((List.perm_cons_erase h).map fun id => (id, RunStatus.queued)).symm

/-- With the requests of what is queued, a stretch of the pump that does not raise launches the head
or nothing. -/
theorem pump_pending {em : EvalManager} (busy : Bool) (hp : ∀ id ∈ em.queued, id ∈ em.pending) :
    em.pump busy false = (em, none) ∨ ∃ id rest, em.queued = id :: rest ∧
      em.pump busy false = ({ em with
        queued := rest, pending := em.pending.erase id, procs := em.procs ++ [id] }, some id) := by
  unfold EvalManager.pump
  cases hq : em.queued with
  | nil =>
    refine .inl ?_
    unfold EvalManager.pumpQueue
    rw [← hq]
  | cons id rest =>
    unfold EvalManager.pumpQueue
    by_cases hwaits : (busy || em.headWaits id) = true
    · refine .inl ?_
      rw [if_pos hwaits, ← hq]
    · have hid : id ∈ em.pending := hp id (hq ▸ List.mem_cons_self)
      refine .inr ⟨id, rest, rfl, ?_⟩
      rw [if_neg hwaits, if_neg (not_not.mpr hid), if_neg (by simp)]

/-- A stretch of the pump that does not raise. -/
theorem pumped_cases (hp : ∀ id ∈ s.eval.queued, id ∈ s.eval.pending) (caller : Caller) :
    s.pumped false caller = s.after caller ∨ ∃ id rest, s.eval.queued = id :: rest ∧
      s.pumped false caller = { s with
        eval := { s.eval with
          queued := rest, pending := s.eval.pending.erase id, procs := s.eval.procs ++ [id] }
        evalAlive := id :: s.evalAlive }.await (.launch id caller) := by
  unfold Replica.pumped
  obtain h | ⟨id, rest, hq, h⟩ := pump_pending s.perf.busy hp
  · refine .inl ?_
    rw [h]
    rfl
  · refine .inr ⟨id, rest, hq, ?_⟩
    rw [h]

theorem evalHeld_after (s : Replica) (caller : Caller) : (s.after caller).evalHeld = s.evalHeld := by
  cases caller with
  | done => rfl
  | perfWatch id ok =>
    exact evalHeld_await_none rfl

theorem perfHeld_after (s : Replica) (caller : Caller) :
    (s.after caller).perfHeld =
      (caller.perfHolds.toList : Multiset (Nat × RunStatus)) + s.perfHeld := by
  cases caller with
  | done => exact (zero_add _).symm
  | perfWatch id ok =>
    unfold Replica.after
    rw [perfHeld_await]
    rfl

/-- The pump moves a run from the queue to its launch. -/
theorem evalHeld_pumped (hp : ∀ id ∈ s.eval.queued, id ∈ s.eval.pending) (caller : Caller) :
    (s.pumped false caller).evalHeld = s.evalHeld := by
  obtain h | ⟨id, rest, hq, h⟩ := pumped_cases hp caller
  · rw [h, evalHeld_after]
  · rw [h, evalHeld_await_some rfl]
    unfold Replica.evalHeld
    rw [hq, Multiset.cons_coe, Multiset.coe_eq_coe]
    exact List.perm_middle.symm

theorem perfHeld_pumped (hp : ∀ id ∈ s.eval.queued, id ∈ s.eval.pending) (caller : Caller) :
    (s.pumped false caller).perfHeld =
      (caller.perfHolds.toList : Multiset (Nat × RunStatus)) + s.perfHeld := by
  obtain h | ⟨id, rest, hq, h⟩ := pumped_cases hp caller
  · rw [h, perfHeld_after]
  · rw [h, perfHeld_await]
    rfl

end Held

/-! ## One stretch of code -/

/-- What a stretch of code does to the rows that its replica holds, with what it writes. -/
inductive Acted (s s' : Replica) : Write → Prop
  | nothing (he : s'.evalHeld = s.evalHeld) (hp : s'.perfHeld = s.perfHeld) : Acted s s' .nothing
  | createEval (id : Nat) (he : s'.evalHeld = (id, .queued) ::ₘ s.evalHeld)
      (hp : s'.perfHeld = s.perfHeld) : Acted s s' (.createEval id)
  | createPerf (id : Nat) (he : s'.evalHeld = s.evalHeld)
      (hp : s'.perfHeld = (id, .running) ::ₘ s.perfHeld) : Acted s s' (.createPerf id)
  | startEval (id : Nat) (rest : Multiset (Nat × RunStatus))
      (hbefore : s.evalHeld = (id, .queued) ::ₘ rest)
      (hafter : s'.evalHeld = (id, .running) ::ₘ rest) (hp : s'.perfHeld = s.perfHeld) :
      Acted s s' (.startEval id)
  | finishEval (id : Nat) (held status : RunStatus) (hend : ¬ status.Active)
      (he : s.evalHeld = (id, held) ::ₘ s'.evalHeld) (hp : s'.perfHeld = s.perfHeld) :
      Acted s s' (.finishEval id status)
  | finishPerf (id : Nat) (status : RunStatus) (hend : ¬ status.Active)
      (he : s'.evalHeld = s.evalHeld) (hp : s.perfHeld = (id, .running) ::ₘ s'.perfHeld) :
      Acted s s' (.finishPerf id status)

/-- The await of the call is a write to the row of its run. -/
def Call.saves : Call → Bool
  | .launch _ _ | .cancel _ | .finishEval _ _ _ | .finishPerf _ _ _ => true
  | _ => false

/-- No launch raises, and every write of a status succeeds. -/
def Action.Smooth : Action → Prop
  | .resume c ok raises => raises = false ∧ (c.saves = true → ok = true)
  | .setConfig _ raises => raises = false
  | _ => True

theorem not_active_outcome (cancelled ok : Bool) : ¬ (outcome cancelled ok).Active := by
  cases cancelled <;> cases ok <;> rintro (⟨⟨⟩⟩ | ⟨⟨⟩⟩)

section Acts

variable {s s' : Replica} {c : Call} {w : Write} {a : Action} {ok : Bool} {id batch : Nat}

theorem pending_enqueue (hp : ∀ id ∈ s.eval.queued, id ∈ s.eval.pending) :
    ∀ id' ∈ (s.eval.enqueue id batch).queued, id' ∈ (s.eval.enqueue id batch).pending := by
  intro id' hid
  obtain hid | hid := List.mem_append.mp hid
  · exact List.mem_append_left _ (hp id' hid)
  · exact List.mem_append_right _ hid

/-- A call goes on. -/
theorem resume_acted (hp : ∀ id ∈ s.eval.queued, id ∈ s.eval.pending) (hc : c ∈ s.calls)
    (hok : c.saves = true → ok = true) (h : (s.drop c).resume ok false c = some (s', w)) :
    Acted s s' w := by
  cases c with
  | createEval batch | createPerf =>
    simp only [Replica.resume] at h
    split_ifs at h
    cases h
    exact .nothing (evalHeld_drop_none hc rfl) (perfHeld_drop_none hc rfl)
  | evalCreated batch id =>
    cases h
    refine .nothing ?_ ?_
    · rw [evalHeld_pumped (pending_enqueue hp), evalHeld_enqueue, evalHeld_drop_some hc rfl]
    · rw [perfHeld_pumped (pending_enqueue hp)]
      exact (zero_add _).trans (perfHeld_drop_none hc rfl)
  | perfCreated id =>
    cases h
    refine .nothing ?_ ?_
    · exact (evalHeld_await_none rfl).trans (evalHeld_drop_none hc rfl)
    · rw [perfHeld_await_some rfl, perfHeld_drop_some hc rfl]
      rfl
  | launch id caller =>
    obtain rfl := hok rfl
    cases h
    refine .startEval id (s.drop (.launch id caller)).evalHeld (evalHeld_drop_some hc rfl) ?_ ?_
    · rw [evalHeld_pumped (by exact hp), evalHeld_await_some rfl]
    · rw [perfHeld_pumped (by exact hp), perfHeld_await_none rfl, perfHeld_drop hc]
      rfl
  | cancel id =>
    obtain rfl := hok rfl
    cases h
    refine .finishEval id .queued .cancelled ?_ (evalHeld_drop_some hc rfl)
      (perfHeld_drop_none hc rfl)
    rintro (⟨⟨⟩⟩ | ⟨⟨⟩⟩)
  | watchEval id =>
    simp only [Replica.resume] at h
    split_ifs at h
    cases h
    refine .nothing ?_ ?_
    · rw [evalHeld_await_some rfl, evalHeld_drop_some hc rfl]
      rfl
    · exact (perfHeld_await_none rfl).trans (perfHeld_drop_none hc rfl)
  | finishEval id cancelled ended =>
    obtain rfl := hok rfl
    cases h
    refine .finishEval id .running _ (not_active_outcome cancelled ended) ?_ ?_
    · rw [evalHeld_pumped (by exact hp)]
      exact evalHeld_drop_some hc rfl
    · rw [perfHeld_pumped (by exact hp)]
      exact (zero_add _).trans (perfHeld_drop_none hc rfl)
  | watchPerf id =>
    simp only [Replica.resume] at h
    split_ifs at h
    all_goals
      cases h
      refine .nothing ?_ ?_
    · rw [evalHeld_after]
      exact evalHeld_drop_none hc rfl
    · rw [perfHeld_after, perfHeld_drop_some hc rfl]
      rfl
    · rw [evalHeld_pumped (by exact hp)]
      exact evalHeld_drop_none hc rfl
    · rw [perfHeld_pumped (by exact hp), perfHeld_drop_some hc rfl]
      rfl
  | finishPerf id cancelled ended =>
    obtain rfl := hok rfl
    cases h
    exact .finishPerf id _ (not_active_outcome cancelled ended) (evalHeld_drop_none hc rfl)
      (perfHeld_drop_some hc rfl)

/-- **What a stretch of code does to the rows that its replica holds.** -/
theorem act_acted (hp : ∀ id ∈ s.eval.queued, id ∈ s.eval.pending) (ha : a.Smooth)
    (h : s.act a = some (s', w)) : Acted s s' w := by
  cases a with
  | startEval batch =>
    cases h
    exact .nothing (evalHeld_await_none rfl) (perfHeld_await_none rfl)
  | postPerf =>
    simp only [Replica.act] at h
    split_ifs at h <;> cases h
    · exact .nothing rfl rfl
    · exact .nothing (evalHeld_await_none rfl) (perfHeld_await_none rfl)
  | insert c id =>
    simp only [Replica.act] at h
    split_ifs at h with hc
    cases c <;> cases h
    · refine .createEval id ?_ ((perfHeld_await_none rfl).trans (perfHeld_drop_none hc rfl))
      rw [evalHeld_await_some rfl, evalHeld_drop_none hc rfl]
    · refine .createPerf id ((evalHeld_await_none rfl).trans (evalHeld_drop_none hc rfl)) ?_
      rw [perfHeld_await_some rfl, perfHeld_drop_none hc rfl]
  | resume c ok raises =>
    obtain ⟨rfl, hok⟩ := ha
    simp only [Replica.act] at h
    split_ifs at h with hc
    exact resume_acted hp hc hok h
  | cancelEval id =>
    simp only [Replica.act] at h
    split_ifs at h with hq <;> cases h
    · exact .nothing (evalHeld_cancel hq) (perfHeld_await_none rfl)
    · exact .nothing rfl rfl
    · exact .nothing rfl rfl
  | cancelPerf id =>
    simp only [Replica.act] at h
    split_ifs at h <;> cases h <;> exact .nothing rfl rfl
  | setConfig budget raises =>
    obtain rfl := ha
    cases h
    refine .nothing ?_ ?_
    · rw [evalHeld_pumped (by exact hp)]
      rfl
    · rw [perfHeld_pumped (by exact hp)]
      exact zero_add _
  | exitEval id | exitPerf id =>
    simp only [Replica.act] at h
    split_ifs at h
    cases h
    exact .nothing rfl rfl

/-! ## Requests and watches -/

theorem nodup_queued (hn : (s.evalHeld.map Prod.fst).Nodup) : s.eval.queued.Nodup := by
  unfold Replica.evalHeld at hn
  rw [Multiset.map_coe, Multiset.coe_nodup, List.map_append, List.nodup_append] at hn
  have hqueued := hn.2.1
  rw [List.map_map] at hqueued
  exact hqueued.of_map

theorem Replica.Sound.await (h : s.Sound) (c : Call) : (s.await c).Sound where
  pending := h.pending
  evalAlive id hid := by
    obtain ⟨c', hc', hproc⟩ := h.evalAlive id hid
    exact ⟨c', List.mem_cons_of_mem _ hc', hproc⟩
  perfAlive id hid := List.mem_cons_of_mem _ (h.perfAlive id hid)

theorem Replica.Sound.drop (h : s.Sound) (heval : ∀ id, c.evalProc = some id → id ∉ s.evalAlive)
    (hperf : ∀ id, c = .watchPerf id → id ∉ s.perfAlive) : (s.drop c).Sound where
  pending := h.pending
  evalAlive id hid := by
    obtain ⟨c', hc', hproc⟩ := h.evalAlive id hid
    refine ⟨c', (List.mem_erase_of_ne ?_).mpr hc', hproc⟩
    rintro rfl
    exact heval id hproc hid
  perfAlive id hid := by
    refine (List.mem_erase_of_ne ?_).mpr (h.perfAlive id hid)
    rintro rfl
    exact hperf id rfl hid

/-- A call that watches no process may end. -/
theorem Replica.Sound.done (h : s.Sound) (heval : c.evalProc = none)
    (hperf : ∀ id, c ≠ .watchPerf id) : (s.drop c).Sound := by
  refine h.drop (fun id hid => ?_) fun id hid => absurd hid (hperf id)
  rw [heval] at hid
  cases hid

theorem Replica.Sound.after (h : s.Sound) (caller : Caller) : (s.after caller).Sound := by
  cases caller with
  | done => exact h
  | perfWatch id ok =>
    refine Replica.Sound.await ?_ _
    exact ⟨h.pending, h.evalAlive, h.perfAlive⟩

theorem Replica.Sound.pumped (h : s.Sound) (hn : s.eval.queued.Nodup) (caller : Caller) :
    (s.pumped false caller).Sound := by
  obtain heq | ⟨id, rest, hq, heq⟩ := pumped_cases h.pending caller
  · rw [heq]
    exact h.after caller
  · rw [heq]
    rw [hq] at hn
    obtain ⟨hid, -⟩ := List.nodup_cons.mp hn
    refine ⟨fun id' hid' => ?_, fun id' hid' => ?_, fun id' hid' => ?_⟩
    · have hne : id' ≠ id := by
        rintro rfl
        exact hid hid'
      refine (List.mem_erase_of_ne hne).mpr (h.pending id' ?_)
      rw [hq]
      exact List.mem_cons_of_mem _ hid'
    · obtain rfl | hid' := List.mem_cons.mp hid'
      · exact ⟨_, List.mem_cons_self, rfl⟩
      · obtain ⟨c', hc', hproc⟩ := h.evalAlive id' hid'
        exact ⟨c', List.mem_cons_of_mem _ hc', hproc⟩
    · exact List.mem_cons_of_mem _ (h.perfAlive id' hid')

/-- The launch of an eval becomes its watch. -/
theorem Replica.Sound.launched {caller : Caller} (h : s.Sound) :
    ((s.drop (.launch id caller)).await (.watchEval id)).Sound where
  pending := h.pending
  evalAlive id' hid := by
    obtain ⟨c', hc', hproc⟩ := h.evalAlive id' hid
    by_cases hc : c' = .launch id caller
    · rw [hc] at hproc
      exact ⟨_, List.mem_cons_self, hproc⟩
    · exact ⟨c', List.mem_cons_of_mem _ ((List.mem_erase_of_ne hc).mpr hc'), hproc⟩
  perfAlive id' hid := by
    refine List.mem_cons_of_mem _ ((List.mem_erase_of_ne ?_).mpr (h.perfAlive id' hid))
    rintro ⟨⟩

/-- A call goes on. -/
theorem resume_sound (hs : s.Sound) (hn : (s.evalHeld.map Prod.fst).Nodup) (hc : c ∈ s.calls)
    (hok : c.saves = true → ok = true) (h : (s.drop c).resume ok false c = some (s', w)) :
    s'.Sound := by
  have hqueued : s.eval.queued.Nodup := nodup_queued hn
  cases c with
  | createEval batch | createPerf =>
    simp only [Replica.resume] at h
    split_ifs at h
    cases h
    exact hs.done rfl (by rintro _ ⟨⟩)
  | evalCreated batch id =>
    cases h
    have hdone : (s.drop (.evalCreated batch id)).Sound := hs.done rfl (by rintro _ ⟨⟩)
    refine Replica.Sound.pumped ?_ (nodup_queued ?_) .done
    · exact ⟨pending_enqueue hs.pending, hdone.evalAlive, hdone.perfAlive⟩
    · rw [evalHeld_enqueue, ← evalHeld_drop_some hc rfl]
      exact hn
  | perfCreated id =>
    cases h
    have hdone : (s.drop (.perfCreated id)).Sound := hs.done rfl (by rintro _ ⟨⟩)
    refine ⟨hs.pending, fun id' hid => ?_, fun id' hid => ?_⟩
    · obtain ⟨c', hc', hproc⟩ := hdone.evalAlive id' hid
      exact ⟨c', List.mem_cons_of_mem _ hc', hproc⟩
    · obtain rfl | hid := List.mem_cons.mp hid
      · exact List.mem_cons_self
      · exact List.mem_cons_of_mem _ (hdone.perfAlive id' hid)
  | launch id caller =>
    obtain rfl := hok rfl
    cases h
    exact hs.launched.pumped hqueued caller
  | cancel id =>
    cases h
    exact hs.done rfl (by rintro _ ⟨⟩)
  | watchEval id =>
    simp only [Replica.resume] at h
    split_ifs at h with hdead
    cases h
    have hdrop : (s.drop (.watchEval id)).Sound := by
      refine hs.drop (fun id' hid => ?_) (by rintro _ ⟨⟩)
      cases hid
      exact hdead
    refine Replica.Sound.await ?_ _
    exact ⟨hdrop.pending, hdrop.evalAlive, hdrop.perfAlive⟩
  | finishEval id cancelled ended =>
    cases h
    have hdone : (s.drop (.finishEval id cancelled ended)).Sound := hs.done rfl (by rintro _ ⟨⟩)
    exact hdone.pumped hqueued .done
  | watchPerf id =>
    simp only [Replica.resume] at h
    split_ifs at h with hdead hbusy
    all_goals
      cases h
      have hdrop : (s.drop (.watchPerf id)).Sound := by
        refine hs.drop (by rintro _ ⟨⟩) fun id' hid => ?_
        cases hid
        exact hdead
    · refine Replica.Sound.after ?_ _
      exact ⟨hdrop.pending, hdrop.evalAlive, hdrop.perfAlive⟩
    · refine Replica.Sound.pumped ?_ ?_ _
      · exact ⟨hdrop.pending, hdrop.evalAlive, hdrop.perfAlive⟩
      · exact hqueued
  | finishPerf id cancelled ended =>
    cases h
    exact hs.done rfl (by rintro _ ⟨⟩)

theorem act_sound (hs : s.Sound) (hn : (s.evalHeld.map Prod.fst).Nodup) (ha : a.Smooth)
    (h : s.act a = some (s', w)) : s'.Sound := by
  cases a with
  | startEval batch =>
    cases h
    exact hs.await _
  | postPerf =>
    simp only [Replica.act] at h
    split_ifs at h <;> cases h
    · exact hs
    · exact hs.await _
  | insert c id =>
    simp only [Replica.act] at h
    split_ifs at h
    cases c <;> cases h
    · exact (hs.done rfl (by rintro _ ⟨⟩)).await _
    · exact (hs.done rfl (by rintro _ ⟨⟩)).await _
  | resume c ok raises =>
    obtain ⟨rfl, hok⟩ := ha
    simp only [Replica.act] at h
    split_ifs at h with hc
    exact resume_sound hs hn hc hok h
  | cancelEval id =>
    simp only [Replica.act] at h
    split_ifs at h with hq <;> cases h
    · refine Replica.Sound.await ?_ _
      refine ⟨fun id' hid => ?_, hs.evalAlive, hs.perfAlive⟩
      unfold EvalManager.cancel at hid ⊢
      rw [if_pos hq] at hid ⊢
      obtain ⟨hne, hid⟩ := (nodup_queued hn).mem_erase_iff.mp hid
      exact (List.mem_erase_of_ne hne).mpr (hs.pending id' hid)
    · exact ⟨hs.pending, hs.evalAlive, hs.perfAlive⟩
    · exact hs
  | cancelPerf id =>
    simp only [Replica.act] at h
    split_ifs at h <;> cases h
    · exact ⟨hs.pending, hs.evalAlive, hs.perfAlive⟩
    · exact hs
  | setConfig budget raises =>
    obtain rfl := ha
    cases h
    refine Replica.Sound.pumped ?_ ?_ .done
    · exact ⟨hs.pending, hs.evalAlive, hs.perfAlive⟩
    · exact nodup_queued hn
  | exitEval id =>
    simp only [Replica.act] at h
    split_ifs at h
    cases h
    exact ⟨hs.pending, fun id' hid => hs.evalAlive id' (List.mem_of_mem_erase hid), hs.perfAlive⟩
  | exitPerf id =>
    simp only [Replica.act] at h
    split_ifs at h
    cases h
    exact ⟨hs.pending, hs.evalAlive, fun id' hid => hs.perfAlive id' (List.mem_of_mem_erase hid)⟩

end Acts

end Llmops.Bench
