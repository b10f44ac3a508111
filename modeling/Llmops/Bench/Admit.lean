import Llmops.Bench.Manager
import Llmops.Lib.Run
import Mathlib

/-!
# The admission of eval runs

`EvalManager.start`, `_pump`, `_launch`, `_watch` and `cancel` (`eval/manager.py:168-270, 298-311`)
over whole runs of a backend. `_pump` is entered by `start`, by the end of every `_watch`, by the end
of a load test and by `PATCH /eval/config`; a launch suspends it at `start_eval_run`. A `Journal`
keeps beside the backend what was submitted, cancelled and launched, and what `_pump` found at each
launch.

* `Ledger.step`: the queue is what was submitted, less what was launched and cancelled, and every
  launch was of its head, in order, within the budget;
* `admission_law`: nothing is missed either, as long as no request that ends without a `_pump` leaves
  a head that fits: `cancel` is one, and no `_pump` follows it;
* `head_left_behind`: the head of the queue is cancelled, and the run behind it is not launched.
-/

namespace Llmops.Bench

open Llmops.Lib

/-! ## What happens to the runs -/

/-- A launch: the queue, the eval processes alive, the budget and the runs cancelled, as it finds
them. -/
structure Launch where
  id : Nat
  queue : List Nat
  running : List Nat
  budget : Nat
  cancelled : List Nat
  deriving DecidableEq

/-- A backend, with what has happened to its eval runs. -/
structure Journal where
  backend : Backend := {}
  /-- The runs that `start` has put into the queue, with their batch sizes. -/
  submitted : List (Nat × Nat) := []
  /-- The runs that `cancel` has accepted. -/
  cancelled : List Nat := []
  launches : List Launch := []

/-- What `start` puts into the queue. -/
def submission : BenchEvent → List (Nat × Nat)
  | .evalCreated batch id _ => [(id, batch)]
  | _ => []

/-- A `cancel` that returns `True`. -/
def cancellation (s : Backend) : BenchEvent → List Nat
  | .cancelEval id => if id ∈ s.eval.queued ∨ id ∈ s.eval.procs then [id] else []
  | _ => []

namespace Journal

def submittedIds (j : Journal) : List Nat := j.submitted.map Prod.fst

def launchedIds (j : Journal) : List Nat := j.launches.map Launch.id

/-- The batch size that a run was submitted with. -/
def batchOf (j : Journal) (id : Nat) : Nat := (j.submitted.lookup id).getD 0

/-- An event: the processes that are new are launches. -/
def step (j : Journal) (e : BenchEvent) : Option Journal :=
  (Bench.step j.backend e).map fun s =>
    { backend := s
      submitted := j.submitted ++ submission e
      cancelled := j.cancelled ++ cancellation j.backend e
      launches := j.launches ++ (s.evalAlive.drop j.backend.evalAlive.length).map fun id =>
        { id
          queue := j.backend.eval.queued ++ (submission e).map Prod.fst
          running := j.backend.evalAlive
          budget := s.eval.concurrencyBudget
          cancelled := j.cancelled } }

end Journal

/-- No launch raises. -/
def Launches : BenchEvent → Prop
  | .evalCreated _ _ raises | .evalStarted _ raises | .setConfig _ raises
  | .perfWatched _ raises | .evalFinished _ raises => raises = false
  | .evalNotStarted _ => False
  | _ => True

instance : ∀ e, Decidable (Launches e)
  | .evalCreated _ _ raises | .evalStarted _ raises | .setConfig _ raises
  | .perfWatched _ raises | .evalFinished _ raises => inferInstanceAs (Decidable (raises = false))
  | .evalNotStarted _ => isFalse id
  | .postPerf | .perfCreated _ _ | .perfNotCreated | .startEval _ | .evalNotCreated _
  | .cancelEval _ | .exitPerf _ | .exitEval _ | .evalWatched _ => isTrue trivial

/-- No handler is active: none is at an await but for the exit of a process that is alive. -/
def Idle (s : Backend) : Prop :=
  s.perfCreating = 0 ∧ s.evalCreating = [] ∧ s.launching = [] ∧ s.finishing = [] ∧
    (∀ id ∈ s.perfWatching, id ∈ s.perfAlive) ∧ ∀ id ∈ s.evalWatching, id ∈ s.evalAlive

instance (s : Backend) : Decidable (Idle s) := by
  unfold Idle
  infer_instance

/-- What the launches and the queue are, whatever has happened. -/
structure Admitted (j : Journal) : Prop where
  head : ∀ l ∈ j.launches, l.queue.head? = some l.id
  once : j.launchedIds.Nodup
  notCancelled : ∀ l ∈ j.launches, l.id ∉ l.cancelled
  /-- The submitted, less those cancelled before their launch, are the launched and the waiting. -/
  inOrder : j.submittedIds.filter (fun id => id ∉ j.cancelled ∨ id ∈ j.launchedIds) =
    j.launchedIds ++ j.backend.eval.queued
  within : ∀ l ∈ j.launches,
    l.running = [] ∨ (l.running.map j.batchOf).sum + j.batchOf l.id ≤ l.budget

/-- When no handler is active and no load test runs, the head of the queue does not fit. -/
def Settled (j : Journal) : Prop :=
  Idle j.backend → j.backend.perfAlive = [] → ∀ id ∈ j.backend.eval.queued.head?,
    j.backend.evalAlive ≠ [] ∧
      j.backend.eval.concurrencyBudget < (j.backend.evalAlive.map j.batchOf).sum + j.batchOf id

instance (j : Journal) : Decidable (Settled j) := by
  unfold Settled
  infer_instance

/-- When no handler is active and no load test runs, this head of the queue has to wait. -/
def Waits (s : Backend) (head : Option Nat) : Prop :=
  Idle s → s.perfAlive = [] → ∀ id ∈ head, s.eval.headWaits id = true

instance (s : Backend) (head : Option Nat) : Decidable (Waits s head) := by
  unfold Waits
  infer_instance

/-- A request that ends without a `_pump` does not end last while the head of the queue fits: a
`cancel` of the head, for the run behind it, and a `start` whose insert or launch has failed. -/
def Minds (s : Backend) : BenchEvent → Prop
  | .cancelEval id => s.eval.queued.head? = some id → Waits s s.eval.queued.tail.head?
  | .evalNotCreated batch =>
    Waits { s with evalCreating := s.evalCreating.erase batch } s.eval.queued.head?
  | .perfNotCreated | .perfCreated _ true =>
    Waits { s with perfCreating := s.perfCreating - 1 } s.eval.queued.head?
  | _ => True

instance (s : Backend) : ∀ e, Decidable (Minds s e)
  | .cancelEval id =>
    inferInstanceAs (Decidable (s.eval.queued.head? = some id → Waits s s.eval.queued.tail.head?))
  | .evalNotCreated _ | .perfNotCreated | .perfCreated _ true =>
    inferInstanceAs (Decidable (Waits _ _))
  | .postPerf | .perfCreated _ false | .startEval _ | .evalCreated _ _ _ | .evalStarted _ _
  | .evalNotStarted _ | .setConfig _ _ | .exitPerf _ | .exitEval _ | .perfWatched _ _
  | .evalWatched _ | .evalFinished _ _ => isTrue trivial

/-! ## What a stretch of the pump does -/

namespace EvalManager

variable {em : EvalManager}

/-- While every run of the queue has its request, a stretch of the pump launches the head of the
queue or changes nothing. -/
theorem pump_cases (hpending : em.pending = em.queued) (perfBusy : Bool) :
    (em.pump perfBusy false = (em, none) ∧
      (perfBusy = true ∨ ∀ id ∈ em.queued.head?, em.headWaits id = true)) ∨
    ∃ id queued, em.queued = id :: queued ∧ em.headWaits id = false ∧
      em.pump perfBusy false =
        ({ em with queued := queued, pending := queued, procs := em.procs ++ [id] }, some id) := by
  unfold pump
  cases hqueued : em.queued with
  | nil =>
    left
    unfold pumpQueue
    refine ⟨?_, Or.inr (by simp)⟩
    rw [← hqueued]
  | cons id queued =>
    unfold pumpQueue
    by_cases hwaits : (perfBusy || em.headWaits id) = true
    · left
      rw [if_pos hwaits, ← hqueued]
      exact ⟨rfl, by simpa [hqueued] using hwaits⟩
    · right
      rw [if_neg hwaits, if_neg (by simp [hpending, hqueued])]
      rw [Bool.not_eq_true, Bool.or_eq_false_iff] at hwaits
      refine ⟨id, queued, rfl, hwaits.2, ?_⟩
      simp [hpending, hqueued]

/-- Who fits beside what runs, or finds nothing running. -/
theorem headWaits_eq_false_iff {id : Nat} :
    em.headWaits id = false ↔
      em.procs = [] ∨ em.usedBudget + (em.batch id).getD 8 ≤ em.concurrencyBudget := by
  simp [headWaits, Decidable.or_iff_not_imp_left]

theorem headWaits_eq_true_iff {id : Nat} :
    em.headWaits id = true ↔
      em.procs ≠ [] ∧ em.concurrencyBudget < em.usedBudget + (em.batch id).getD 8 := by
  simp [headWaits]

end EvalManager

/-! ## The invariant -/

/-- What the backend knows of its eval runs is what has happened to them. -/
structure Ledger (j : Journal) : Prop where
  pending : j.backend.eval.pending = j.backend.eval.queued
  /-- Ids are given out once. -/
  fresh : j.submittedIds ⊆ j.backend.evalRuns
  nodup : j.submittedIds.Nodup
  inOrder : j.submittedIds.filter (fun id => id ∉ j.cancelled ∨ id ∈ j.launchedIds) =
    j.launchedIds ++ j.backend.eval.queued
  procs : j.backend.eval.procs.Sublist j.launchedIds
  alive : j.backend.evalAlive.Sublist j.backend.eval.procs
  /-- A process is awaited, or its launch is about to. -/
  watched : ∀ id ∈ j.backend.eval.procs, id ∈ j.backend.launching ∨ id ∈ j.backend.evalWatching
  started : ∀ id, id ∈ j.backend.launching ∨ id ∈ j.backend.evalWatching → id ∈ j.launchedIds
  batch : ∀ id, id ∈ j.backend.eval.procs ∨ id ∈ j.backend.eval.queued →
    j.backend.eval.batch id = some (j.batchOf id)
  accepted : j.cancelled ⊆ j.submittedIds
  head : ∀ l ∈ j.launches, l.queue.head? = some l.id
  notCancelled : ∀ l ∈ j.launches, l.id ∉ l.cancelled
  running : ∀ l ∈ j.launches, l.running ⊆ j.launchedIds
  within : ∀ l ∈ j.launches,
    l.running = [] ∨ (l.running.map j.batchOf).sum + j.batchOf l.id ≤ l.budget

namespace Ledger

variable {j j' : Journal} {id : Nat} {e : BenchEvent}

theorem nodup_append (inv : Ledger j) : (j.launchedIds ++ j.backend.eval.queued).Nodup :=
  inv.inOrder ▸ inv.nodup.filter _

theorem launched_nodup (inv : Ledger j) : j.launchedIds.Nodup :=
  (List.nodup_append.mp inv.nodup_append).1

theorem queued_nodup (inv : Ledger j) : j.backend.eval.queued.Nodup :=
  (List.nodup_append.mp inv.nodup_append).2.1

theorem procs_nodup (inv : Ledger j) : j.backend.eval.procs.Nodup :=
  inv.procs.nodup inv.launched_nodup

/-- A waiting run has not been launched. -/
theorem not_launched (inv : Ledger j) (h : id ∈ j.backend.eval.queued) : id ∉ j.launchedIds :=
  fun hid => (List.nodup_append.mp inv.nodup_append).2.2 id hid id h rfl

/-- A waiting run has been submitted, and has not been cancelled. -/
theorem of_queued (inv : Ledger j) (h : id ∈ j.backend.eval.queued) :
    id ∈ j.submittedIds ∧ id ∉ j.cancelled := by
  have hmem : id ∈ j.launchedIds ++ j.backend.eval.queued := List.mem_append_right _ h
  rw [← inv.inOrder, List.mem_filter] at hmem
  obtain ⟨hsub, hor⟩ := hmem
  refine ⟨hsub, ?_⟩
  rcases of_decide_eq_true hor with hnot | hlaunched
  · exact hnot
  · exact absurd hlaunched (inv.not_launched h)

theorem submitted_of_launched (inv : Ledger j) (h : id ∈ j.launchedIds) : id ∈ j.submittedIds := by
  have hmem : id ∈ j.launchedIds ++ j.backend.eval.queued := List.mem_append_left _ h
  rw [← inv.inOrder] at hmem
  exact List.mem_of_mem_filter hmem

/-- The invariant says what a reader of the journal wants to know. -/
theorem admitted (inv : Ledger j) : Admitted j where
  head := inv.head
  once := inv.launched_nodup
  notCancelled := inv.notCancelled
  inOrder := inv.inOrder
  within := inv.within

/-- `used_budget` is the sum of what the processes were submitted with. -/
theorem usedBudget (inv : Ledger j) :
    j.backend.eval.usedBudget = (j.backend.eval.procs.map j.batchOf).sum := by
  unfold EvalManager.usedBudget
  congr 1
  refine List.map_congr_left fun id hid => ?_
  rw [inv.batch id (Or.inl hid)]
  rfl

/-- Calls of the load tests move, or a process exits. -/
theorem moved (inv : Ledger j) {s : Backend} (heval : s.eval = j.backend.eval)
    (hruns : s.evalRuns = j.backend.evalRuns) (hlaunching : s.launching = j.backend.launching)
    (hwatching : s.evalWatching = j.backend.evalWatching)
    (halive : s.evalAlive.Sublist j.backend.evalAlive) : Ledger { j with backend := s } where
  pending := by
    rw [heval]
    exact inv.pending
  fresh := by
    rw [hruns]
    exact inv.fresh
  nodup := inv.nodup
  inOrder := by
    rw [heval]
    exact inv.inOrder
  procs := by
    rw [heval]
    exact inv.procs
  alive := by
    rw [heval]
    exact halive.trans inv.alive
  watched := by
    rw [heval, hlaunching, hwatching]
    exact inv.watched
  started := by
    rw [hlaunching, hwatching]
    exact inv.started
  batch := by
    rw [heval]
    exact inv.batch
  accepted := inv.accepted
  head := inv.head
  notCancelled := inv.notCancelled
  running := inv.running
  within := inv.within

end Ledger

/-! ## Launches -/

namespace Journal

variable {j j' : Journal} {e : BenchEvent}

/-- A stretch of the pump in the journal. -/
def pumped (j : Journal) : Journal :=
  { j with
    backend := j.backend.pumped false
    launches := j.launches ++ (j.backend.eval.pump j.backend.perf.busy false).2.toList.map fun id =>
      { id
        queue := j.backend.eval.queued
        running := j.backend.evalAlive
        budget := j.backend.eval.concurrencyBudget
        cancelled := j.cancelled } }

/-- What a stretch of the pump is, while every run of the queue has its request. -/
theorem pumped_cases (hpending : j.backend.eval.pending = j.backend.eval.queued) :
    (j.pumped = j ∧ (j.backend.perf.busy = true ∨
      ∀ id ∈ j.backend.eval.queued.head?, j.backend.eval.headWaits id = true)) ∨
    ∃ id queued, j.backend.eval.queued = id :: queued ∧ j.backend.eval.headWaits id = false ∧
      j.pumped =
        { j with
          backend := { j.backend with
            eval := { j.backend.eval with
              queued := queued
              pending := queued
              procs := j.backend.eval.procs ++ [id] }
            launching := j.backend.launching ++ [id]
            evalAlive := j.backend.evalAlive ++ [id] }
          launches := j.launches ++
            [{ id
               queue := j.backend.eval.queued
               running := j.backend.evalAlive
               budget := j.backend.eval.concurrencyBudget
               cancelled := j.cancelled }] } := by
  rcases EvalManager.pump_cases hpending j.backend.perf.busy with
    ⟨hpump, hstays⟩ | ⟨id, queued, hqueued, hfits, hpump⟩
  · refine Or.inl ⟨?_, hstays⟩
    simp [pumped, Backend.pumped, hpump]
  · refine Or.inr ⟨id, queued, hqueued, hfits, ?_⟩
    simp [pumped, Backend.pumped, hpump]

theorem pumped_budget (s : Backend) :
    (s.pumped false).eval.concurrencyBudget = s.eval.concurrencyBudget := by
  show (s.eval.pump s.perf.busy false).1.concurrencyBudget = _
  unfold EvalManager.pump
  induction s.eval.queued with
  | nil => rfl
  | cons id queued ih =>
    unfold EvalManager.pumpQueue
    by_cases hwaits : (s.perf.busy || s.eval.headWaits id) = true
    · rw [if_pos hwaits]
    · rw [if_neg hwaits]
      by_cases hpending : id ∉ s.eval.pending
      · rw [if_pos hpending]
        exact ih
      · rw [if_neg hpending]
        rfl

/-- An event that pumps the queue. -/
theorem eq_of_pumped {s : Backend} (h : j.step e = some j')
    (hs : Bench.step j.backend e = some (s.pumped false))
    (halive : s.evalAlive = j.backend.evalAlive)
    (hqueued : s.eval.queued = j.backend.eval.queued ++ (submission e).map Prod.fst)
    (hcancel : cancellation j.backend e = []) :
    j' = { j with backend := s, submitted := j.submitted ++ submission e }.pumped := by
  unfold step at h
  rw [hs, Option.map_some, Option.some.injEq] at h
  rw [← h, pumped_budget, hcancel, List.append_nil]
  unfold pumped
  congr 2
  rw [hqueued, ← halive]
  congr 1
  show (s.evalAlive ++ _).drop _ = _
  rw [List.drop_left]
  rfl

/-- An event that only moves calls. -/
theorem eq_of_quiet (h : j.step e = some j') (hsub : submission e = [])
    (hcancel : cancellation j.backend e = []) {s : Backend} (hs : Bench.step j.backend e = some s)
    (hlen : s.evalAlive.length ≤ j.backend.evalAlive.length) : j' = { j with backend := s } := by
  unfold step at h
  rw [hs, Option.map_some, Option.some.injEq] at h
  rw [← h, hsub, hcancel, List.append_nil, List.append_nil, List.drop_eq_nil_of_le hlen,
    List.map_nil, List.append_nil]

end Journal

namespace Ledger

variable {j j' : Journal} {id : Nat} {e : BenchEvent}

/-- **A stretch of the pump keeps the invariant.** -/
theorem pumped (inv : Ledger j) : Ledger j.pumped := by
  rcases Journal.pumped_cases inv.pending with ⟨hsame, -⟩ | ⟨id, queued, hqueued, hfits, hpumped⟩
  · rw [hsame]
    exact inv
  rw [hpumped]
  have hhead : id ∈ j.backend.eval.queued := by
    rw [hqueued]
    exact List.mem_cons_self
  obtain ⟨-, hnot⟩ := inv.of_queued hhead
  exact {
    pending := rfl
    fresh := inv.fresh
    nodup := inv.nodup
    inOrder := by
      simp only [Journal.launchedIds, List.map_append, List.map_cons, List.map_nil,
        List.append_assoc, List.singleton_append]
      have := inv.inOrder
      rw [hqueued] at this
      refine Eq.trans ?_ this
      refine List.filter_congr fun x _ => ?_
      by_cases hx : x = id
      · simp [hx, hnot]
      · simp [hx, Journal.launchedIds]
    procs := by
      simp only [Journal.launchedIds, List.map_append, List.map_cons, List.map_nil]
      exact inv.procs.append (.refl _)
    alive := inv.alive.append (.refl _)
    watched := by
      intro x hx
      rcases List.mem_append.mp hx with hx | hx
      · exact (inv.watched x hx).imp_left (List.mem_append_left _)
      · exact Or.inl (List.mem_append_right _ hx)
    started := by
      intro x hx
      simp only [Journal.launchedIds, List.map_append, List.map_cons, List.map_nil]
      rcases hx with hx | hx
      · rcases List.mem_append.mp hx with hx | hx
        · exact List.mem_append_left _ (inv.started x (Or.inl hx))
        · exact List.mem_append_right _ hx
      · exact List.mem_append_left _ (inv.started x (Or.inr hx))
    batch := by
      intro x hx
      refine inv.batch x ?_
      rcases hx with hx | hx
      · rcases List.mem_append.mp hx with hx | hx
        · exact Or.inl hx
        · exact Or.inr (List.mem_singleton.mp hx ▸ hhead)
      · right
        rw [hqueued]
        exact List.mem_cons_of_mem _ hx
    accepted := inv.accepted
    head := by
      intro l hl
      rcases List.mem_append.mp hl with hl | hl
      · exact inv.head l hl
      · rw [List.mem_singleton.mp hl, hqueued]
        rfl
    notCancelled := by
      intro l hl
      rcases List.mem_append.mp hl with hl | hl
      · exact inv.notCancelled l hl
      · rw [List.mem_singleton.mp hl]
        exact hnot
    running := by
      intro l hl
      simp only [Journal.launchedIds, List.map_append]
      refine List.Subset.trans ?_ (List.subset_append_left _ _)
      rcases List.mem_append.mp hl with hl | hl
      · exact inv.running l hl
      · rw [List.mem_singleton.mp hl]
        exact (inv.alive.trans inv.procs).subset
    within := by
      intro l hl
      rcases List.mem_append.mp hl with hl | hl
      · exact inv.within l hl
      · rw [List.mem_singleton.mp hl]
        rcases EvalManager.headWaits_eq_false_iff.mp hfits with hnone | hroom
        · left
          exact List.sublist_nil.mp (hnone ▸ inv.alive)
        · right
          rw [inv.usedBudget, inv.batch id (Or.inr hhead), Option.getD_some] at hroom
          have hle := ((inv.alive.map j.batchOf).sum_le_sum fun _ _ => Nat.zero_le _)
          exact (Nat.add_le_add_right hle _).trans hroom }

/-! ## The other events -/

/-- `start` after its insert. -/
theorem enqueued (inv : Ledger j) (hfresh : id ∉ j.backend.evalRuns) (batch : Nat)
    (creating : List Nat) :
    Ledger { j with
      backend := { j.backend with
        evalCreating := creating
        evalRuns := id :: j.backend.evalRuns
        eval := j.backend.eval.enqueue id batch }
      submitted := j.submitted ++ [(id, batch)] } := by
  have hnew : id ∉ j.submittedIds := fun h => hfresh (inv.fresh h)
  have hlaunched : id ∉ j.launchedIds := fun h => hnew (inv.submitted_of_launched h)
  have hnone : j.submitted.lookup id = none := by
    rw [List.lookup_eq_none_iff]
    intro p hp
    simpa using fun (h : id = p.1) => hnew (h ▸ List.mem_map_of_mem hp)
  -- the sizes of the earlier runs stay what they were
  have hkeeps (x : Nat) (hx : x ≠ id) :
      ((j.submitted ++ [(id, batch)]).lookup x).getD 0 = j.batchOf x := by
    rw [List.lookup_append, List.lookup_cons, beq_false_of_ne hx]
    simp [Journal.batchOf]
  have hne (x : Nat) (hx : x ∈ j.launchedIds) : x ≠ id := ne_of_mem_of_not_mem hx hlaunched
  exact {
    pending := congrArg (· ++ [id]) inv.pending
    fresh := by
      intro x hx
      simp only [Journal.submittedIds, List.map_append, List.map_cons, List.map_nil] at hx
      rcases List.mem_append.mp hx with hx | hx
      · exact List.mem_cons_of_mem _ (inv.fresh hx)
      · exact List.mem_singleton.mp hx ▸ List.mem_cons_self
    nodup := by
      simp only [Journal.submittedIds, List.map_append, List.map_cons, List.map_nil]
      exact inv.nodup.append (List.nodup_singleton id) (by simpa using hnew)
    inOrder := by
      simp only [Journal.submittedIds, List.map_append, List.map_cons, List.map_nil,
        List.filter_append]
      rw [show (j.backend.eval.enqueue id batch).queued = j.backend.eval.queued ++ [id] from rfl,
        ← List.append_assoc]
      congr 1
      · exact inv.inOrder
      · rw [List.filter_cons_of_pos]
        · rfl
        · exact decide_eq_true (Or.inl fun h => hnew (inv.accepted h))
    procs := inv.procs
    alive := inv.alive
    watched := inv.watched
    started := inv.started
    batch := by
      intro x hx
      show Function.update j.backend.eval.batch id (some batch) x =
        some (((j.submitted ++ [(id, batch)]).lookup x).getD 0)
      by_cases hid : x = id
      · rw [hid, Function.update_self, List.lookup_append, hnone]
        simp
      · rw [Function.update_of_ne hid, hkeeps x hid]
        refine inv.batch x (hx.imp_right fun hx => ?_)
        exact (List.mem_append.mp hx).resolve_right (fun h => hid (List.mem_singleton.mp h))
    accepted := by
      simp only [Journal.submittedIds, List.map_append]
      exact List.Subset.trans inv.accepted (List.subset_append_left _ _)
    head := inv.head
    notCancelled := inv.notCancelled
    running := inv.running
    within := by
      intro l hl
      refine (inv.within l hl).imp_right fun hle => ?_
      refine le_of_eq_of_le ?_ hle
      congr 1
      · congr 1
        exact List.map_congr_left fun x hx => hkeeps x (hne x (inv.running l hl hx))
      · exact hkeeps l.id (hne l.id (List.mem_map_of_mem hl)) }

/-- `cancel` of a waiting run. -/
theorem dropped (inv : Ledger j) (hid : id ∈ j.backend.eval.queued) :
    Ledger { j with
      backend := { j.backend with eval := j.backend.eval.cancel id }
      cancelled := j.cancelled ++ [id] } := by
  have hlaunched := inv.not_launched hid
  have hcancel : j.backend.eval.cancel id =
      { j.backend.eval with
        queued := j.backend.eval.queued.erase id
        pending := j.backend.eval.pending.erase id
        batch := Function.update j.backend.eval.batch id none } := if_pos hid
  rw [hcancel]
  exact {
    pending := congrArg (List.erase · id) inv.pending
    fresh := inv.fresh
    nodup := inv.nodup
    inOrder := by
      have herase : (j.launchedIds ++ j.backend.eval.queued).filter (· ≠ id) =
          j.launchedIds ++ j.backend.eval.queued.erase id := by
        rw [List.filter_append, inv.queued_nodup.erase_eq_filter]
        congr 1
        · exact List.filter_eq_self.mpr fun x hx =>
            decide_eq_true (ne_of_mem_of_not_mem hx hlaunched)
        · exact List.filter_congr fun x _ => by simp [bne, Bool.beq_eq_decide_eq]
      refine Eq.trans ?_ herase
      rw [← inv.inOrder, List.filter_filter]
      refine List.filter_congr fun x _ => ?_
      by_cases hx : x = id
      · subst hx
        simpa [Journal.launchedIds] using hlaunched
      · simp [hx, Journal.launchedIds]
    procs := inv.procs
    alive := inv.alive
    watched := inv.watched
    started := inv.started
    batch := by
      intro x hx
      have hne : x ≠ id := by
        rcases hx with hx | hx
        · exact ne_of_mem_of_not_mem (inv.procs.subset hx) hlaunched
        · exact (inv.queued_nodup.mem_erase_iff.mp hx).1
      refine (Function.update_of_ne hne _ _).trans (inv.batch x ?_)
      exact hx.imp_right List.mem_of_mem_erase
    accepted := List.append_subset.mpr
      ⟨inv.accepted, List.cons_subset.mpr ⟨(inv.of_queued hid).1, List.nil_subset _⟩⟩
    head := inv.head
    notCancelled := inv.notCancelled
    running := inv.running
    within := inv.within }

/-- `cancel` of a run that has a process. -/
theorem told (inv : Ledger j) (hid : id ∈ j.launchedIds) :
    Ledger { j with cancelled := j.cancelled ++ [id] } where
  pending := inv.pending
  fresh := inv.fresh
  nodup := inv.nodup
  inOrder := by
    refine Eq.trans (List.filter_congr fun x _ => ?_) inv.inOrder
    by_cases hx : x = id
    · rw [hx]
      simp only [List.mem_append, List.mem_singleton]
      have : id ∈ ({ j with cancelled := j.cancelled ++ [id] } : Journal).launchedIds := hid
      simp [this, hid]
    · simp [hx, Journal.launchedIds]
  procs := inv.procs
  alive := inv.alive
  watched := inv.watched
  started := inv.started
  batch := inv.batch
  accepted := List.append_subset.mpr
    ⟨inv.accepted, List.cons_subset.mpr ⟨inv.submitted_of_launched hid, List.nil_subset _⟩⟩
  head := inv.head
  notCancelled := inv.notCancelled
  running := inv.running
  within := inv.within

/-- `PATCH /eval/config`. -/
theorem budgeted (inv : Ledger j) (budget : Nat) :
    Ledger { j with backend := { j.backend with
      eval := { j.backend.eval with concurrencyBudget := budget } } } where
  pending := inv.pending
  fresh := inv.fresh
  nodup := inv.nodup
  inOrder := inv.inOrder
  procs := inv.procs
  alive := inv.alive
  watched := inv.watched
  started := inv.started
  batch := inv.batch
  accepted := inv.accepted
  head := inv.head
  notCancelled := inv.notCancelled
  running := inv.running
  within := inv.within

/-- `_launch` after `start_eval_run`: the process is awaited. -/
theorem awaited (inv : Ledger j) (hid : id ∈ j.backend.launching) :
    Ledger { j with backend := { j.backend with
      launching := j.backend.launching.erase id
      evalWatching := id :: j.backend.evalWatching } } where
  pending := inv.pending
  fresh := inv.fresh
  nodup := inv.nodup
  inOrder := inv.inOrder
  procs := inv.procs
  alive := inv.alive
  watched := by
    intro x hx
    by_cases hne : x = id
    · exact Or.inr (hne ▸ List.mem_cons_self)
    · exact (inv.watched x hx).imp (List.mem_erase_of_ne hne).mpr (List.mem_cons_of_mem _)
  started := by
    intro x hx
    rcases hx with hx | hx
    · exact inv.started x (Or.inl (List.mem_of_mem_erase hx))
    · rcases List.mem_cons.mp hx with rfl | hx
      · exact inv.started x (Or.inl hid)
      · exact inv.started x (Or.inr hx)
  batch := inv.batch
  accepted := inv.accepted
  head := inv.head
  notCancelled := inv.notCancelled
  running := inv.running
  within := inv.within

/-- `_watch` when the process has exited. -/
theorem exited (inv : Ledger j) (hid : id ∈ j.backend.evalWatching)
    (hdead : id ∉ j.backend.evalAlive) {finishing : List Nat} :
    Ledger { j with backend := { j.backend with
      evalWatching := j.backend.evalWatching.erase id
      eval := j.backend.eval.exited id
      finishing := finishing } } where
  pending := inv.pending
  fresh := inv.fresh
  nodup := inv.nodup
  inOrder := inv.inOrder
  procs := List.erase_sublist.trans inv.procs
  alive := by
    rw [← List.erase_of_not_mem hdead]
    exact inv.alive.erase id
  watched := by
    intro x hx
    obtain ⟨hne, hx⟩ := inv.procs_nodup.mem_erase_iff.mp hx
    exact (inv.watched x hx).imp_right (List.mem_erase_of_ne hne).mpr
  started := fun x hx => inv.started x (hx.imp_right List.mem_of_mem_erase)
  batch := by
    intro x hx
    have hne : x ≠ id := by
      rcases hx with hx | hx
      · exact (inv.procs_nodup.mem_erase_iff.mp hx).1
      · rintro rfl
        exact inv.not_launched hx (inv.started x (Or.inr hid))
    refine (Function.update_of_ne hne _ _).trans (inv.batch x ?_)
    exact hx.imp_left List.mem_of_mem_erase
  accepted := inv.accepted
  head := inv.head
  notCancelled := inv.notCancelled
  running := inv.running
  within := inv.within

end Ledger

/-! ## The load tests -/

/-- The process of a load test is awaited, and the current load test too. -/
structure PerfKept (s : Backend) : Prop where
  alive : s.perfAlive.Sublist s.perfWatching
  nodup : s.perfWatching.Nodup
  fresh : s.perfWatching ⊆ s.perfRuns
  current : ∀ id ∈ s.perf.current, id ∈ s.perfWatching

namespace PerfKept

variable {s s' : Backend} {id : Nat} {e : BenchEvent}

theorem congr (inv : PerfKept s) (halive : s'.perfAlive = s.perfAlive)
    (hwatching : s'.perfWatching = s.perfWatching) (hruns : s'.perfRuns = s.perfRuns)
    (hperf : s'.perf = s.perf) : PerfKept s' where
  alive := by
    rw [halive, hwatching]
    exact inv.alive
  nodup := by
    rw [hwatching]
    exact inv.nodup
  fresh := by
    rw [hwatching, hruns]
    exact inv.fresh
  current := by
    rw [hperf, hwatching]
    exact inv.current

theorem started (inv : PerfKept s) (hfresh : id ∉ s.perfRuns) (raises : Bool) :
    PerfKept (s.perfStarted id raises) := by
  cases raises with
  | true => exact ⟨inv.alive, inv.nodup, List.subset_cons_of_subset id inv.fresh, inv.current⟩
  | false =>
    refine ⟨inv.alive.cons_cons id, ?_, List.cons_subset_cons id inv.fresh, ?_⟩
    · exact List.nodup_cons.mpr ⟨fun h => hfresh (inv.fresh h), inv.nodup⟩
    · intro x hx
      rw [← show id = x from Option.some.inj hx]
      exact List.mem_cons_self

theorem watched (inv : PerfKept s) (hdead : id ∉ s.perfAlive) :
    PerfKept { s with perfWatching := s.perfWatching.erase id, perf := s.perf.exited id } where
  alive := by
    show s.perfAlive.Sublist (s.perfWatching.erase id)
    rw [← List.erase_of_not_mem hdead]
    exact inv.alive.erase id
  nodup := inv.nodup.erase id
  fresh := List.Subset.trans List.erase_subset inv.fresh
  current := by
    intro x hx
    change x ∈ (if s.perf.current = some id then none else s.perf.current) at hx
    by_cases hc : s.perf.current = some id
    · rw [if_pos hc] at hx
      simp at hx
    · rw [if_neg hc] at hx
      refine inv.nodup.mem_erase_iff.mpr ⟨?_, inv.current x hx⟩
      rintro rfl
      exact hc hx

/-- No handler is active and no load test runs: none is current. -/
theorem free (inv : PerfKept s) (hidle : Idle s) (hnone : s.perfAlive = []) :
    s.perf.busy = false := by
  obtain ⟨-, -, -, -, halive, -⟩ := hidle
  unfold PerfManager.busy
  cases hc : s.perf.current with
  | none => rfl
  | some id =>
    have := halive id (inv.current id hc)
    rw [hnone] at this
    exact absurd this List.not_mem_nil

/-- The exit of a load test is an event that its `_watch` has to answer. -/
theorem not_idle (inv : PerfKept s) (hid : id ∈ s.perfAlive) :
    ¬ Idle { s with perfAlive := s.perfAlive.erase id } := by
  rintro ⟨-, -, -, -, halive, -⟩
  exact (inv.alive.nodup inv.nodup).not_mem_erase (halive id (inv.alive.subset hid))

/-- Every event keeps the load tests in order. -/
theorem step (inv : PerfKept s) (h : Bench.step s e = some s') : PerfKept s' := by
  cases e with
  | postPerf =>
    by_cases hbusy : (s.eval.busy || s.perf.busy) = true
    · rw [Bench.step, if_pos hbusy, Option.some.injEq] at h
      exact h ▸ inv
    · rw [Bench.step, if_neg hbusy, Option.some.injEq] at h
      exact h ▸ inv.congr rfl rfl rfl rfl
  | perfCreated id raises =>
    obtain ⟨⟨-, hfresh⟩, hs⟩ := Option.ite_none_right_eq_some.mp h
    exact Option.some.inj hs ▸ inv.started hfresh raises
  | startEval batch => exact Option.some.inj h ▸ inv.congr rfl rfl rfl rfl
  | cancelEval id => exact Option.some.inj h ▸ inv.congr rfl rfl rfl rfl
  | setConfig budget raises => exact Option.some.inj h ▸ inv.congr rfl rfl rfl rfl
  | exitPerf id =>
    obtain ⟨-, hs⟩ := Option.ite_none_right_eq_some.mp h
    rw [← Option.some.inj hs]
    exact ⟨List.erase_sublist.trans inv.alive, inv.nodup, inv.fresh, inv.current⟩
  | perfWatched id raises =>
    obtain ⟨⟨-, hdead⟩, hs⟩ := Option.ite_none_right_eq_some.mp h
    have hkept := inv.watched hdead
    rw [← Option.some.inj hs]
    split_ifs
    · exact hkept
    · exact hkept.congr rfl rfl rfl rfl
  | perfNotCreated | evalCreated _ _ _ | evalNotCreated _ | evalStarted _ _ | evalNotStarted _
  | exitEval _ | evalWatched _ | evalFinished _ _ =>
    obtain ⟨-, hs⟩ := Option.ite_none_right_eq_some.mp h
    exact Option.some.inj hs ▸ inv.congr rfl rfl rfl rfl

end PerfKept

/-! ## What is left waiting -/

namespace Ledger

variable {j j' : Journal} {id : Nat} {e : BenchEvent}

/-- While no handler is active, the manager knows exactly the processes that are alive. -/
theorem procs_of_idle (inv : Ledger j) (hidle : Idle j.backend) :
    j.backend.eval.procs = j.backend.evalAlive := by
  obtain ⟨-, -, hlaunching, -, -, halive⟩ := hidle
  have hsub : j.backend.eval.procs ⊆ j.backend.evalAlive := by
    intro id hid
    rcases inv.watched id hid with hid | hid
    · rw [hlaunching] at hid
      exact absurd hid List.not_mem_nil
    · exact halive id hid
  exact (inv.alive.eq_of_length_le (inv.procs_nodup.subperm hsub).length_le).symm

/-- Whether a run of the queue has to wait, in terms of the processes alive. -/
theorem waits_iff (inv : Ledger j) {head : Option Nat}
    (hhead : ∀ id ∈ head, id ∈ j.backend.eval.queued) :
    Waits j.backend head ↔
      (Idle j.backend → j.backend.perfAlive = [] → ∀ id ∈ head, j.backend.evalAlive ≠ [] ∧
        j.backend.eval.concurrencyBudget <
          (j.backend.evalAlive.map j.batchOf).sum + j.batchOf id) := by
  unfold Waits
  refine forall_congr' fun hidle => forall_congr' fun _ => forall_congr' fun id =>
    forall_congr' fun hid => ?_
  rw [EvalManager.headWaits_eq_true_iff, inv.usedBudget, inv.procs_of_idle hidle,
    inv.batch id (Or.inr (hhead id hid)), Option.getD_some]

theorem settled_iff (inv : Ledger j) :
    Settled j ↔ Waits j.backend j.backend.eval.queued.head? :=
  (inv.waits_iff fun _ => List.mem_of_mem_head?).symm

/-- After a stretch of the pump the head of the queue has to wait. -/
theorem settled_pumped (inv : Ledger j) (hperf : PerfKept j.backend) : Settled j.pumped := by
  rcases Journal.pumped_cases inv.pending with ⟨hsame, hstays⟩ | ⟨id, queued, -, -, hpumped⟩
  · rw [hsame, inv.settled_iff]
    intro hidle hnone
    exact hstays.resolve_left (by simp [hperf.free hidle hnone])
  · rw [hpumped]
    rintro ⟨-, -, hlaunching, -⟩
    simp at hlaunching

/-- The exit of an eval is an event that its `_watch` has to answer. -/
theorem not_idle (inv : Ledger j) (hid : id ∈ j.backend.evalAlive) :
    ¬ Idle { j.backend with evalAlive := j.backend.evalAlive.erase id } := by
  rintro ⟨-, -, hlaunching, -, -, halive⟩
  rcases inv.watched id (inv.alive.subset hid) with h | h
  · rw [hlaunching] at h
    exact List.not_mem_nil h
  · exact (inv.alive.nodup inv.procs_nodup).not_mem_erase (halive id h)

/-- What an event that pumps the queue leaves. -/
theorem step_pumped {s : Backend} {submitted : List (Nat × Nat)}
    (inv : Ledger { j with backend := s, submitted := submitted }) (hperf : PerfKept s)
    (h : j.step e = some j') (hsubmitted : j.submitted ++ submission e = submitted)
    (hs : Bench.step j.backend e = some (s.pumped false))
    (halive : s.evalAlive = j.backend.evalAlive)
    (hqueued : s.eval.queued = j.backend.eval.queued ++ (submission e).map Prod.fst)
    (hcancel : cancellation j.backend e = []) : Ledger j' ∧ Settled j' := by
  subst hsubmitted
  rw [Journal.eq_of_pumped h hs halive hqueued hcancel]
  exact ⟨inv.pumped, inv.settled_pumped hperf⟩

/-- `cancel` leaves the queue as it was, less the run. Nobody looks at the run behind it. -/
theorem step_cancel (inv : Ledger j) (h : j.step (.cancelEval id) = some j') :
    Ledger j' ∧ (Settled j → (Settled j' ↔ Minds j.backend (.cancelEval id))) := by
  have hj' : j' = { j with
      backend := { j.backend with eval := j.backend.eval.cancel id }
      cancelled := j.cancelled ++ cancellation j.backend (.cancelEval id) } := by
    unfold Journal.step at h
    rw [Bench.step, Option.map_some, Option.some.injEq] at h
    rw [← h]
    simp [submission]
  by_cases hqueued : id ∈ j.backend.eval.queued
  · have hcancel : cancellation j.backend (.cancelEval id) = [id] := if_pos (Or.inl hqueued)
    have hdropped := inv.dropped hqueued
    rw [hj', hcancel]
    refine ⟨hdropped, fun hset => ?_⟩
    have herase : (j.backend.eval.cancel id).queued = j.backend.eval.queued.erase id := by
      unfold EvalManager.cancel
      rw [if_pos hqueued]
    have hkeeps : (j.backend.eval.cancel id).concurrencyBudget =
        j.backend.eval.concurrencyBudget := by
      unfold EvalManager.cancel
      rw [if_pos hqueued]
    -- what the queue less the run has to satisfy
    show (Idle j.backend → j.backend.perfAlive = [] →
      ∀ x ∈ (j.backend.eval.cancel id).queued.head?, j.backend.evalAlive ≠ [] ∧
        (j.backend.eval.cancel id).concurrencyBudget <
          (j.backend.evalAlive.map j.batchOf).sum + j.batchOf x) ↔
      (j.backend.eval.queued.head? = some id → Waits j.backend j.backend.eval.queued.tail.head?)
    rw [herase, hkeeps]
    cases hq : j.backend.eval.queued with
    | nil => simp [hq] at hqueued
    | cons first rest =>
      by_cases hfirst : first = id
      · rw [hfirst, List.erase_cons_head, List.head?_cons, List.tail_cons, inv.waits_iff]
        · exact ⟨fun h _ => h, fun h => h rfl⟩
        · intro x hx
          rw [hq]
          exact List.mem_cons_of_mem _ (List.mem_of_mem_head? hx)
      · rw [List.erase_cons_tail (by simpa using hfirst), List.head?_cons, List.head?_cons]
        refine iff_of_true ?_ fun h => absurd (Option.some.inj h) hfirst
        intro hidle hnone x hx
        exact hset hidle hnone x (by rw [hq]; exact hx)
  · have hsame : j.backend.eval.cancel id = j.backend.eval := if_neg hqueued
    have hminds : Minds j.backend (.cancelEval id) :=
      fun hhead => absurd (List.mem_of_mem_head? hhead) hqueued
    rw [hj', hsame]
    by_cases hprocs : id ∈ j.backend.eval.procs
    · rw [show cancellation j.backend (.cancelEval id) = [id] from if_pos (Or.inr hprocs)]
      exact ⟨inv.told (inv.procs.subset hprocs), fun hset => iff_of_true hset hminds⟩
    · rw [show cancellation j.backend (.cancelEval id) = [] from if_neg (not_or.mpr
        ⟨hqueued, hprocs⟩), List.append_nil]
      exact ⟨inv, fun hset => iff_of_true hset hminds⟩

/-- **Every event keeps the journal true, and leaves nothing that fits if it minds the queue.** -/
theorem step (inv : Ledger j) (hperf : PerfKept j.backend) (hlaunch : Launches e)
    (h : j.step e = some j') : Ledger j' ∧ (Settled j → (Settled j' ↔ Minds j.backend e)) := by
  have hperf' : PerfKept j'.backend := by
    obtain ⟨s, hs, rfl⟩ := Option.map_eq_some_iff.mp h
    exact hperf.step hs
  obtain ⟨s, hs, -⟩ := Option.map_eq_some_iff.mp h
  -- the events that only move calls, with what they leave
  have hquiet (hsub : submission e = []) (hcancel : cancellation j.backend e = [])
      (hlen : s.evalAlive.length ≤ j.backend.evalAlive.length) := Journal.eq_of_quiet h hsub hcancel
    hs hlen
  cases e with
  | postPerf =>
    by_cases hbusy : (j.backend.eval.busy || j.backend.perf.busy) = true
    · rw [Bench.step, if_pos hbusy, Option.some.injEq] at hs
      subst hs
      rw [hquiet rfl rfl le_rfl]
      exact ⟨inv, fun hset => iff_of_true hset trivial⟩
    · rw [Bench.step, if_neg hbusy, Option.some.injEq] at hs
      subst hs
      rw [hquiet rfl rfl le_rfl]
      refine ⟨inv.moved rfl rfl rfl rfl (.refl _), fun _ => iff_of_true ?_ trivial⟩
      rintro ⟨hcreating, -⟩
      exact absurd hcreating (Nat.succ_ne_zero _)
  | perfCreated id raises =>
    obtain ⟨-, hs⟩ := Option.ite_none_right_eq_some.mp hs
    have hs := (Option.some.inj hs).symm
    cases raises with
    | true =>
      subst hs
      rw [hquiet rfl rfl le_rfl]
      have hmoved := inv.moved (s := j.backend.perfStarted id true) rfl rfl rfl rfl (.refl _)
      exact ⟨hmoved, fun _ => hmoved.settled_iff⟩
    | false =>
      subst hs
      rw [hquiet rfl rfl le_rfl]
      refine ⟨inv.moved rfl rfl rfl rfl (.refl _), fun _ => iff_of_true ?_ trivial⟩
      intro _ hnone
      exact absurd hnone (List.cons_ne_nil _ _)
  | perfNotCreated =>
    obtain ⟨-, hs⟩ := Option.ite_none_right_eq_some.mp hs
    have hs := (Option.some.inj hs).symm
    subst hs
    rw [hquiet rfl rfl le_rfl]
    have hmoved := inv.moved
      (s := { j.backend with perfCreating := j.backend.perfCreating - 1 }) rfl rfl rfl rfl (.refl _)
    exact ⟨hmoved, fun _ => hmoved.settled_iff⟩
  | startEval batch =>
    have hs := (Option.some.inj hs).symm
    subst hs
    rw [hquiet rfl rfl le_rfl]
    refine ⟨inv.moved rfl rfl rfl rfl (.refl _), fun _ => iff_of_true ?_ trivial⟩
    rintro ⟨-, hcreating, -⟩
    exact absurd hcreating (List.cons_ne_nil _ _)
  | evalCreated batch id raises =>
    cases hlaunch
    obtain ⟨hguard, -⟩ := Option.ite_none_right_eq_some.mp hs
    obtain ⟨hledger, hsettled⟩ :=
      step_pumped (inv.enqueued hguard.2 batch (j.backend.evalCreating.erase batch))
        (hperf.congr rfl rfl rfl rfl) h rfl (if_pos hguard) rfl rfl rfl
    exact ⟨hledger, fun _ => iff_of_true hsettled trivial⟩
  | evalNotCreated batch =>
    obtain ⟨-, hs⟩ := Option.ite_none_right_eq_some.mp hs
    have hs := (Option.some.inj hs).symm
    subst hs
    rw [hquiet rfl rfl le_rfl]
    have hmoved := inv.moved
      (s := { j.backend with evalCreating := j.backend.evalCreating.erase batch })
      rfl rfl rfl rfl (.refl _)
    exact ⟨hmoved, fun _ => hmoved.settled_iff⟩
  | evalStarted id raises =>
    cases hlaunch
    obtain ⟨hid, -⟩ := Option.ite_none_right_eq_some.mp hs
    obtain ⟨hledger, hsettled⟩ := step_pumped (inv.awaited hid) (hperf.congr rfl rfl rfl rfl) h
      (List.append_nil _) (if_pos hid) rfl (List.append_nil _).symm rfl
    exact ⟨hledger, fun _ => iff_of_true hsettled trivial⟩
  | evalNotStarted id => exact hlaunch.elim
  | cancelEval id => exact inv.step_cancel h
  | setConfig budget raises =>
    cases hlaunch
    obtain ⟨hledger, hsettled⟩ := step_pumped (inv.budgeted budget) (hperf.congr rfl rfl rfl rfl) h
      (List.append_nil _) rfl rfl (List.append_nil _).symm rfl
    exact ⟨hledger, fun _ => iff_of_true hsettled trivial⟩
  | exitPerf id =>
    obtain ⟨hid, hs⟩ := Option.ite_none_right_eq_some.mp hs
    have hs := (Option.some.inj hs).symm
    subst hs
    rw [hquiet rfl rfl le_rfl]
    refine ⟨inv.moved rfl rfl rfl rfl (.refl _), fun _ => iff_of_true ?_ trivial⟩
    intro hidle
    exact absurd hidle (hperf.not_idle hid)
  | exitEval id =>
    obtain ⟨hid, hs⟩ := Option.ite_none_right_eq_some.mp hs
    have hs := (Option.some.inj hs).symm
    subst hs
    rw [hquiet rfl rfl List.length_erase_le]
    refine ⟨inv.moved rfl rfl rfl rfl List.erase_sublist, fun _ => iff_of_true ?_ trivial⟩
    intro hidle
    exact absurd hidle (inv.not_idle hid)
  | perfWatched id raises =>
    cases hlaunch
    obtain ⟨hguard, hs⟩ := Option.ite_none_right_eq_some.mp hs
    have hwatched := hperf.watched hguard.2
    by_cases hbusy : (j.backend.perf.exited id).busy = true
    · rw [if_pos hbusy] at hs
      have hs := (Option.some.inj hs).symm
      subst hs
      rw [hquiet rfl rfl le_rfl]
      refine ⟨inv.moved rfl rfl rfl rfl (.refl _), fun _ => iff_of_true ?_ trivial⟩
      intro hidle hnone
      exact absurd hbusy (by simpa using hwatched.free hidle hnone)
    · have hmoved := inv.moved (s := { j.backend with
        perfWatching := j.backend.perfWatching.erase id
        perf := j.backend.perf.exited id }) rfl rfl rfl rfl (.refl _)
      obtain ⟨hledger, hsettled⟩ := step_pumped hmoved hwatched h (List.append_nil _)
        ((if_pos hguard).trans (congrArg some (if_neg hbusy))) rfl (List.append_nil _).symm rfl
      exact ⟨hledger, fun _ => iff_of_true hsettled trivial⟩
  | evalWatched id =>
    obtain ⟨⟨hid, hdead⟩, hs⟩ := Option.ite_none_right_eq_some.mp hs
    have hs := (Option.some.inj hs).symm
    subst hs
    rw [hquiet rfl rfl le_rfl]
    refine ⟨inv.exited hid hdead, fun _ => iff_of_true ?_ trivial⟩
    rintro ⟨-, -, -, hfinishing, -⟩
    exact absurd hfinishing (List.cons_ne_nil _ _)
  | evalFinished id raises =>
    cases hlaunch
    obtain ⟨hid, -⟩ := Option.ite_none_right_eq_some.mp hs
    have hmoved := inv.moved
      (s := { j.backend with finishing := j.backend.finishing.erase id }) rfl rfl rfl rfl (.refl _)
    obtain ⟨hledger, hsettled⟩ := step_pumped hmoved (hperf.congr rfl rfl rfl rfl) h
      (List.append_nil _) (if_pos hid) rfl (List.append_nil _).symm rfl
    exact ⟨hledger, fun _ => iff_of_true hsettled trivial⟩

end Ledger

/-! ## Whole runs -/

/-- A backend that has just started. -/
theorem Ledger.init : Ledger {} where
  pending := rfl
  fresh := List.Subset.refl _
  nodup := List.nodup_nil
  inOrder := rfl
  procs := .refl _
  alive := .refl _
  watched := fun _ h => absurd h List.not_mem_nil
  started := fun _ h => absurd h (not_or.mpr ⟨List.not_mem_nil, List.not_mem_nil⟩)
  batch := fun _ h => absurd h (not_or.mpr ⟨List.not_mem_nil, List.not_mem_nil⟩)
  accepted := List.Subset.refl _
  head := fun _ h => absurd h List.not_mem_nil
  notCancelled := fun _ h => absurd h List.not_mem_nil
  running := fun _ h => absurd h List.not_mem_nil
  within := fun _ h => absurd h List.not_mem_nil

theorem PerfKept.init : PerfKept {} :=
  ⟨.refl _, List.nodup_nil, List.Subset.refl _, fun _ h => absurd h (Option.not_mem_none _)⟩

/-- **The eval admission law**: in a run in which no launch raises, every launch is of the head of
the queue, once, not after a cancellation, in the order of submission and within the budget; and
whenever no handler is active and no load test runs the head of the queue does not fit, exactly when
no request that ends without a `_pump` leaves a head that fits. -/
theorem admission_law {es : List BenchEvent} {j : Journal} (hlaunch : ∀ e ∈ es, Launches e)
    (h : run Journal.step {} es = some j) :
    (∀ fs, fs <+: es → ∀ j', run Journal.step {} fs = some j' → Admitted j' ∧ Settled j') ↔
      Along Journal.step (fun j e => Minds j.backend e) {} es := by
  have hstep : ∀ {a b : Journal} {e}, Ledger a ∧ PerfKept a.backend → Launches e →
      a.step e = some b → (Ledger b ∧ PerfKept b.backend) ∧
        (Admitted a ∧ Settled a → (Admitted b ∧ Settled b ↔ Minds a.backend e)) := by
    intro a b e inv hG he
    obtain ⟨hledger, hminds⟩ := inv.1.step inv.2 hG he
    obtain ⟨s, hs, heq⟩ := Option.map_eq_some_iff.mp he
    have hperf : PerfKept b.backend := by
      rw [← heq]
      exact inv.2.step hs
    exact ⟨⟨hledger, hperf⟩, fun hset =>
      (and_iff_right hledger.admitted).trans (hminds hset.2)⟩
  refine Reach.forall_run_iff_along ⟨.init, .init⟩ ⟨Ledger.init.admitted, ?_⟩ hstep
    (Reach.along_of_forall fun e he _ => hlaunch e he) h
  intro _ _ id hid
  exact absurd hid (Option.not_mem_none id)

/-- Two runs do not fit side by side; a third one is cancelled behind them, and the second is launched
when the first has ended. -/
def oneAfterAnother : List BenchEvent :=
  [.startEval 20, .evalCreated 20 1 false, .evalStarted 1 false, .startEval 20,
    .evalCreated 20 2 false, .startEval 4, .evalCreated 4 3 false, .cancelEval 3, .exitEval 1,
    .evalWatched 1, .evalFinished 1 false, .evalStarted 2 false]

theorem admission_oneAfterAnother :
    ∃ j, run Journal.step {} oneAfterAnother = some j ∧ j.launchedIds = [1, 2] ∧
      Admitted j ∧ Settled j := by
  obtain ⟨j, hrun, hids⟩ := (Option.any_eq_true _ _).mp
    (show (run Journal.step {} oneAfterAnother).any (·.launchedIds = [1, 2]) = true by
      decide +kernel)
  refine ⟨j, hrun, of_decide_eq_true hids, ?_⟩
  exact (admission_law (by decide) hrun).mpr (by decide +kernel) _ (List.prefix_refl _) j hrun

/-- While a run is under way the head of the queue, which does not fit, is cancelled; the run behind
it does. -/
def headCancelled : List BenchEvent :=
  [.startEval 20, .evalCreated 20 1 false, .evalStarted 1 false, .startEval 20,
    .evalCreated 20 2 false, .startEval 4, .evalCreated 4 3 false, .cancelEval 2]

/-- **The run behind a cancelled head is left waiting though it fits**, until somebody else pumps the
queue. -/
theorem head_left_behind :
    ¬ ∀ es : List BenchEvent, (∀ e ∈ es, Launches e) →
      ∀ j, run Journal.step {} es = some j → Settled j := by
  intro h
  obtain ⟨j, hrun, hj⟩ := (Option.any_eq_true _ _).mp
    (show (run Journal.step {} headCancelled).any (¬ Settled ·) = true by decide +kernel)
  exact of_decide_eq_true hj (h headCancelled (by decide) j hrun)

end Llmops.Bench
