import Llmops.Bench.Manager
import Llmops.Lib.Run
import Mathlib

/-!
# One load test at a time, and no eval beside it

`PerfManager.start` checks that no load test is current, and the API that no eval runs or waits,
before the insert of the run is awaited. `_current` is set only after it. In between another request
passes the same checks, and an eval is launched, since no load test is current yet.

* `exclusive_of_free`: as long as what was checked before an insert still holds when it returns, one
  load-test process at most is alive, and none together with an eval process;
* `two_load_tests`: two requests, or a request and an eval, in the window of the insert.
-/

namespace Llmops.Bench

open Llmops.Lib

/-- One load-test process at most is alive, and none together with an eval process. -/
def Exclusive (s : Backend) : Prop :=
  s.perfAlive.length ≤ 1 ∧ (s.perfAlive = [] ∨ s.evalAlive = [])

instance (s : Backend) : Decidable (Exclusive s) := inferInstanceAs (Decidable (_ ∧ _))

/-- When an insert returns and the load test goes on to its launch, no load test is current and no
eval has a process: what was checked before the insert still holds. -/
def StillFree (s : Backend) : BenchEvent → Prop
  | .perfCreated _ false => s.perf.busy = false ∧ s.eval.procs = []
  | _ => True

instance (s : Backend) : ∀ e, Decidable (StillFree s e)
  | .perfCreated _ false => inferInstanceAs (Decidable (_ ∧ _))
  | .perfCreated _ true | .postPerf | .perfNotCreated | .startEval _ | .evalCreated _ _ _
  | .evalNotCreated _ | .evalStarted _ _ | .evalNotStarted _ | .cancelEval _ | .setConfig _ _
  | .exitPerf _ | .exitEval _ | .perfWatched _ _ | .evalWatched _ | .evalFinished _ _ =>
    isTrue trivial

/-! ## The invariant -/

/-- The processes alive are those the managers know, the load tests have the current run only, and
while one is current no eval has a process. -/
structure Apart (s : Backend) : Prop where
  perf : s.perfAlive.Sublist s.perf.procs
  current : s.perf.procs.Sublist s.perf.current.toList
  eval : s.evalAlive ⊆ s.eval.procs
  free : s.perf.busy = true → s.eval.procs = []

variable {s s' : Backend} {id : Nat} {raises : Bool} {e : BenchEvent}

theorem Apart.exclusive (inv : Apart s) : Exclusive s := by
  have hlen := (inv.perf.trans inv.current).length_le
  constructor
  · refine hlen.trans ?_
    cases s.perf.current <;> simp
  · cases hc : s.perf.current with
    | none =>
      left
      rw [hc] at hlen
      exact List.length_eq_zero_iff.mp (Nat.le_zero.mp hlen)
    | some c =>
      right
      have hfree := inv.free (by rw [PerfManager.busy, hc]; rfl)
      exact List.eq_nil_of_subset_nil (hfree ▸ inv.eval)

/-- What only moves calls between awaits keeps the invariant. -/
theorem Apart.congr (inv : Apart s) (hperf : s'.perf = s.perf) (hpa : s'.perfAlive = s.perfAlive)
    (heval : s'.eval.procs = s.eval.procs) (hea : s'.evalAlive = s.evalAlive) : Apart s' where
  perf := by
    rw [hpa, hperf]
    exact inv.perf
  current := by
    rw [hperf]
    exact inv.current
  eval := by
    rw [hea, heval]
    exact inv.eval
  free := by
    rw [hperf, heval]
    exact inv.free

/-- A stretch of the pump launches evals only while no load test is current. -/
theorem Apart.pumped (inv : Apart s) (raises : Bool) : Apart (s.pumped raises) where
  perf := inv.perf
  current := inv.current
  eval := by
    have hprocs := EvalManager.pump_procs s.perf.busy raises s.eval
    intro id hid
    rw [show (s.pumped raises).eval.procs = _ from hprocs]
    rcases List.mem_append.mp hid with hid | hid
    · exact List.mem_append_left _ (inv.eval hid)
    · exact List.mem_append_right _ hid
  free := by
    intro hbusy
    have hpump := EvalManager.pump_of_busy raises s.eval
    rw [← show s.perf.busy = true from hbusy] at hpump
    rw [show (s.pumped raises).eval = _ from congrArg Prod.fst hpump]
    exact inv.free hbusy

/-- A load test is launched while the GPU is free. -/
theorem Apart.perfStarted (inv : Apart s) (hfree : StillFree s (.perfCreated id raises)) :
    Apart (s.perfStarted id raises) := by
  cases raises with
  | true => exact inv.congr rfl rfl rfl rfl
  | false =>
    obtain ⟨hbusy, hprocs⟩ := hfree
    have hcurrent : s.perf.current = none := by simpa [PerfManager.busy] using hbusy
    have hperf : s.perf.procs = [] := by
      have := inv.current
      rw [hcurrent] at this
      exact List.sublist_nil.mp this
    have halive : s.perfAlive = [] := by
      have := inv.perf
      rw [hperf] at this
      exact List.sublist_nil.mp this
    refine ⟨?_, ?_, inv.eval, fun _ => hprocs⟩
    · show (id :: s.perfAlive).Sublist (s.perf.procs ++ [id])
      rw [halive, hperf]
      exact List.Sublist.refl _
    · show (s.perf.procs ++ [id]).Sublist [id]
      rw [hperf]
      exact List.Sublist.refl _

/-- The end of a load test frees the GPU, if it was the current one. -/
theorem Apart.perfExited (inv : Apart s) (hdead : id ∉ s.perfAlive) :
    Apart { s with perfWatching := s.perfWatching.erase id, perf := s.perf.exited id } where
  perf := by
    show s.perfAlive.Sublist (s.perf.procs.erase id)
    rw [← List.erase_of_not_mem hdead]
    exact inv.perf.erase id
  current := by
    show (s.perf.procs.erase id).Sublist
      (if s.perf.current = some id then none else s.perf.current).toList
    by_cases hc : s.perf.current = some id
    · rw [if_pos hc]
      have := inv.current.erase id
      rw [hc] at this
      simpa using this
    · rw [if_neg hc]
      exact (List.erase_sublist).trans inv.current
  eval := inv.eval
  free := by
    intro hbusy
    refine inv.free ?_
    change (if s.perf.current = some id then none else s.perf.current).isSome = true at hbusy
    by_cases hc : s.perf.current = some id
    · rw [PerfManager.busy, hc]
      rfl
    · rw [if_neg hc] at hbusy
      exact hbusy

/-- The end of an eval. -/
theorem Apart.evalExited (inv : Apart s) (hdead : id ∉ s.evalAlive) {watching finishing : List Nat} :
    Apart { s with
      evalWatching := watching, eval := s.eval.exited id, finishing := finishing } where
  perf := inv.perf
  current := inv.current
  eval := by
    intro id' hid
    refine (List.mem_erase_of_ne ?_).mpr (inv.eval hid)
    rintro rfl
    exact hdead hid
  free := by
    intro hbusy
    show s.eval.procs.erase id = []
    rw [inv.free hbusy]
    rfl

/-- **Every event keeps the invariant.** -/
theorem Apart.step (inv : Apart s) (hfree : StillFree s e) (h : step s e = some s') : Apart s' := by
  cases e with
  | postPerf =>
    rcases Bool.eq_false_or_eq_true (s.eval.busy || s.perf.busy) with hbusy | hbusy
    · simp only [Bench.step, hbusy, if_true, Option.some.injEq] at h
      exact h ▸ inv
    · simp only [Bench.step, hbusy, Bool.false_eq_true, if_false, Option.some.injEq] at h
      exact h ▸ inv.congr rfl rfl rfl rfl
  | perfCreated id raises =>
    simp only [Bench.step, Option.ite_none_right_eq_some, Option.some.injEq] at h
    obtain ⟨-, rfl⟩ := h
    exact inv.perfStarted hfree
  | perfNotCreated =>
    simp only [Bench.step, Option.ite_none_right_eq_some, Option.some.injEq] at h
    obtain ⟨-, rfl⟩ := h
    exact inv.congr rfl rfl rfl rfl
  | startEval batch =>
    cases h
    exact inv.congr rfl rfl rfl rfl
  | evalCreated batch id raises =>
    simp only [Bench.step, Option.ite_none_right_eq_some, Option.some.injEq] at h
    obtain ⟨-, rfl⟩ := h
    refine .pumped ?_ raises
    exact inv.congr rfl rfl rfl rfl
  | evalNotCreated batch =>
    simp only [Bench.step, Option.ite_none_right_eq_some, Option.some.injEq] at h
    obtain ⟨-, rfl⟩ := h
    exact inv.congr rfl rfl rfl rfl
  | evalStarted id raises =>
    simp only [Bench.step, Option.ite_none_right_eq_some, Option.some.injEq] at h
    obtain ⟨-, rfl⟩ := h
    refine .pumped ?_ raises
    exact inv.congr rfl rfl rfl rfl
  | evalNotStarted id =>
    simp only [Bench.step, Option.ite_none_right_eq_some, Option.some.injEq] at h
    obtain ⟨-, rfl⟩ := h
    exact inv.congr rfl rfl rfl rfl
  | cancelEval id =>
    cases h
    refine inv.congr rfl rfl ?_ rfl
    show (s.eval.cancel id).procs = s.eval.procs
    unfold EvalManager.cancel
    split_ifs <;> rfl
  | setConfig budget raises =>
    cases h
    refine .pumped ?_ raises
    exact inv.congr rfl rfl rfl rfl
  | exitPerf id =>
    simp only [Bench.step, Option.ite_none_right_eq_some, Option.some.injEq] at h
    obtain ⟨-, rfl⟩ := h
    exact ⟨(List.erase_sublist).trans inv.perf, inv.current, inv.eval, inv.free⟩
  | exitEval id =>
    simp only [Bench.step, Option.ite_none_right_eq_some, Option.some.injEq] at h
    obtain ⟨-, rfl⟩ := h
    exact ⟨inv.perf, inv.current, List.Subset.trans List.erase_subset inv.eval, inv.free⟩
  | perfWatched id raises =>
    simp only [Bench.step, Option.ite_none_right_eq_some, Option.some.injEq] at h
    obtain ⟨⟨-, hdead⟩, rfl⟩ := h
    have hexited := inv.perfExited hdead
    split_ifs
    · exact hexited
    · exact hexited.pumped raises
  | evalWatched id =>
    simp only [Bench.step, Option.ite_none_right_eq_some, Option.some.injEq] at h
    obtain ⟨⟨-, hdead⟩, rfl⟩ := h
    exact inv.evalExited hdead
  | evalFinished id raises =>
    simp only [Bench.step, Option.ite_none_right_eq_some, Option.some.injEq] at h
    obtain ⟨-, rfl⟩ := h
    refine .pumped ?_ raises
    exact inv.congr rfl rfl rfl rfl

/-! ## Mutual exclusion -/

/-- A backend that has just started. -/
theorem Apart.init : Apart {} := ⟨.refl _, .refl _, List.Subset.refl _, (by rintro ⟨⟩)⟩

/-- **As long as what was checked before an insert still holds when it returns, one load-test process
at most is alive, and none together with an eval process.** -/
theorem exclusive_of_free (h : Reach step StillFree {} s) : Exclusive s :=
  (h.invariant (I := Apart) .init fun inv hG he => inv.step hG he).exclusive

/-- A load test; an eval that is queued meanwhile starts when the load test has ended. -/
def oneByOne : List BenchEvent :=
  [.postPerf, .perfCreated 1 false, .postPerf, .startEval 8, .evalCreated 8 1 false, .exitPerf 1,
    .perfWatched 1 false]

theorem along_oneByOne : Along step StillFree {} oneByOne := by
  decide +kernel

theorem exclusive_oneByOne :
    ∃ s, run step {} oneByOne = some s ∧ s.evalAlive = [1] ∧ Exclusive s := by
  obtain ⟨s, hrun, hr, hs⟩ := Reach.exists_of_any (P := fun s => s.evalAlive = [1])
    along_oneByOne (by decide +kernel)
  exact ⟨s, hrun, hs, exclusive_of_free hr⟩

/-- Two requests pass the checks before either insert has returned. -/
def twoRequests : List BenchEvent :=
  [.postPerf, .postPerf, .perfCreated 1 false, .perfCreated 2 false]

/-- An eval is queued and launched while the insert of a load test is awaited. -/
def evalMeanwhile : List BenchEvent :=
  [.postPerf, .startEval 8, .evalCreated 8 1 false, .perfCreated 1 false]

/-- **Neither half of the mutual exclusion holds of every run**: two load tests run at once, and a
load test runs beside an eval. -/
theorem two_load_tests :
    (¬ ∀ s : Backend, Reach step anyEvent {} s → s.perfAlive.length ≤ 1) ∧
    ¬ ∀ s : Backend, Reach step anyEvent {} s → s.perfAlive = [] ∨ s.evalAlive = [] := by
  have hany (es : List BenchEvent) : Along step anyEvent {} es :=
    Reach.along_of_forall fun _ _ _ => trivial
  constructor
  · intro h
    obtain ⟨s, -, hr, hs⟩ := Reach.exists_of_any (P := fun s => s.perfAlive = [2, 1])
      (hany twoRequests) (by decide +kernel)
    exact absurd (h s hr) (by rw [hs]; decide)
  · intro h
    obtain ⟨s, -, hr, hs⟩ := Reach.exists_of_any
      (P := fun s => s.perfAlive = [1] ∧ s.evalAlive = [1]) (hany evalMeanwhile)
      (by decide +kernel)
    exact absurd (h s hr) (by rw [hs.1, hs.2]; decide)

end Llmops.Bench
