import Llmops.Bench.Held

/-!
# The status of a run is honest

A queued run is to be in the queue of one replica, a running one to have its process, or the end of
it, in the hands of one replica, and the other way round. The two tables are in the custody of the
replicas (`Llmops.Lib.Custody`), so that this can be read off where no handler is between its awaits.

* `runsHonest_of_reach`: as long as no launch raises, every write of a status succeeds, and a replica
  boots while nobody else has a run in hand, the status of every run is honest;
* `dishonest_runs`: another replica's boot fails a run that goes on, and a launch that raises leaves
  its run queued for ever.
-/

namespace Llmops.Bench

open Llmops.Lib

/-! ## The fleet -/

/-- A call that belongs to no request: the `_watch` of a process that is alive, or that has exited
and is being finished. -/
def Call.background : Call → Bool
  | .watchEval _ | .finishEval _ _ _ | .watchPerf _ | .finishPerf _ _ _ => true
  | _ => false

/-- The process of an eval is alive, or is being finished. -/
def Replica.RunsEval (s : Replica) (id : Nat) : Prop :=
  .watchEval id ∈ s.calls ∨ ∃ cancelled ok, .finishEval id cancelled ok ∈ s.calls

/-- The process of a load test is alive, or is being finished. -/
def Replica.RunsPerf (s : Replica) (id : Nat) : Prop :=
  .watchPerf id ∈ s.calls ∨ ∃ cancelled ok, .finishPerf id cancelled ok ∈ s.calls

section Fleet

variable {ι : Type*} {f f' : Fleet ι} {r : ι} {s s' : Replica} {id : Nat}

/-- No handler is between its awaits. -/
def Fleet.Quiet (f : Fleet ι) : Prop := ∀ r, ∀ c ∈ (f.replica r).calls, c.background = true

/-- **The status of every run is honest.** -/
structure RunsHonest (f : Fleet ι) : Prop where
  queued : ∀ id, f.evalRows id = some .queued → ∃! r, id ∈ (f.replica r).eval.queued
  once : ∀ r, (f.replica r).eval.queued.Nodup
  waits : ∀ r, ∀ id ∈ (f.replica r).eval.queued, f.evalRows id = some .queued
  evalRuns : ∀ id, f.evalRows id = some .running → ∃! r, (f.replica r).RunsEval id
  perfRuns : ∀ id, f.perfRows id = some .running → ∃! r, (f.replica r).RunsPerf id
  evalAlive : ∀ r, ∀ id ∈ (f.replica r).evalAlive, f.evalRows id = some .running
  perfAlive : ∀ r, ∀ id ∈ (f.replica r).perfAlive, f.perfRows id = some .running

/-- No launch raises, every write of a status succeeds, and a replica boots while no other one has a
run in hand, and no process of its own is alive. -/
def Undisturbed (f : Fleet ι) : FleetEvent ι → Prop
  | .act _ a => a.Smooth
  | .boot r => (∀ r', r' ≠ r → (f.replica r').evalHeld = 0 ∧ (f.replica r').perfHeld = 0) ∧
      (f.replica r).evalAlive = [] ∧ (f.replica r).perfAlive = []

/-- Both tables are in the custody of the replicas. -/
structure Fleet.InHand (f : Fleet ι) : Prop where
  evals : Custody RunStatus.Active (fun r => (f.replica r).evalHeld) f.evalRows
  perfs : Custody (· = RunStatus.running) (fun r => (f.replica r).perfHeld) f.perfRows
  sound : ∀ r, (f.replica r).Sound

/-- Where no handler is between its awaits, a queued row is held by a queue. -/
theorem mem_evalHeld_queued (hquiet : ∀ c ∈ s.calls, c.background = true) :
    (id, .queued) ∈ s.evalHeld ↔ id ∈ s.eval.queued := by
  unfold Replica.evalHeld
  rw [Multiset.mem_coe, List.mem_append, List.mem_filterMap, List.mem_map]
  constructor
  · rintro (⟨c, hc, hholds⟩ | ⟨id', hid, heq⟩)
    · have hback := hquiet c hc
      cases c <;> simp [Call.evalHolds, Call.background] at hholds hback
    · cases heq
      exact hid
  · intro hid
    exact .inr ⟨id, hid, rfl⟩

theorem mem_evalHeld_running : (id, .running) ∈ s.evalHeld ↔ s.RunsEval id := by
  unfold Replica.evalHeld Replica.RunsEval
  rw [Multiset.mem_coe, List.mem_append, List.mem_filterMap, List.mem_map]
  constructor
  · rintro (⟨c, hc, hholds⟩ | ⟨id', -, heq⟩)
    · cases c <;> simp [Call.evalHolds] at hholds
      · subst hholds
        exact .inl hc
      · subst hholds
        exact .inr ⟨_, _, hc⟩
    · cases heq
  · rintro (hc | ⟨cancelled, ok, hc⟩)
    · exact .inl ⟨_, hc, rfl⟩
    · exact .inl ⟨_, hc, rfl⟩

theorem mem_perfHeld (hquiet : ∀ c ∈ s.calls, c.background = true) :
    (id, .running) ∈ s.perfHeld ↔ s.RunsPerf id := by
  unfold Replica.perfHeld Replica.RunsPerf
  rw [Multiset.mem_coe, List.mem_filterMap]
  constructor
  · rintro ⟨c, hc, hholds⟩
    have hback := hquiet c hc
    cases c <;> simp [Call.perfHolds, Call.background] at hholds hback
    · subst hholds
      exact .inl hc
    · subst hholds
      exact .inr ⟨_, _, hc⟩
  · rintro (hc | ⟨cancelled, ok, hc⟩)
    · exact ⟨_, hc, rfl⟩
    · exact ⟨_, hc, rfl⟩

/-- What the custody says at such a point. -/
theorem Fleet.InHand.honest (h : f.InHand) (hquiet : f.Quiet) : RunsHonest f where
  queued id hid := by
    obtain ⟨r, hr, hunique⟩ := h.evals.unique hid (.inl rfl)
    refine ⟨r, (mem_evalHeld_queued (hquiet r)).mp hr, fun r' hr' => hunique r' ?_⟩
    exact (mem_evalHeld_queued (hquiet r')).mpr hr'
  once r := nodup_queued (h.evals.once r)
  waits r id hid := h.evals.agrees r _ ((mem_evalHeld_queued (hquiet r)).mpr hid)
  evalRuns id hid := by
    obtain ⟨r, hr, hunique⟩ := h.evals.unique hid (.inr rfl)
    exact ⟨r, mem_evalHeld_running.mp hr, fun r' hr' => hunique r' (mem_evalHeld_running.mpr hr')⟩
  perfRuns id hid := by
    obtain ⟨r, hr, hunique⟩ := h.perfs.unique hid rfl
    refine ⟨r, (mem_perfHeld (hquiet r)).mp hr, fun r' hr' => hunique r' ?_⟩
    exact (mem_perfHeld (hquiet r')).mpr hr'
  evalAlive r id hid := by
    obtain ⟨c, hc, hproc⟩ := (h.sound r).evalAlive id hid
    have hback := hquiet r c hc
    cases c <;> simp [Call.evalProc, Call.background] at hproc hback
    subst hproc
    exact h.evals.agrees r _ (mem_evalHeld_running.mpr (.inl hc))
  perfAlive r id hid :=
    h.perfs.agrees r _ ((mem_perfHeld (hquiet r)).mpr (.inl ((h.sound r).perfAlive id hid)))

variable [DecidableEq ι]

theorem evalHeld_put (f : Fleet ι) (r : ι) (s : Replica) :
    (fun r' => ((f.put r s).replica r').evalHeld) =
      Function.update (fun r' => (f.replica r').evalHeld) r s.evalHeld := by
  funext r'
  by_cases hr : r' = r
  · rw [hr, f.put_self, Function.update_self]
  · rw [f.put_of_ne s hr, Function.update_of_ne hr]

theorem perfHeld_put (f : Fleet ι) (r : ι) (s : Replica) :
    (fun r' => ((f.put r s).replica r').perfHeld) =
      Function.update (fun r' => (f.replica r').perfHeld) r s.perfHeld := by
  funext r'
  by_cases hr : r' = r
  · rw [hr, f.put_self, Function.update_self]
  · rw [f.put_of_ne s hr, Function.update_of_ne hr]

theorem Fleet.InHand.put (h : f.InHand) (hsame : f'.replica = f.replica)
    (he : Custody.Change RunStatus.Active (f.replica r).evalHeld f.evalRows s'.evalHeld f'.evalRows)
    (hp : Custody.Change (· = RunStatus.running) (f.replica r).perfHeld f.perfRows s'.perfHeld
      f'.perfRows) (hs : s'.Sound) : (f'.put r s').InHand where
  evals := by
    rw [evalHeld_put, hsame]
    exact h.evals.change he
  perfs := by
    rw [perfHeld_put, hsame]
    exact h.perfs.change hp
  sound r' := by
    by_cases hr : r' = r
    · rw [hr, Fleet.put_self]
      exact hs
    · rw [Fleet.put_of_ne _ _ hr, hsame]
      exact h.sound r'

/-- A stretch of code, and the statement of the store that it ends with. -/
theorem Fleet.InHand.act (h : f.InHand) {w : Write} (ha : Acted (f.replica r) s' w)
    (hs : s'.Sound) (hw : f.write w = some f') : (f'.put r s').InHand := by
  have hrow {held : RunStatus} {rest : Multiset (Nat × RunStatus)} {id : Nat}
      (hin : (f.replica r).evalHeld = (id, held) ::ₘ rest) : f.evalRows id = some held :=
    h.evals.agrees r (id, held) (hin ▸ Multiset.mem_cons_self _ _)
  cases ha with
  | nothing he hp =>
    cases hw
    exact h.put rfl (by rw [he]; exact .keep _ _) (by rw [hp]; exact .keep _ _) hs
  | createEval id he hp =>
    simp only [Fleet.write] at hw
    split_ifs at hw with hnew
    cases hw
    exact h.put rfl (by rw [he]; exact .enter _ _ id _ hnew (.inl rfl))
      (by rw [hp]; exact .keep _ _) hs
  | createPerf id he hp =>
    simp only [Fleet.write] at hw
    split_ifs at hw with hnew
    cases hw
    exact h.put rfl (by rw [he]; exact .keep _ _) (by rw [hp]; exact .enter _ _ id _ hnew rfl) hs
  | startEval id rest hbefore hafter hp =>
    simp only [Fleet.write, if_pos (hrow hbefore), Option.some.injEq] at hw
    subst hw
    refine h.put rfl ?_ (by rw [hp]; exact .keep _ _) hs
    rw [hbefore, hafter]
    exact .turn rest _ id _ _ (.inr rfl)
  | finishEval id held status hend he hp =>
    simp only [Fleet.write, hrow he, Option.map_some, Option.some.injEq] at hw
    subst hw
    refine h.put rfl ?_ (by rw [hp]; exact .keep _ _) hs
    rw [he]
    exact .leave _ _ id _ _ hend
  | finishPerf id status hend he hp =>
    have hrunning : f.perfRows id = some .running :=
      h.perfs.agrees r (id, .running) (hp ▸ Multiset.mem_cons_self _ _)
    simp only [Fleet.write, hrunning, Option.map_some, Option.some.injEq] at hw
    subst hw
    refine h.put rfl (by rw [he]; exact .keep _ _) ?_ hs
    rw [hp]
    exact .leave _ _ id _ _ fun hrun => hend (.inr hrun)

/-- A boot while nobody else has a run in hand. -/
theorem Fleet.InHand.boot (h : f.InHand) (hG : Undisturbed f (.boot r)) : (f.boot r).InHand := by
  obtain ⟨hothers, heval, hperf⟩ := hG
  have hnone (r' : ι) : ((f.boot r).replica r').evalHeld = 0 ∧
      ((f.boot r).replica r').perfHeld = 0 := by
    unfold Fleet.boot
    by_cases hr : r' = r
    · rw [hr, Fleet.put_self]
      exact ⟨rfl, rfl⟩
    · rw [Fleet.put_of_ne _ _ hr]
      exact hothers r' hr
  refine ⟨?_, ?_, fun r' => ?_⟩
  · rw [show (fun r' => ((f.boot r).replica r').evalHeld) = fun _ => 0 from
      funext fun r' => (hnone r').1]
    refine .empty fun id status hrow hactive => ?_
    obtain ⟨old, -, hold⟩ := Option.map_eq_some_iff.mp hrow
    split_ifs at hold with hlive
    · subst hold
      obtain ⟨⟨⟩⟩ | ⟨⟨⟩⟩ := hactive
    · subst hold
      exact hlive hactive.symm
  · rw [show (fun r' => ((f.boot r).replica r').perfHeld) = fun _ => 0 from
      funext fun r' => (hnone r').2]
    refine .empty fun id status hrow hrunning => ?_
    obtain ⟨old, -, hold⟩ := Option.map_eq_some_iff.mp hrow
    split_ifs at hold with hlive
    · subst hold
      cases hrunning
    · subst hold
      exact hlive hrunning
  · unfold Fleet.boot
    by_cases hr : r' = r
    · rw [hr, Fleet.put_self]
      refine ⟨fun id hid => absurd hid List.not_mem_nil, fun id hid => ?_, fun id hid => ?_⟩
      · rw [heval] at hid
        exact absurd hid List.not_mem_nil
      · rw [hperf] at hid
        exact absurd hid List.not_mem_nil
    · rw [Fleet.put_of_ne _ _ hr]
      exact h.sound r'

/-- **One event.** -/
theorem Fleet.InHand.step {e : FleetEvent ι} (h : f.InHand) (hG : Undisturbed f e)
    (hstep : fleetStep f e = some f') : f'.InHand := by
  cases e with
  | boot r =>
    cases hstep
    exact h.boot hG
  | act r a =>
    obtain ⟨⟨s', w⟩, hact, hstep⟩ := Option.bind_eq_some_iff.mp hstep
    obtain ⟨f₁, hw, rfl⟩ := Option.map_eq_some_iff.mp hstep
    exact h.act (act_acted (h.sound r).pending hG hact)
      (act_sound (h.sound r) (h.evals.once r) hG hact) hw

end Fleet

/-- The replicas have just started, and no run is queued or running. -/
structure Fleet.Rested {ι : Type*} (f : Fleet ι) : Prop where
  replicas : ∀ r, f.replica r = {}
  evals : ∀ id status, f.evalRows id = some status → ¬ status.Active
  perfs : ∀ id status, f.perfRows id = some status → status ≠ .running

theorem Fleet.Rested.inHand {ι : Type*} {f : Fleet ι} (h : f.Rested) : f.InHand where
  evals := by
    rw [show (fun r => (f.replica r).evalHeld) = fun _ => 0 from
      funext fun r => by rw [h.replicas r]; rfl]
    exact .empty h.evals
  perfs := by
    rw [show (fun r => (f.replica r).perfHeld) = fun _ => 0 from
      funext fun r => by rw [h.replicas r]; rfl]
    exact .empty h.perfs
  sound r := by
    rw [h.replicas r]
    exact ⟨fun id hid => absurd hid List.not_mem_nil, fun id hid => absurd hid List.not_mem_nil,
      fun id hid => absurd hid List.not_mem_nil⟩

/-- **The status of every run is honest** where no handler is between its awaits, in every run in
which no launch raises, every write of a status succeeds, and a replica boots while no other one has
a run in hand and no process of its own is alive. -/
theorem runsHonest_of_reach {ι : Type*} [DecidableEq ι] {f₀ f : Fleet ι} (h₀ : f₀.Rested)
    (h : Reach fleetStep Undisturbed f₀ f) (hquiet : f.Quiet) : RunsHonest f :=
  (h.invariant (I := Fleet.InHand) h₀.inHand fun hf hG he => hf.step hG he).honest hquiet

/-! ## Two replicas -/

instance decidableSmooth : ∀ a : Action, Decidable a.Smooth
  | .resume c ok raises => inferInstanceAs (Decidable (raises = false ∧ (c.saves = true → ok = true)))
  | .setConfig _ raises => inferInstanceAs (Decidable (raises = false))
  | .startEval _ | .postPerf | .insert _ _ | .cancelEval _ | .cancelPerf _ | .exitEval _
  | .exitPerf _ => isTrue trivial

instance decidableUndisturbed (f : Fleet Bool) : ∀ e, Decidable (Undisturbed f e)
  | .act _ a => inferInstanceAs (Decidable a.Smooth)
  | .boot r => inferInstanceAs (Decidable ((∀ r', r' ≠ r →
      (f.replica r').evalHeld = 0 ∧ (f.replica r').perfHeld = 0) ∧
        (f.replica r).evalAlive = [] ∧ (f.replica r).perfAlive = []))

instance (f : Fleet Bool) : Decidable f.Quiet :=
  inferInstanceAs (Decidable (∀ r, ∀ c ∈ (f.replica r).calls, c.background = true))

/-- An eval of a replica, up to the return of its insert. -/
def evalInserted (r : Bool) (batch id : Nat) : List (FleetEvent Bool) :=
  [.act r (.startEval batch), .act r (.insert (.createEval batch) id)]

/-- The eval is queued, and launched if there is room. -/
def evalStarts (r : Bool) (batch id : Nat) : List (FleetEvent Bool) :=
  evalInserted r batch id ++
    [.act r (.resume (.evalCreated batch id) true false),
      .act r (.resume (.launch id .done) true false)]

/-- A replica boots; an eval runs at it and another waits, and a load test runs at the other. -/
def twoReplicas : List (FleetEvent Bool) :=
  [.boot true] ++ evalStarts true 8 0 ++ evalInserted true 40 1 ++
    [.act true (.resume (.evalCreated 40 1) true false), .act false .postPerf,
      .act false (.insert .createPerf 0), .act false (.resume (.perfCreated 0) true false)]

theorem runsHonest_twoReplicas : ∃ f, run fleetStep ({} : Fleet Bool) twoReplicas = some f ∧
    f.evalRows 0 = some .running ∧ f.evalRows 1 = some .queued ∧ f.perfRows 0 = some .running ∧
    RunsHonest f := by
  obtain ⟨f, hrun, hr, hquiet, heval, hqueued, hperf⟩ := Reach.exists_of_any
    (G := Undisturbed) (P := fun f : Fleet Bool => f.Quiet ∧ f.evalRows 0 = some .running ∧
      f.evalRows 1 = some .queued ∧ f.perfRows 0 = some .running)
    (show Along fleetStep Undisturbed ({} : Fleet Bool) twoReplicas by decide +kernel)
    (by decide +kernel)
  have hrested : ({} : Fleet Bool).Rested :=
    ⟨fun _ => rfl, (by rintro _ _ ⟨⟩), (by rintro _ _ ⟨⟩)⟩
  exact ⟨f, hrun, heval, hqueued, hperf, runsHonest_of_reach hrested hr hquiet⟩

/-- The other replica boots while an eval runs. -/
def bootMeanwhile : List (FleetEvent Bool) := evalStarts true 8 0 ++ [.boot false]

/-- The launch of an eval raises. -/
def launchRaises : List (FleetEvent Bool) :=
  evalInserted true 8 0 ++ [.act true (.resume (.evalCreated 8 0) true true)]

/-- **The boot of another replica fails a run that goes on, and a launch that raises leaves its run
queued for ever.** -/
theorem dishonest_runs :
    (∃ f : Fleet Bool, Reach fleetStep anyEvent {} f ∧ f.Quiet ∧ f.evalRows 0 = some .failed ∧
      (f.replica true).evalAlive = [0] ∧ ¬ RunsHonest f) ∧
    ∃ f : Fleet Bool, Reach fleetStep anyEvent {} f ∧ f.Quiet ∧ f.evalRows 0 = some .queued ∧
      ¬ RunsHonest f := by
  have hany (es : List (FleetEvent Bool)) : Along fleetStep anyEvent {} es :=
    Reach.along_of_forall fun _ _ _ => trivial
  constructor
  · obtain ⟨f, -, hr, hquiet, hfailed, halive⟩ := Reach.exists_of_any
      (P := fun f : Fleet Bool => f.Quiet ∧ f.evalRows 0 = some .failed ∧
        (f.replica true).evalAlive = [0]) (hany bootMeanwhile) (by decide +kernel)
    refine ⟨f, hr, hquiet, hfailed, halive, fun hhonest => ?_⟩
    have hrunning := hhonest.evalAlive true 0 (halive ▸ List.mem_cons_self)
    rw [hfailed] at hrunning
    cases hrunning
  · obtain ⟨f, -, hr, hquiet, hqueued, hempty⟩ := Reach.exists_of_any
      (P := fun f : Fleet Bool => f.Quiet ∧ f.evalRows 0 = some .queued ∧
        ∀ r, (f.replica r).eval.queued = []) (hany launchRaises) (by decide +kernel)
    refine ⟨f, hr, hquiet, hqueued, fun hhonest => ?_⟩
    obtain ⟨r, hr, -⟩ := hhonest.queued 0 hqueued
    rw [hempty r] at hr
    exact List.not_mem_nil hr

end Llmops.Bench
