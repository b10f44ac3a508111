import Llmops.Router.Serve

/-!
# The in-flight counters of one worker

All requests of one router worker over its one `backend_inflight`, in any interleaving.

* `exact_of_orderly`: along every run of orderly events the counter of each backend is the number
  of requests that hold it, each increment has its decrement, and the dictionary is empty when no
  request is active;
* `leaked_by_disconnect`: a client that disconnects before the first chunk is pulled leaves its
  unit behind: the generator that was to give it back has no `finally` to run.
-/

namespace Llmops.Router

open Llmops.Lib

/-! ## The worker -/

/-- What a worker has in memory for its requests: `app.state.backend_inflight`, and the requests,
in order of arrival. -/
structure ProxyState where
  inflight : Inflight := fun _ => none
  requests : List Request := []

/-- A request arrives, or one of them goes on. -/
inductive ProxyEvent where
  | arrive
  | act (i : Nat) (e : Event)
  deriving DecidableEq, Repr

/-- One step of one request of the worker. -/
def ProxyState.step (w : ProxyState) : ProxyEvent → Option ProxyState
  | .arrive => some { w with requests := w.requests ++ [{}] }
  | .act i e =>
    w.requests[i]?.bind fun q =>
      (q.stage.step e).map fun out =>
        { inflight := out.2.foldl applyChange w.inflight
          requests := w.requests.set i ⟨out.1, q.changes ++ out.2⟩ }

/-- The backend that a request holds: from the start of an attempt until its stream context is
given up, or handed over and given up by the generator. -/
def Stage.holding : Stage → Option Backend
  | .opening f | .closing f | .serving f | .reading f | .recording f | .exiting f _ | .handed f
  | .pulling f | .yielded f => if f.streamCtx.isSome then some f.backend else none
  | .parsing | .selecting _ | .genClosing _ | .genRecording _ | .done _ => none

/-- The request is over. -/
def Stage.isDone : Stage → Bool
  | .done _ => true
  | _ => false

/-- **Exact accounting** of the backends of `U`. -/
structure ProxyState.Exact (U : Set Backend) (w : ProxyState) : Prop where
  count : ∀ b ∈ U,
    getInflight w.inflight b = w.requests.countP fun q => q.stage.holding = some b
  matched : ∀ q ∈ w.requests, holds none q.changes = some q.stage.holding
  empty : (∀ q ∈ w.requests, q.stage.isDone = true) → ∀ k, w.inflight k = none

/-- The backend that a selection is for. -/
def Stage.selects : Stage → Event → Option Backend
  | .selecting f, .select instanceId => some ⟨f.modelKey, instanceId⟩
  | _, _ => none

/-- The event loses no unit and gives none back that was not taken, and an attempt goes to a
backend of `U`. -/
def ProxyState.Orderly (U : Set Backend) (w : ProxyState) : ProxyEvent → Prop
  | .arrive => True
  | .act i e => ∀ q ∈ w.requests[i]?, q.stage.Orderly e ∧ ∀ b ∈ q.stage.selects e, b ∈ U

instance (U : Set Backend) [DecidablePred (· ∈ U)] (w : ProxyState) :
    ∀ ev, Decidable (w.Orderly U ev)
  | .arrive => inferInstanceAs (Decidable True)
  | .act i e => inferInstanceAs
      (Decidable (∀ q ∈ w.requests[i]?, q.stage.Orderly e ∧ ∀ b ∈ q.stage.selects e, b ∈ U))

/-! ## The invariant -/

variable {U : Set Backend} {w w' : ProxyState} {s : Stage} {cs : List (Change Backend)}
  {out : Outcome} {e : Event}

/-- What a request holds by its changes is what its stage says. -/
theorem Stage.Fine.held (h : s.Fine cs) : holds none cs = some s.holding := by
  have hlive : ∀ {f : Frame}, f.Live cs →
      holds none cs = some (if f.streamCtx.isSome then some f.backend else none) := by
    intro f hf
    obtain ⟨r, -, -, hctx, -⟩ := hf.response
    rw [hf.held, hctx]
    rfl
  have hidle : ∀ {f : Frame}, f.Idle cs →
      holds none cs = some (if f.streamCtx.isSome then some f.backend else none) := by
    intro f hf
    rw [hf.held, hf.ctx]
    rfl
  have hstreams : ∀ {f : Frame}, f.Streams cs →
      holds none cs = some (if f.streamCtx.isSome then some f.backend else none) := by
    intro f hf
    rw [hf.held, hf.ctx]
    rfl
  cases s with
  | parsing =>
    obtain rfl : cs = [] := h
    rfl
  | selecting f => exact h.1.held
  | opening f =>
    obtain ⟨pre, -, hctx⟩ := Frame.Waiting.attempt h
    rw [Frame.Waiting.held h, Stage.holding, hctx]
    rfl
  | closing f => exact hlive h.1
  | serving f => exact h.elim hlive hidle
  | reading f => exact h.elim hlive hidle
  | recording f => exact h.elim hlive hidle
  | exiting f reply => exact hlive h
  | handed f => exact hstreams h
  | pulling f => exact hstreams h
  | yielded f => exact hstreams h
  | genClosing f => exact h
  | genRecording f => exact h
  | done reply => exact h

theorem Frame.take_notMem_leave (f : Frame) (reply : Option Reply) (b : Backend) :
    .take b ∉ (f.leave reply).2 := by
  unfold Frame.leave Frame.giveCounted
  split_ifs <;> simp

theorem Frame.take_notMem_afterChain (f : Frame) (b : Backend) : .take b ∉ f.afterChain.2 := by
  unfold Frame.afterChain
  split
  · simp
  · exact f.take_notMem_leave _ b

theorem Frame.take_notMem_afterAttempts (f : Frame) (b : Backend) :
    .take b ∉ f.afterAttempts.2 := by
  unfold Frame.afterAttempts
  split_ifs
  · exact f.take_notMem_afterChain b
  · split
    · exact f.take_notMem_afterChain b
    · simp

theorem Frame.take_notMem_openFailed (f : Frame) (b : Backend) : .take b ∉ f.openFailed.2 := by
  unfold Frame.openFailed
  split_ifs
  · simp
  · simpa using Frame.take_notMem_afterAttempts _ b

theorem Frame.take_notMem_opened (f : Frame) (ctx code : Nat) (type : String) (b : Backend) :
    .take b ∉ (f.opened ctx code type).2 := by
  unfold Frame.opened
  dsimp only
  split_ifs
  · simp
  · exact Frame.take_notMem_afterAttempts _ b

theorem Frame.take_notMem_serve (f : Frame) (r : Response) (b : Backend) :
    .take b ∉ (f.serve r).2 := by
  unfold Frame.serve
  split_ifs <;> simp

/-- Only a selection takes a unit. -/
theorem Stage.selects_of_take (hstep : s.step e = some out) {b : Backend}
    (hb : .take b ∈ out.2) : s.selects e = some b := by
  cases s <;> cases e <;>
    simp only [Stage.step, reduceCtorEq, Option.some.injEq, Option.ite_none_right_eq_some,
      Option.map_eq_some_iff] at hstep
  case selecting.select f instanceId =>
    subst hstep
    rw [Change.take.inj (List.mem_singleton.mp hb)]
    rfl
  case selecting.selectFails f x =>
    exact absurd (hstep ▸ hb) (Frame.take_notMem_afterAttempts _ b)
  case opening.opens f code type =>
    obtain ⟨ctx, -, rfl⟩ := hstep
    exact absurd hb (f.take_notMem_opened ctx code type b)
  case opening.raises f => exact absurd (hstep ▸ hb) (f.take_notMem_openFailed b)
  case closing.closes f =>
    obtain ⟨ctx, -, rfl⟩ := hstep
    simp [Frame.closed] at hb
  case serving.serve f =>
    obtain ⟨r, -, rfl⟩ := hstep
    exact absurd hb (f.take_notMem_serve r b)
  case exiting.closes f reply =>
    subst hstep
    unfold Frame.giveCounted at hb
    split_ifs at hb <;> simp at hb
  all_goals first
    | exact absurd (hstep ▸ hb) (Frame.take_notMem_leave _ _ b)
    | exact absurd (hstep.2 ▸ hb) (Frame.take_notMem_leave _ _ b)
    | simp [← hstep, Frame.unexpected, Frame.genLeave] at hb

theorem applyChange_eq : applyChange = Tally.change makeBackendKey := by
  funext inflight c
  cases c <;> rfl

/-- The invariant: the counters fit what the requests hold, and that is in `U`. -/
structure ProxyState.Inv (U : Set Backend) (w : ProxyState) : Prop where
  fits : Tally.Fits makeBackendKey w.inflight (w.requests.map fun q => q.stage.holding)
  fine : ∀ q ∈ w.requests, q.Fine
  held : ∀ q ∈ w.requests, ∀ b, q.stage.holding = some b → b ∈ U

theorem ProxyState.inv_init (U : Set Backend) : ProxyState.Inv U {} where
  fits := Tally.fits_nil
  fine := by simp
  held := by simp

theorem ProxyState.Inv.arrive (h : w.Inv U) :
    ProxyState.Inv U { w with requests := w.requests ++ [{}] } where
  fits := by
    rw [List.map_append]
    exact h.fits.join
  fine := by
    intro q hq
    rcases List.mem_append.mp hq with hq | hq
    · exact h.fine q hq
    · rw [List.mem_singleton.mp hq]
      exact rfl
  held := by
    intro q hq b hb
    rcases List.mem_append.mp hq with hq | hq
    · exact h.held q hq b hb
    · rw [List.mem_singleton.mp hq] at hb
      cases hb

/-- **The invariant is kept** by every orderly event. -/
theorem ProxyState.Inv.step {ev : ProxyEvent} (h : w.Inv U) (he : w.Orderly U ev)
    (hstep : w.step ev = some w') : w'.Inv U := by
  cases ev with
  | arrive => exact Option.some.inj hstep ▸ h.arrive
  | act i e =>
    obtain ⟨q, hq, hstep⟩ := Option.bind_eq_some_iff.mp hstep
    obtain ⟨out, hout, rfl⟩ := Option.map_eq_some_iff.mp hstep
    obtain ⟨horderly, hselect⟩ := he q hq
    have hmem := List.mem_of_getElem? hq
    have hfine := h.fine q hmem
    have hfine' : out.1.Fine (q.changes ++ out.2) := Stage.Fine.step hfine horderly hout
    -- what the request holds after the step, from what it held before it
    have hheld : holds q.stage.holding out.2 = some out.1.holding := by
      rw [← hfine'.held, holds_append (Stage.Fine.held hfine)]
    refine ⟨?_, ?_, ?_⟩
    · rw [List.map_set, applyChange_eq]
      exact h.fits.changes (by rw [List.getElem?_map, hq]; rfl) hheld
    · intro q' hq'
      rcases List.mem_or_eq_of_mem_set hq' with hq' | rfl
      · exact h.fine q' hq'
      · exact hfine'
    · intro q' hq' b hb
      rcases List.mem_or_eq_of_mem_set hq' with hq' | rfl
      · exact h.held q' hq' b hb
      · rcases holds_cases (hheld.trans (congrArg some hb)) with hold | htake
        · exact h.held q hmem b hold
        · exact hselect b (Stage.selects_of_take hout htake)

/-- **The in-flight counters are exact** along every run of orderly events, for backends that
their keys tell apart. -/
theorem exact_of_orderly (U : Set Backend) (hU : Set.InjOn makeBackendKey U) (w : ProxyState)
    (h : Reach ProxyState.step (ProxyState.Orderly U) {} w) : w.Exact U := by
  have hinv : w.Inv U := h.invariant (ProxyState.inv_init U) ProxyState.Inv.step
  refine ⟨?_, fun q hq => (hinv.fine q hq).held, ?_⟩
  · intro b hb
    rw [getInflight, hinv.fits.get_eq hU ?_ hb, List.count, List.countP_map]
    · refine List.countP_congr fun q _ => ?_
      simp
    · intro b' hb'
      obtain ⟨q, hq, hhold⟩ := List.mem_map.mp hb'
      exact hinv.held q hq b' hhold
  · intro hdone k
    refine hinv.fits.eq_empty ?_ k
    intro o ho
    obtain ⟨q, hq, rfl⟩ := List.mem_map.mp ho
    have := hdone q hq
    cases hs : q.stage <;> simp [hs, Stage.isDone] at this
    rfl

/-- The two replicas of a group. -/
def replicas : Set Backend := {b | b ∈ [(⟨"m", "a"⟩ : Backend), ⟨"m", "b"⟩]}

instance : DecidablePred (· ∈ replicas) := fun b =>
  inferInstanceAs (Decidable (b ∈ [(⟨"m", "a"⟩ : Backend), ⟨"m", "b"⟩]))

theorem injOn_replicas : Set.InjOn makeBackendKey replicas := by
  intro b hb b' hb' h
  simp only [replicas, Set.mem_ofPred_eq, List.mem_cons, List.not_mem_nil, or_false] at hb hb'
  obtain rfl | rfl := hb <;> obtain rfl | rfl := hb' <;> revert h <;> decide

/-- Two requests at once: one is answered in full; the other one fails over to the second replica,
which streams. -/
def answeredAndStreaming : List ProxyEvent :=
  [.arrive, .arrive, .act 0 (.route ⟨"m", "tag", ["a", "b"]⟩ []),
    .act 1 (.route ⟨"m", "tag", ["a", "b"]⟩ []), .act 0 (.select "a"), .act 1 (.select "a"),
    .act 1 .raises, .act 0 (.opens 200 "application/json"), .act 1 (.select "b"), .act 0 .serve,
    .act 1 (.opens 200 "text/event-stream"), .act 1 .serve, .act 1 .pull, .act 0 .body,
    .act 1 .chunk, .act 0 .closes]

/-- The first request is over, and the second one is counted at the replica that it has come to. -/
theorem exact_answeredAndStreaming :
    ∃ w, Reach ProxyState.step (ProxyState.Orderly replicas) {} w ∧ w.Exact replicas ∧
      w.requests.map (·.stage.isDone) = [true, false] ∧
      getInflight w.inflight ⟨"m", "a"⟩ = 0 ∧ getInflight w.inflight ⟨"m", "b"⟩ = 1 := by
  have hes : Along ProxyState.step (ProxyState.Orderly replicas) {} answeredAndStreaming := by
    decide +kernel
  obtain ⟨w, -, hw, hdone, hcounts⟩ := Reach.exists_of_any
    (P := fun w => w.requests.map (·.stage.isDone) = [true, false] ∧
      getInflight w.inflight ⟨"m", "a"⟩ = 0 ∧ getInflight w.inflight ⟨"m", "b"⟩ = 1)
    hes (by decide +kernel)
  exact ⟨w, hw, exact_of_orderly _ injOn_replicas w hw, hdone, hcounts⟩

/-- The client disconnects before the first chunk is pulled: no request is active, and the backend
still counts one in flight. -/
theorem leaked_by_disconnect :
    ∃ w, Reach ProxyState.step anyEvent {} w ∧
      (∀ q ∈ w.requests, q.stage.isDone = true) ∧ getInflight w.inflight ⟨"m", "a"⟩ = 1 ∧
      ¬ w.Exact {⟨"m", "a"⟩} := by
  have hes : Along ProxyState.step anyEvent {}
      [.arrive, .act 0 (.route ⟨"m", "tag", ["a"]⟩ []), .act 0 (.select "a"),
        .act 0 (.opens 200 "text/event-stream"), .act 0 .serve, .act 0 .cancel] :=
    Reach.along_of_forall fun _ _ _ => trivial
  obtain ⟨w, -, hw, hdone, hone⟩ := Reach.exists_of_any
    (P := fun w => (∀ q ∈ w.requests, q.stage.isDone = true) ∧
      getInflight w.inflight ⟨"m", "a"⟩ = 1) hes (by decide +kernel)
  refine ⟨w, hw, hdone, hone, fun hexact => ?_⟩
  have hnone := hexact.empty hdone "m::a"
  rw [getInflight, Tally.get, show makeBackendKey ⟨"m", "a"⟩ = "m::a" from by decide, hnone] at hone
  cases hone

end Llmops.Router
