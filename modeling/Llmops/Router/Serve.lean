import Llmops.Router.Proxy

/-!
# The response that is served

Three states of the local variables that the failover loops keep consistent: nothing is open
(`Frame.Idle`), an attempt is on its way (`Frame.Waiting`), its response is open (`Frame.Live`).
`Request.Fine` says which of them holds where; `Fine.step` proves that steps keep it, the events
apart that lose a unit (`Orderly`).

* `serving_live_iff`: at the serving stage the response is the live one exactly when the chain
  loop was not left by a failing `select_instance`. After a 5xx that was closed for a failover,
  `response` still names it, and a selection that fails next leaves the loop with it.
* `served_after_close`: that run.
-/

namespace Llmops.Router

open Llmops.Lib

/-! ## The states of the local variables -/

/-- No stream context, no unit. -/
structure Frame.Idle (f : Frame) (cs : List (Change Backend)) : Prop where
  ctx : f.streamCtx = none
  owns : f.ownsStream = false
  counted : f.inflightCounted = false
  closed : f.openCtxs = []
  held : holds none cs = some none

/-- An attempt is on its way: its stream context is the last one, its unit is held. -/
structure Frame.Waiting (f : Frame) (cs : List (Change Backend)) : Prop where
  attempt : ∃ pre, f.attempts = pre ++ [⟨f.backend, f.model⟩] ∧ f.streamCtx = some pre.length
  goes : f.exhausted = false
  owns : f.ownsStream = false
  counted : f.inflightCounted = true
  closed : f.openCtxs = []
  held : holds none cs = some (some f.backend)

/-- **The live response**: it was opened by the last attempt, its stream context is the open one
and owned, and exactly one unit is held, of the backend that `model_key` and `instance_id` name
and that the attempt was sent to. -/
structure Frame.Live (f : Frame) (cs : List (Change Backend)) : Prop where
  response : ∃ r, f.response = some r ∧ r.ctx + 1 = f.attempts.length ∧
    f.streamCtx = some r.ctx ∧ f.openCtxs = [r.ctx] ∧
    f.attempts[r.ctx]?.map Attempt.backend = some f.backend
  owns : f.ownsStream = true
  counted : f.inflightCounted = true
  held : holds none cs = some (some f.backend)

/-- The generator has the response: its context is set, its unit is held. -/
structure Frame.Streams (f : Frame) (cs : List (Change Backend)) : Prop where
  ctx : f.streamCtx.isSome = true
  held : holds none cs = some (some f.backend)

/-- What holds at a stage. A response that is served or read is the live one, or it is left over
from a closed stream and nothing is held. -/
def Stage.Fine (cs : List (Change Backend)) : Stage → Prop
  | .parsing => cs = []
  | .selecting f => f.Idle cs ∧ f.exhausted = false
  | .opening f => f.Waiting cs
  | .closing f => f.Live cs ∧ f.exhausted = false
  | .exiting f _ => f.Live cs
  | .serving f | .reading f | .recording f => f.Live cs ∨ f.Idle cs
  | .handed f | .pulling f | .yielded f => f.Streams cs
  | .genClosing _ | .genRecording _ | .done _ => holds none cs = some none

/-- What holds of a request. -/
def Request.Fine (q : Request) : Prop := q.stage.Fine q.changes

/-- An event that loses no unit and gives back none that was not taken: the `__aexit__` of the
`finally` returns, a generator that is handed a response is started, and no event stream is
served whose context is gone. -/
def Stage.Orderly : Stage → Event → Prop
  | .exiting _ _, e => e = .closes
  | .handed _, e => e = .pull
  | .serving f, _ => f.streamCtx = none → ∀ r ∈ f.response, r.isEventStream = false
  | _, _ => True

instance : ∀ (s : Stage) (e : Event), Decidable (s.Orderly e)
  | .exiting _ _, e => inferInstanceAs (Decidable (e = .closes))
  | .handed _, e => inferInstanceAs (Decidable (e = .pull))
  | .serving f, _ =>
    inferInstanceAs (Decidable (f.streamCtx = none → ∀ r ∈ f.response, r.isEventStream = false))
  | .parsing, _ | .selecting _, _ | .opening _, _ | .closing _, _ | .reading _, _
  | .recording _, _ | .pulling _, _ | .yielded _, _ | .genClosing _, _ | .genRecording _, _
  | .done _, _ => inferInstanceAs (Decidable True)

/-- The handler has not served anything yet. -/
def Stage.early : Stage → Bool
  | .parsing | .selecting _ | .opening _ | .closing _ | .serving _ => true
  | _ => false

variable {f : Frame} {cs : List (Change Backend)} {out : Outcome} {e : Event}

theorem Frame.Waiting.give (h : f.Waiting cs) :
    holds none (cs ++ [.give f.backend]) = some none := by
  rw [holds_append h.held, holds, if_pos rfl, holds]

theorem Frame.Live.give (h : f.Live cs) : holds none (cs ++ [.give f.backend]) = some none := by
  rw [holds_append h.held, holds, if_pos rfl, holds]

theorem Frame.Streams.give (h : f.Streams cs) :
    holds none (cs ++ [.give f.backend]) = some none := by
  rw [holds_append h.held, holds, if_pos rfl, holds]

/-! ## What the code between two awaits keeps -/

/-- What an outcome leaves. -/
def Outcome.Fine (cs : List (Change Backend)) (out : Outcome) : Prop :=
  out.1.Fine (cs ++ out.2)

theorem Stage.Fine.stay {s : Stage} (h : s.Fine cs) : Outcome.Fine cs (s, []) := by
  unfold Outcome.Fine
  rwa [List.append_nil]

theorem Frame.Idle.enter (h : f.Idle cs) (t : Target) (chain : List Target) :
    (f.enter t chain).Idle cs := ⟨h.ctx, h.owns, h.counted, h.closed, h.held⟩

theorem Frame.Idle.leave (h : f.Idle cs) (reply : Option Reply) :
    Outcome.Fine cs (f.leave reply) := by
  unfold Frame.leave Frame.giveCounted
  rw [h.owns, h.counted]
  simpa [Outcome.Fine, Stage.Fine] using h.held

theorem Frame.Waiting.leave (h : f.Waiting cs) (reply : Option Reply) :
    Outcome.Fine cs (f.leave reply) := by
  unfold Frame.leave Frame.giveCounted
  rw [h.owns, h.counted]
  exact h.give

theorem Frame.Live.leave (h : f.Live cs) (reply : Option Reply) :
    Outcome.Fine cs (f.leave reply) := by
  obtain ⟨r, -, -, hctx, -⟩ := h.response
  unfold Frame.leave
  rw [h.owns, hctx]
  exact Stage.Fine.stay h

theorem Frame.Idle.afterChain (h : f.Idle cs) : Outcome.Fine cs f.afterChain := by
  unfold Frame.afterChain
  split
  · exact Stage.Fine.stay (Or.inr h)
  · exact h.leave _

theorem Frame.Idle.afterAttempts (h : f.Idle cs) : Outcome.Fine cs f.afterAttempts := by
  unfold Frame.afterAttempts
  split_ifs
  · exact h.afterChain
  · split
    · exact h.afterChain
    · exact Stage.Fine.stay ⟨h.enter _ _, rfl⟩

theorem Frame.Live.afterAttempts (h : f.Live cs) (hleft : f.exhausted = false) :
    Outcome.Fine cs f.afterAttempts := by
  obtain ⟨r, hr, -⟩ := h.response
  unfold Frame.afterAttempts Frame.afterChain
  rw [hr, hleft]
  exact Stage.Fine.stay (Or.inl h)

theorem Frame.Idle.selectFailed (h : f.Idle cs) (e : HttpException) :
    Outcome.Fine cs (f.selectFailed e) :=
  Frame.Idle.afterAttempts ⟨h.ctx, h.owns, h.counted, h.closed, h.held⟩

theorem Frame.Idle.selected (h : f.Idle cs) (hgoes : f.exhausted = false) (instanceId : String) :
    Outcome.Fine cs (f.selected instanceId) where
  attempt := ⟨f.attempts, rfl, rfl⟩
  goes := hgoes
  owns := h.owns
  counted := rfl
  closed := h.closed
  held := by
    rw [holds_append h.held]
    rfl

theorem Frame.Waiting.openFailed (h : f.Waiting cs) : Outcome.Fine cs f.openFailed := by
  have hidle : ∀ g : Frame, g.streamCtx = none → g.ownsStream = f.ownsStream →
      g.inflightCounted = false → g.openCtxs = f.openCtxs →
      g.Idle (cs ++ [.give f.backend]) := fun g hctx howns hcounted hclosed =>
    ⟨hctx, howns.trans h.owns, hcounted, hclosed.trans h.closed, h.give⟩
  unfold Frame.openFailed
  split_ifs
  · exact ⟨hidle _ rfl rfl rfl rfl, h.goes⟩
  · have := (hidle { f.markFailure with
      inflightCounted := false, streamCtx := none
      lastExc := some ⟨503, "All backends unavailable"⟩, exhausted := true
      response := none } rfl rfl rfl rfl).afterAttempts
    unfold Outcome.Fine at this ⊢
    rwa [List.append_assoc] at this

theorem Frame.Waiting.opened (h : f.Waiting cs) {ctx : Nat} (hctx : f.streamCtx = some ctx)
    (statusCode : Nat) (contentType : String) :
    Outcome.Fine cs (f.opened ctx statusCode contentType) := by
  obtain ⟨pre, hpre, hlast⟩ := h.attempt
  obtain rfl : pre.length = ctx := Option.some.inj (hlast.symm.trans hctx)
  have hlive : ∀ g : Frame, g.attempts = f.attempts → g.streamCtx = f.streamCtx →
      g.backend = f.backend → g.inflightCounted = f.inflightCounted → g.ownsStream = true →
      g.openCtxs = pre.length :: f.openCtxs →
      g.response = some ⟨pre.length, statusCode, contentType⟩ → g.Live cs := by
    intro g hattempts hctx' hbackend hcounted howns hopen hresponse
    refine ⟨⟨_, hresponse, ?_, hctx'.trans hlast, ?_, ?_⟩, howns, hcounted.trans h.counted, ?_⟩
    · simp [hattempts, hpre]
    · rw [hopen, h.closed]
    · simp [hattempts, hpre, hbackend]
    · rw [hbackend]
      exact h.held
  unfold Frame.opened
  dsimp only
  split_ifs
  · have := hlive { f with
      response := some ⟨pre.length, statusCode, contentType⟩, ownsStream := true
      openCtxs := pre.length :: f.openCtxs }.markFailure rfl rfl rfl rfl rfl rfl rfl
    exact Stage.Fine.stay ⟨this, h.goes⟩
  · exact Frame.Live.afterAttempts (hlive _ rfl rfl rfl rfl rfl rfl rfl) h.goes

theorem Frame.Live.closed (h : f.Live cs) (hgoes : f.exhausted = false) {ctx : Nat}
    (hctx : f.streamCtx = some ctx) : Outcome.Fine cs (f.closed ctx) := by
  obtain ⟨r, -, -, hr, hopen, -⟩ := h.response
  obtain rfl : r.ctx = ctx := Option.some.inj (hr.symm.trans hctx)
  refine ⟨⟨rfl, rfl, rfl, ?_, h.give⟩, hgoes⟩
  simp [hopen]

theorem Frame.Live.markFailure (h : f.Live cs) : f.markFailure.Live cs :=
  ⟨h.response, h.owns, h.counted, h.held⟩

theorem Frame.Idle.markFailure (h : f.Idle cs) : f.markFailure.Idle cs :=
  ⟨h.ctx, h.owns, h.counted, h.closed, h.held⟩

theorem Frame.unexpected_fine (h : f.Live cs ∨ f.Idle cs) : Outcome.Fine cs f.unexpected := by
  unfold Frame.unexpected
  split_ifs
  · exact Stage.Fine.stay (h.imp Frame.Live.markFailure Frame.Idle.markFailure)
  · exact Stage.Fine.stay h

theorem Frame.Live.serve (h : f.Live cs) (r : Response) : Outcome.Fine cs (f.serve r) := by
  obtain ⟨r', hr'⟩ := h.response
  unfold Frame.serve
  split_ifs
  · have : ({ f with
        marks := f.marks ++ [⟨f.backend, decide (r.statusCode < 500)⟩], ownsStream := false
        inflightCounted := false } : Frame).Streams cs := ⟨by simp [hr'.2.2.1], h.held⟩
    exact Stage.Fine.stay this
  · have : ({ f with
        marks := f.marks ++ [⟨f.backend, decide (r.statusCode < 500)⟩] } : Frame).Live cs :=
      ⟨h.response, h.owns, h.counted, h.held⟩
    exact Stage.Fine.stay (Or.inl this)

theorem Frame.Idle.serve (h : f.Idle cs) {r : Response} (hr : r.isEventStream = false) :
    Outcome.Fine cs (f.serve r) := by
  have : ({ f with
      marks := f.marks ++ [⟨f.backend, decide (r.statusCode < 500)⟩] } : Frame).Idle cs :=
    ⟨h.ctx, h.owns, h.counted, h.closed, h.held⟩
  unfold Frame.serve
  rw [if_neg (by simp [hr])]
  exact Stage.Fine.stay (Or.inr this)

theorem Frame.leave_fine (h : f.Live cs ∨ f.Idle cs) (reply : Option Reply) :
    Outcome.Fine cs (f.leave reply) := h.elim (·.leave reply) (·.leave reply)

theorem Frame.Streams.genLeave (h : f.Streams cs) : Outcome.Fine cs f.genLeave := h.give

theorem Frame.Streams.markFailure (h : f.Streams cs) : f.markFailure.Streams cs :=
  ⟨h.ctx, h.held⟩

/-! ## Every orderly step -/

/-- **What holds of a request is kept** by every orderly step. -/
theorem Stage.Fine.step {s : Stage} (h : s.Fine cs) (he : s.Orderly e)
    (hstep : s.step e = some out) : Outcome.Fine cs out := by
  cases s with
  | parsing =>
    obtain rfl : cs = [] := h
    cases e <;> simp only [Stage.step, reduceCtorEq, Option.some.injEq] at hstep <;> subst hstep
    · exact ⟨⟨rfl, rfl, rfl, rfl, rfl⟩, rfl⟩
    all_goals rfl
  | selecting f =>
    obtain ⟨hidle, hgoes⟩ := h
    cases e <;> simp only [Stage.step, reduceCtorEq, Option.some.injEq] at hstep <;> subst hstep
    · exact hidle.selected hgoes _
    · exact hidle.selectFailed _
    · exact Frame.unexpected_fine (.inr hidle)
    · exact hidle.leave _
  | opening f =>
    cases e <;> simp only [Stage.step, reduceCtorEq, Option.some.injEq, Option.map_eq_some_iff]
      at hstep
    · obtain ⟨ctx, hctx, rfl⟩ := hstep
      exact Frame.Waiting.opened h hctx _ _
    · exact hstep ▸ Frame.Waiting.openFailed h
    · exact hstep ▸ Frame.Waiting.leave h _
  | closing f =>
    obtain ⟨hlive, hgoes⟩ := h
    cases e <;> simp only [Stage.step, reduceCtorEq, Option.some.injEq, Option.map_eq_some_iff]
      at hstep
    · obtain ⟨ctx, hctx, rfl⟩ := hstep
      exact hlive.closed hgoes hctx
    · exact hstep ▸ Frame.unexpected_fine (.inl hlive)
    · exact hstep ▸ hlive.leave _
  | serving f =>
    cases e <;> simp only [Stage.step, reduceCtorEq, Option.map_eq_some_iff] at hstep
    obtain ⟨r, hr, rfl⟩ := hstep
    rcases h with h | h
    · exact h.serve r
    · exact h.serve (he h.ctx r hr)
  | reading f =>
    cases e <;> simp only [Stage.step, reduceCtorEq, Option.some.injEq,
      Option.ite_none_right_eq_some] at hstep
    · exact hstep.2 ▸ Frame.leave_fine h _
    · exact hstep ▸ Frame.unexpected_fine h
    · exact hstep ▸ Frame.leave_fine h _
  | recording f =>
    cases e <;> simp only [Stage.step, reduceCtorEq, Option.some.injEq] at hstep <;> subst hstep
    all_goals exact Frame.leave_fine h _
  | exiting f reply =>
    obtain rfl : e = .closes := he
    simp only [Stage.step, Option.some.injEq] at hstep
    subst hstep
    have hlive : f.Live cs := h
    unfold Frame.giveCounted
    rw [hlive.counted]
    exact hlive.give
  | handed f =>
    obtain rfl : e = .pull := he
    simp only [Stage.step, Option.some.injEq] at hstep
    subst hstep
    exact Stage.Fine.stay h
  | pulling f =>
    cases e <;> simp only [Stage.step, reduceCtorEq, Option.some.injEq,
      Option.ite_none_right_eq_some] at hstep
    · obtain ⟨-, rfl⟩ := hstep
      exact Stage.Fine.stay h
    · exact hstep.2 ▸ Frame.Streams.genLeave h
    · exact hstep ▸ (Frame.Streams.markFailure h).genLeave
    · exact hstep ▸ Frame.Streams.genLeave h
  | yielded f =>
    cases e <;> simp only [Stage.step, reduceCtorEq, Option.some.injEq] at hstep <;> subst hstep
    · exact Stage.Fine.stay h
    · exact Frame.Streams.genLeave h
  | genClosing f =>
    cases e <;> simp only [Stage.step, reduceCtorEq, Option.some.injEq,
      Option.ite_none_right_eq_some] at hstep
    · obtain ⟨-, rfl⟩ := hstep
      exact Stage.Fine.stay h
    all_goals
      subst hstep
      exact Stage.Fine.stay h
  | genRecording f =>
    cases e <;> simp only [Stage.step, reduceCtorEq, Option.some.injEq] at hstep <;> subst hstep
    all_goals exact Stage.Fine.stay h
  | done reply => cases e <;> simp only [Stage.step, reduceCtorEq] at hstep

/-! ## The serving stage -/

theorem Frame.leave_late (f : Frame) (reply : Option Reply) :
    (f.leave reply).1.early = false := by
  unfold Frame.leave
  split_ifs <;> rfl

theorem Frame.serve_late (f : Frame) (r : Response) : (f.serve r).1.early = false := by
  unfold Frame.serve
  split_ifs <;> rfl

/-- Once the handler serves, it never comes back to its loops. -/
theorem Stage.late_of_step {s : Stage} (hstep : s.step e = some out)
    (hs : s.early = false ∨ ∃ f, s = .serving f) : out.1.early = false := by
  rcases hs with hs | ⟨f, rfl⟩
  · cases s <;> simp only [Stage.early, reduceCtorEq] at hs
    all_goals
      cases e <;> simp only [Stage.step, reduceCtorEq, Option.some.injEq,
        Option.ite_none_right_eq_some] at hstep
    all_goals first
      | exact hstep ▸ rfl
      | exact hstep.2 ▸ rfl
      | exact hstep ▸ Frame.leave_late _ _
      | exact hstep.2 ▸ Frame.leave_late _ _
  · cases e <;> simp only [Stage.step, reduceCtorEq, Option.map_eq_some_iff] at hstep
    obtain ⟨r, -, rfl⟩ := hstep
    exact f.serve_late r

/-- Up to the serving stage every step is orderly. -/
theorem Stage.orderly_of_early {s : Stage} (hstep : s.step e = some out)
    (hout : out.1.early = true) : s.early = true ∧ s.Orderly e := by
  have hs := mt (Stage.late_of_step hstep) (by simp [hout])
  push Not at hs
  refine ⟨by simpa using hs.1, ?_⟩
  cases s with
  | serving f => exact absurd rfl (hs.2 f)
  | exiting => exact absurd rfl hs.1
  | handed => exact absurd rfl hs.1
  | _ => trivial

/-- The request once its route chain is built. -/
def routed (target : Target) (chain : List Target) : Request where
  stage := .selecting (.start target chain)

variable {target : Target} {chain : List Target} {es : List Event} {q : Request}

theorem Request.step_eq_some {p q : Request} :
    p.step e = some q ↔
      ∃ out, p.stage.step e = some out ∧ q.stage = out.1 ∧ q.changes = p.changes ++ out.2 := by
  unfold Request.step
  rw [Option.map_eq_some_iff]
  refine exists_congr fun out => and_congr_right fun _ => ?_
  constructor
  · rintro rfl
    exact ⟨rfl, rfl⟩
  · rintro ⟨hstage, hchanges⟩
    exact Request.ext hstage.symm hchanges.symm

theorem Request.Fine.step {p q : Request} (h : p.Fine) (he : p.stage.Orderly e)
    (hstep : p.step e = some q) : q.Fine := by
  obtain ⟨out, hout, hstage, hchanges⟩ := Request.step_eq_some.mp hstep
  unfold Request.Fine
  rw [hstage, hchanges]
  exact Stage.Fine.step h he hout

theorem routed_fine (target : Target) (chain : List Target) : (routed target chain).Fine :=
  ⟨⟨rfl, rfl, rfl, rfl, rfl⟩, rfl⟩

/-- Everything that happens before the serving stage keeps what holds of a request. -/
theorem fine_of_early (h : run Request.step (routed target chain) es = some q)
    (hq : q.stage.early = true) : q.Fine := by
  induction es using List.reverseRecOn generalizing q with
  | nil =>
    rw [← Option.some.inj h]
    exact routed_fine target chain
  | append_singleton es e ih =>
    obtain ⟨p, hp, hstep⟩ := run_concat h
    obtain ⟨out, hout, hstage, -⟩ := Request.step_eq_some.mp hstep
    obtain ⟨hearly, horderly⟩ := Stage.orderly_of_early hout (hstage ▸ hq)
    exact (ih hp hearly).step horderly hstep

theorem Frame.leave_ne_serving (f g : Frame) (reply : Option Reply) :
    (f.leave reply).1 ≠ .serving g := by
  unfold Frame.leave
  split_ifs <;> simp

theorem Frame.eq_of_afterChain {f g : Frame} (h : f.afterChain.1 = .serving g) :
    g = f ∧ f.response.isSome = true := by
  unfold Frame.afterChain at h
  split at h
  · next hr =>
    exact ⟨(Stage.serving.inj h).symm, by simp [hr]⟩
  · exact absurd h (f.leave_ne_serving g _)

/-- The loops are left for the serving stage with the local variables as they are. -/
theorem Frame.eq_of_afterAttempts {f g : Frame} (h : f.afterAttempts.1 = .serving g) :
    g = f ∧ f.response.isSome = true := by
  unfold Frame.afterAttempts at h
  split_ifs at h
  · exact Frame.eq_of_afterChain h
  · split at h
    · exact Frame.eq_of_afterChain h
    · cases h

theorem Frame.openFailed_ne_serving (f g : Frame) : f.openFailed.1 ≠ .serving g := by
  intro h
  unfold Frame.openFailed at h
  split_ifs at h
  exact absurd (Frame.eq_of_afterAttempts h).2 (by simp)

/-- The serving stage is entered from a selection that fails, or from a response: the variables
that the loops leave own a stream in the second case only. -/
theorem serving_entered {s : Stage} {f : Frame} (hstep : s.step e = some out)
    (hout : out.1 = .serving f) :
    (∃ g x, s = .selecting g ∧ e = .selectFails x ∧ f.streamCtx = g.streamCtx) ∨
      (∀ x, e ≠ .selectFails x) ∧ f.ownsStream = true := by
  have hearly := (Stage.orderly_of_early hstep (hout ▸ rfl)).1
  cases s <;> simp only [Stage.early, reduceCtorEq] at hearly
  all_goals cases e <;>
    simp only [Stage.step, reduceCtorEq, Option.some.injEq, Option.map_eq_some_iff] at hstep
  case selecting.selectFails g x =>
    subst hstep
    obtain ⟨rfl, -⟩ := Frame.eq_of_afterAttempts hout
    exact .inl ⟨g, x, rfl, rfl, rfl⟩
  case opening.opens g code type =>
    obtain ⟨ctx, -, rfl⟩ := hstep
    unfold Frame.opened at hout
    dsimp only at hout
    split_ifs at hout
    obtain ⟨rfl, -⟩ := Frame.eq_of_afterAttempts hout
    exact .inr ⟨by simp, rfl⟩
  case opening.raises g => exact absurd hout (hstep ▸ g.openFailed_ne_serving f)
  case closing.closes g =>
    obtain ⟨ctx, -, rfl⟩ := hstep
    cases hout
  case serving.serve g =>
    obtain ⟨r, -, rfl⟩ := hstep
    have := g.serve_late r
    simp [hout, Stage.early] at this
  all_goals
    subst hstep
    first
      | exact absurd hout (Frame.leave_ne_serving _ _ _)
      | cases hout

/-- **The response that is served is the live one**, exactly when the chain loop is not left by a
failing `select_instance`. -/
theorem serving_live_iff (target : Target) (chain : List Target) (es : List Event) (q : Request)
    (f : Frame) (h : run Request.step (routed target chain) es = some q)
    (hq : q.stage = .serving f) :
    f.Live q.changes ↔ ∀ x, es.getLast? ≠ some (.selectFails x) := by
  have hfine : f.Live q.changes ∨ f.Idle q.changes := by
    have := fine_of_early h (hq ▸ rfl)
    rwa [Request.Fine, hq] at this
  induction es using List.reverseRecOn with
  | nil =>
    rw [← Option.some.inj h] at hq
    cases hq
  | append_singleton es e _ =>
    obtain ⟨p, hp, hstep⟩ := run_concat h
    obtain ⟨out, hout, hstage, -⟩ := Request.step_eq_some.mp hstep
    rw [List.getLast?_concat]
    rcases serving_entered hout (hstage ▸ hq) with ⟨g, x, hg, rfl, hctx⟩ | ⟨hne, howns⟩
    · have hp' := fine_of_early hp (hg ▸ rfl)
      rw [Request.Fine, hg] at hp'
      constructor
      · intro hlive
        obtain ⟨r, -, -, hr, -⟩ := hlive.response
        rw [hctx, hp'.1.ctx] at hr
        cases hr
      · intro hne
        exact absurd rfl (hne x)
    · constructor
      · intro _ x hx
        exact hne x (Option.some.inj hx)
      · intro _
        rcases hfine with hlive | hidle
        · exact hlive
        · exact absurd (hidle.owns.symm.trans howns) (by simp)

/-- The live response: the second instance answers, after a transport error at the first. -/
theorem served_live :
    ∃ q f, run Request.step (routed ⟨"m", "tag", ["a", "b"]⟩ [])
        [.select "a", .raises, .select "b", .opens 200 "application/json"] = some q ∧
      q.stage = .serving f ∧ f.Live q.changes :=
  ⟨_, _, rfl, rfl, (serving_live_iff ⟨"m", "tag", ["a", "b"]⟩ []
    [.select "a", .raises, .select "b", .opens 200 "application/json"] _ _ rfl rfl).mpr (by simp)⟩

/-- A group of two instances: the first answers 502 and is closed, the second has fallen asleep.
The 502 is served although its stream is closed and no unit is held. -/
theorem served_after_close :
    ∃ q f, run Request.step (routed ⟨"m", "tag", ["a", "b"]⟩ [])
        [.select "a", .opens 502 "text/plain", .closes,
          .selectFails ⟨503, "All instances of model 'm' are asleep."⟩] = some q ∧
      q.stage = .serving f ∧ ¬ f.Live q.changes :=
  ⟨_, _, rfl, rfl, fun h => absurd h.owns (by simp)⟩

end Llmops.Router
