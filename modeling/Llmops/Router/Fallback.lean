import Llmops.Router.Failover

/-!
# The first group that serves

What a client gets (`router.py:389-576`), for every assignment of outcomes to the selections and
attempts of every group of the chain, against the specification: the first group in the order of
the chain that serves (`firstServing`). A group serves with an attempt that answers below 500, or
with its last permitted one if that answers at all.

* `honest_iff`: the client gets what the specification says exactly when no response is left over.
  After a 5xx that was closed for a failover, a failing selection leaves the attempts with `response`
  still set; in the last group of the chain it is then served. A body cannot be read from the closed
  stream, which is the router's own 500, but an event stream is answered with the status of the
  abandoned attempt.
* `relays_abandoned`: that run.
-/

namespace Llmops.Router

open Lib

/-! ## The specification -/

/-- What comes of one turn of the attempts at a group: the selection fails, or the instance cannot
be reached, or it answers. -/
inductive Try where
  | refused (e : HttpException)
  | transport (instanceId : String)
  | answers (instanceId : String) (statusCode : Nat) (contentType : String)
  deriving DecidableEq, Repr

/-- A group of the chain, and what would come of each of its attempts. -/
structure Visit where
  target : Target
  outcome : Nat → Try

/-- The attempt that serves, among the next `n` ones from number `k` on. -/
def Visit.servingFrom (v : Visit) : Nat → Nat → Option Nat
  | 0, _ => none
  | n + 1, k =>
    match v.outcome k with
    | .refused _ => none
    | .transport _ => v.servingFrom n (k + 1)
    | .answers _ statusCode _ =>
      if statusCode < 500 ∨ n = 0 then some k else v.servingFrom n (k + 1)

/-- **The attempt with which a group serves**; without one the group is unavailable. -/
def Visit.serving (v : Visit) : Option Nat := v.servingFrom v.target.maxAttempts 0

/-- The content type of the last retried response, if a selection ends the next `n` attempts from
number `k` on; `last` is that of the attempts before. -/
def Visit.leftFrom (v : Visit) : Nat → Nat → Option String → Option String
  | 0, _, _ => none
  | n + 1, k, last =>
    match v.outcome k with
    | .refused _ => last
    | .transport _ => v.leftFrom n (k + 1) last
    | .answers _ statusCode contentType =>
      if statusCode < 500 ∨ n = 0 then none else v.leftFrom n (k + 1) (some contentType)

/-- The response that a group abandons: retried, and then a selection failed. -/
def Visit.abandoned (v : Visit) : Option String := v.leftFrom v.target.maxAttempts 0 none

/-- The first group of the chain that serves, how many come after it, and its serving attempt. -/
def firstServing : List Visit → Option (Visit × Nat × Nat)
  | [] => none
  | v :: visits =>
    match v.serving with
    | some k => some (v, visits.length, k)
    | none => firstServing visits

/-- `"text/event-stream" in content_type`. -/
def isEventStreamType (contentType : String) : Bool :=
  decide ("text/event-stream".toList <:+: contentType.toList)

/-- **A response is left over**: no group serves, and the last one abandons an event stream. -/
def LeftOver (visits : List Visit) : Prop :=
  firstServing visits = none ∧
    ∃ v ∈ visits.getLast?, ∃ contentType ∈ v.abandoned, isEventStreamType contentType = true

/-- **The client receives the response of attempt `k` of a group**: its status and content type, its
body from the stream that this attempt opened; the last health mark and the row of the request log
name the group and the instance. -/
structure Proxied.Receives (p : Proxied) (v : Visit) (left k : Nat) (reply : Option Reply)
    (i : String) (r : Response) : Prop where
  reply : reply = some (.relay r)
  outcome : v.outcome k = .answers i r.statusCode r.contentType
  stream : ∃ s ∈ p.sent[r.ctx]?, s.target = v.target ∧ s.left = left ∧ s.attempt = k ∧
    s.instanceId = i
  mark : p.marks.getLast? = some ⟨⟨v.target.routeKey, i⟩, decide (r.statusCode < 500)⟩
  row : p.rows =
    if v.target.routeKey = "" then [] else [⟨v.target.routeKey, some i, some r.statusCode⟩]

/-- **Complete fallback**: the client receives the response of the first group that serves, and the
router's own error if none does. -/
def Proxied.Honest (p : Proxied) (visits : List Visit) (reply : Option Reply) : Prop :=
  match firstServing visits with
  | some (v, left, k) => ∃ i r, p.Receives v left k reply i r
  | none => ∃ e, reply = some (.error e)

/-! ## Runs of an assignment -/

/-- The group at which the loops stand. -/
def visitAt (visits : List Visit) (f : Frame) : Option Visit := visits.reverse[f.chain.length]?

/-- The events of an assignment: the selections and the attempts come out as it says, nothing else
fails. A stream whose context is closed cannot be read, and no context cannot be closed. -/
def Stage.Follows (visits : List Visit) : Stage → Event → Prop
  | .parsing, e => ∃ t ts, e = .route t ts ∧ visits.map Visit.target = t :: ts
  | .selecting f, e => ∃ v ∈ visitAt visits f,
    match v.outcome f.attempt with
    | .refused x => e = .selectFails x
    | .transport i | .answers i _ _ => e = .select i
  | .opening f, e => ∃ v ∈ visitAt visits f,
    match v.outcome f.attempt with
    | .refused _ => False
    | .transport _ => e = .raises
    | .answers _ statusCode contentType => e = .opens statusCode contentType
  | .closing _, e | .exiting _ _, e => e = .closes
  | .serving _, e => e = .serve
  | .reading f, e => if f.readable then e = .body else e = .raises
  | .recording _, e | .genRecording _, e => e = .recorded
  | .handed _, e | .yielded _, e => e = .pull
  | .pulling f, e => if f.readable then e = .chunk ∨ e = .ends else e = .raises
  | .genClosing f, e => if f.streamCtx.isSome then e = .closes else e = .raises
  | .done _, _ => False

/-- A run of an assignment. -/
def Follows (visits : List Visit) (p : Proxied) (e : Event) : Prop :=
  p.request.stage.Follows visits e

/-! ## What the local variables tell -/

/-- The loops are before attempt `f.attempt` at the group `v`: no group before it serves, and
whether `v` serves, and what it abandons, is for the attempts from this one on to tell. -/
structure Frame.AtVisit (visits : List Visit) (p : Proxied) (v : Visit) (after : List Visit)
    (f : Frame) : Prop where
  split : ∃ before, visits = before ++ v :: after
  skipped : firstServing visits = firstServing (v :: after)
  target : f.target = v.target
  chain : f.chain = after.map Visit.target
  key : f.modelKey = v.target.routeKey
  serving : v.serving = v.servingFrom (v.target.maxAttempts - f.attempt) f.attempt
  left : v.abandoned = v.leftFrom (v.target.maxAttempts - f.attempt) f.attempt
    (f.response.map Response.contentType)
  turn : f.attempt < v.target.maxAttempts
  goes : f.exhausted = false
  count : f.attempts.length = p.sent.length
  closed : f.openCtxs = []
  owns : f.ownsStream = false
  rows : p.rows = []

/-- An attempt is on its way: its stream context is the last one. -/
structure Frame.Opens (p : Proxied) (v : Visit) (after : List Visit) (i : String) (f : Frame) :
    Prop where
  instance_ : f.instanceId = some i
  outcome : v.outcome f.attempt = .transport i ∨ ∃ s t, v.outcome f.attempt = .answers i s t
  stream : ∃ ctx, f.streamCtx = some ctx ∧ ∃ s ∈ p.sent[ctx]?, s.target = v.target ∧
    s.left = after.length ∧ s.attempt = f.attempt ∧ s.instanceId = i

/-- The response is that of the first group that serves, its stream is open. -/
structure Frame.Serves (visits : List Visit) (p : Proxied) (v : Visit) (left k : Nat) (i : String)
    (r : Response) (f : Frame) : Prop where
  first : firstServing visits = some (v, left, k)
  outcome : v.outcome k = .answers i r.statusCode r.contentType
  response : f.response = some r
  ctx : f.streamCtx = some r.ctx
  opened : f.openCtxs = [r.ctx]
  key : f.modelKey = v.target.routeKey
  instance_ : f.instanceId = some i
  stream : ∃ s ∈ p.sent[r.ctx]?, s.target = v.target ∧ s.left = left ∧ s.attempt = k ∧
    s.instanceId = i
  rows : p.rows = []

/-- The response is left over from the last group. -/
structure Frame.Abandons (visits : List Visit) (r : Response) (f : Frame) : Prop where
  first : firstServing visits = none
  left : ∃ v ∈ visits.getLast?, v.abandoned = some r.contentType
  response : f.response = some r
  ctx : f.streamCtx = none
  closed : f.openCtxs = []
  owns : f.ownsStream = false

/-- The request is answered: by the group that serves, by the router's error, or with the response
that is left over. -/
inductive Settled (visits : List Visit) (p : Proxied) : Option Reply → Prop where
  | served (v : Visit) (left k : Nat) (i : String) (r : Response) (reply : Option Reply)
      (first : firstServing visits = some (v, left, k)) (h : p.Receives v left k reply i r) :
      Settled visits p reply
  | refused (e : HttpException) (first : firstServing visits = none) (h : ¬ LeftOver visits) :
      Settled visits p (some (.error e))
  | abandoned (r : Response) (h : LeftOver visits) : Settled visits p (some (.relay r))

/-- The mark of the serving attempt is the last one. -/
def Proxied.MarksServed (p : Proxied) (v : Visit) (i : String) (r : Response) : Prop :=
  p.marks.getLast? = some ⟨⟨v.target.routeKey, i⟩, decide (r.statusCode < 500)⟩

/-- What is known at a stage. -/
def Stage.Tells (visits : List Visit) (p : Proxied) : Stage → Prop
  | .parsing => p.sent = [] ∧ p.rows = []
  | .selecting f => ∃ v after, f.AtVisit visits p v after ∧ f.streamCtx = none
  | .opening f => ∃ v after i, f.AtVisit visits p v after ∧ f.Opens p v after i
  | .closing f => ∃ ctx g v after, f.streamCtx = some ctx ∧ (f.closed ctx).1 = .selecting g ∧
      g.AtVisit visits p v after
  | .serving f => (∃ v left k i r, f.Serves visits p v left k i r ∧ f.ownsStream = true) ∨
      ∃ r, f.Abandons visits r
  | .reading f => (∃ v left k i r, f.Serves visits p v left k i r ∧ p.MarksServed v i r ∧
      f.ownsStream = true) ∨
      ∃ r, f.Abandons visits r ∧ r.isEventStream = false
  | .recording f => firstServing visits = none ∧ ¬ LeftOver visits ∧ f.ownsStream = false
  | .exiting _ reply | .done reply => Settled visits p reply
  | .handed f | .pulling f | .yielded f | .genClosing f =>
    (∃ v left k i r, f.Serves visits p v left k i r ∧ p.MarksServed v i r) ∨
      ∃ r, f.Abandons visits r ∧ r.isEventStream = true
  | .genRecording f => ∃ v left k i r, f.Serves visits p v left k i r ∧ p.MarksServed v i r

section Steps

variable {visits after : List Visit} {p q : Proxied} {v : Visit} {f g : Frame} {i : String}
  {r : Response} {e : Event} {out : Outcome} {left k n : Nat}

theorem firstServing_cons_none (h : v.serving = none) :
    firstServing (v :: after) = firstServing after := by
  rw [firstServing, h]

theorem firstServing_cons_some (h : v.serving = some k) :
    firstServing (v :: after) = some (v, after.length, k) := by
  rw [firstServing, h]

/-- Whether a response that is left over is served with its status. -/
theorem Frame.Abandons.leftOver_iff (h : f.Abandons visits r) :
    LeftOver visits ↔ r.isEventStream = true := by
  obtain ⟨v, hv, habandoned⟩ := h.left
  unfold LeftOver
  rw [and_iff_right h.first]
  constructor
  · rintro ⟨v', hv', type, htype, hstream⟩
    cases Option.some.inj ((Option.mem_def.mp hv).symm.trans hv')
    rw [habandoned] at htype
    cases htype
    exact hstream
  · intro hstream
    exact ⟨v, hv, r.contentType, habandoned, hstream⟩

theorem not_leftOver_of_abandoned (hlast : visits.getLast? = some v)
    (hnone : v.abandoned = none) : ¬ LeftOver visits := by
  rintro ⟨-, v', hv', type, htype, -⟩
  rw [Option.mem_def, hlast] at hv'
  cases hv'
  rw [hnone] at htype
  cases htype

theorem Frame.AtVisit.visitAt_eq (h : f.AtVisit visits p v after) : visitAt visits f = some v := by
  obtain ⟨before, hsplit⟩ := h.split
  unfold visitAt
  rw [hsplit, h.chain]
  simp

/-- There is one more attempt. -/
theorem Frame.AtVisit.remaining (h : f.AtVisit visits p v after) :
    ∃ n, v.target.maxAttempts - f.attempt = n + 1 ∧ v.target.maxAttempts - (f.attempt + 1) = n := by
  have hturn := h.turn
  exact ⟨v.target.maxAttempts - (f.attempt + 1), by omega, rfl⟩

/-- A group that does not serve is left: for the next one, or with the loops. -/
theorem Frame.leaves {before : List Visit} (hsplit : visits = before ++ v :: after)
    (hskipped : firstServing visits = firstServing (v :: after)) (hnone : v.serving = none)
    (hleft : v.abandoned = g.response.map Response.contentType)
    (hchain : g.chain = after.map Visit.target) (hexhausted : g.exhausted = true)
    (hctx : g.streamCtx = none) (hclosed : g.openCtxs = []) (howns : g.ownsStream = false)
    (hcount : g.attempts.length = q.sent.length) (hrows : q.rows = []) :
    g.afterAttempts.1.Tells visits q := by
  have hrest : firstServing visits = firstServing after :=
    hskipped.trans (firstServing_cons_none hnone)
  unfold Frame.afterAttempts
  rw [hexhausted, hchain]
  cases after with
  | nil =>
    have hlast : visits.getLast? = some v := by rw [hsplit]; simp
    unfold Frame.afterChain
    simp only [Bool.not_true, Bool.and_false, Bool.false_eq_true, if_false, List.map_nil]
    split
    case h_1 r hr =>
      exact .inr ⟨r, hrest, ⟨v, hlast, by rw [hleft, hr]; rfl⟩, hr, hctx, hclosed, howns⟩
    case h_2 hr =>
      unfold Frame.leave
      rw [howns]
      refine Settled.refused _ hrest (not_leftOver_of_abandoned hlast ?_)
      rw [hleft, hr]
      rfl
  | cons v' after =>
    simp only [Bool.not_true, Bool.and_false, Bool.false_eq_true, if_false, List.map_cons]
    refine ⟨v', after, ⟨⟨before ++ [v], ?_⟩, hrest, rfl, rfl, rfl, rfl, rfl, ?_, rfl, hcount,
      hclosed, howns, hrows⟩, hctx⟩
    · rw [hsplit, List.append_assoc, List.singleton_append]
    · exact lt_of_lt_of_le Nat.zero_lt_one (le_max_left _ _)

theorem Frame.AtVisit.refused (h : f.AtVisit visits p v after) {x : HttpException}
    (hout : v.outcome f.attempt = .refused x) : v.serving = none ∧
      v.abandoned = f.response.map Response.contentType := by
  obtain ⟨n, hn, -⟩ := h.remaining
  have hserving := h.serving
  have hleft := h.left
  rw [hn] at hserving hleft
  rw [Visit.servingFrom, hout] at hserving
  rw [Visit.leftFrom, hout] at hleft
  exact ⟨hserving, hleft⟩

/-- After a failed attempt: `k` more are permitted, and what is left over is `response`. -/
structure Frame.Failed (v : Visit) (f : Frame) (n : Nat) (response : Option Response) : Prop where
  remaining : n = v.target.maxAttempts - (f.attempt + 1)
  serving : v.serving = v.servingFrom n (f.attempt + 1)
  left : v.abandoned = v.leftFrom n (f.attempt + 1) (response.map Response.contentType)

theorem Frame.AtVisit.transport (h : f.AtVisit visits p v after)
    (hout : v.outcome f.attempt = .transport i) :
    f.Failed v (v.target.maxAttempts - (f.attempt + 1)) f.response := by
  obtain ⟨n, hn, hn'⟩ := h.remaining
  have hserving := h.serving
  have hleft := h.left
  rw [hn] at hserving hleft
  rw [Visit.servingFrom, hout] at hserving
  rw [Visit.leftFrom, hout] at hleft
  exact ⟨rfl, hn' ▸ hserving, hn' ▸ hleft⟩

/-- A response serves, or it is retried. -/
theorem Frame.AtVisit.answers (h : f.AtVisit visits p v after) {code : Nat} {type : String}
    (hout : v.outcome f.attempt = .answers i code type) :
    if 500 ≤ code ∧ f.hasNext = true then
      f.Failed v (v.target.maxAttempts - (f.attempt + 1)) (some (Response.mk n code type))
    else v.serving = some f.attempt := by
  obtain ⟨m, hm, hm'⟩ := h.remaining
  have hserving := h.serving
  have hleft := h.left
  have hturn := h.turn
  have hnext : f.hasNext = true ↔ m ≠ 0 := by
    unfold Frame.hasNext
    rw [h.target, decide_eq_true_eq]
    omega
  rw [hm] at hserving hleft
  rw [Visit.servingFrom, hout] at hserving
  rw [Visit.leftFrom, hout] at hleft
  dsimp only at hserving hleft
  split_ifs with hretry
  · have hfails : ¬ (code < 500 ∨ m = 0) := by
      rw [hnext] at hretry
      omega
    rw [if_neg hfails] at hserving hleft
    exact ⟨rfl, hm' ▸ hserving, hm' ▸ hleft⟩
  · rw [hserving, if_pos]
    rw [hnext] at hretry
    omega

/-- The next attempt at the same group. -/
theorem Frame.AtVisit.next (h : f.AtVisit visits p v after)
    (hfailed : f.Failed v n g.response) (hnext : f.hasNext = true)
    (hsame : g.target = f.target ∧ g.chain = f.chain ∧ g.modelKey = f.modelKey)
    (hattempt : g.attempt = f.attempt + 1) (hgoes : g.exhausted = false)
    (hcount : g.attempts.length = q.sent.length) (hclosed : g.openCtxs = [])
    (howns : g.ownsStream = false) (hrows : q.rows = []) : g.AtVisit visits q v after := by
  obtain ⟨htarget, hchain, hkey⟩ := hsame
  refine ⟨h.split, h.skipped, htarget.trans h.target, hchain.trans h.chain, hkey.trans h.key, ?_,
    ?_, ?_, hgoes, hcount, hclosed, howns, hrows⟩
  · rw [hattempt, ← hfailed.remaining]
    exact hfailed.serving
  · rw [hattempt, ← hfailed.remaining]
    exact hfailed.left
  · unfold Frame.hasNext at hnext
    rw [h.target, decide_eq_true_eq] at hnext
    omega

/-- A selection. -/
theorem Stage.Tells.selecting_step (h : (Stage.selecting f).Tells visits p)
    (he : (Stage.selecting f).Follows visits e) (hout : (Stage.selecting f).step e = some out)
    (hsent : q.sent = p.sent ++ (Stage.selecting f).send e p.body) (hrows : q.rows = p.rows) :
    out.1.Tells visits q := by
  obtain ⟨v, after, hf, hctx⟩ := h
  obtain ⟨v', hv', he⟩ := he
  obtain rfl : v = v' := Option.some.inj (hf.visitAt_eq.symm.trans hv')
  have hselect : ∀ i, e = .select i → (v.outcome f.attempt = .transport i ∨
      ∃ s t, v.outcome f.attempt = .answers i s t) → out.1.Tells visits q := by
    rintro i rfl houtcome
    obtain rfl := Option.some.inj hout
    have hcount : (f.attempts ++ [Attempt.mk ⟨f.modelKey, i⟩ f.model]).length = q.sent.length := by
      rw [hsent, List.length_append, List.length_append, hf.count]
      rfl
    refine ⟨v, after, i, ⟨hf.split, hf.skipped, hf.target, hf.chain, hf.key, hf.serving, hf.left,
      hf.turn, hf.goes, hcount, hf.closed, hf.owns, hrows.trans hf.rows⟩, rfl, houtcome,
      f.attempts.length, rfl, ⟨f.target, f.chain.length, f.attempt, i, p.body⟩, ?_, hf.target,
      ?_, rfl, rfl⟩
    · rw [hsent, hf.count]
      exact List.getElem?_concat_length
    · rw [hf.chain, List.length_map]
  split at he
  case h_1 x hx =>
    subst he
    obtain rfl := Option.some.inj hout
    obtain ⟨before, hsplit⟩ := hf.split
    obtain ⟨hnone, hleft⟩ := hf.refused hx
    have hsent' : q.sent = p.sent := hsent.trans (List.append_nil _)
    exact Frame.leaves hsplit hf.skipped hnone hleft hf.chain rfl hctx hf.closed hf.owns
      (hsent' ▸ hf.count) (hrows.trans hf.rows)
  case h_2 i hi => exact hselect i he (.inl hi)
  case h_3 i s t hi => exact hselect i he (.inr ⟨s, t, hi⟩)

/-- An attempt fails or is answered. -/
theorem Stage.Tells.opening_step (h : (Stage.opening f).Tells visits p)
    (he : (Stage.opening f).Follows visits e) (hout : (Stage.opening f).step e = some out)
    (hsent : q.sent = p.sent) (hrows : q.rows = p.rows) : out.1.Tells visits q := by
  obtain ⟨v, after, i, hf, hopens⟩ := h
  obtain ⟨v', hv', he⟩ := he
  obtain rfl : v = v' := Option.some.inj (hf.visitAt_eq.symm.trans hv')
  have hcount : f.attempts.length = q.sent.length := hsent ▸ hf.count
  have hrows' : q.rows = [] := hrows.trans hf.rows
  split at he
  case h_1 => exact absurd he id
  case h_2 j hj =>
    subst he
    obtain rfl := Option.some.inj hout
    have hfailed := hf.transport hj
    unfold Frame.openFailed
    dsimp only
    split_ifs with hnext
    · exact ⟨v, after, hf.next hfailed hnext ⟨rfl, rfl, rfl⟩ rfl hf.goes hcount hf.closed
        hf.owns hrows', rfl⟩
    · obtain ⟨before, hsplit⟩ := hf.split
      have hlast : v.target.maxAttempts - (f.attempt + 1) = 0 := by
        unfold Frame.hasNext at hnext
        rw [hf.target, decide_eq_true_eq] at hnext
        omega
      have hserving := hfailed.serving
      have hleft := hfailed.left
      rw [hlast] at hserving hleft
      exact Frame.leaves hsplit hf.skipped hserving hleft hf.chain rfl rfl hf.closed hf.owns
        hcount hrows'
  case h_3 j code type hj =>
    subst he
    obtain ⟨ctx, hctx, rfl⟩ := Option.map_eq_some_iff.mp hout
    have hanswers := hf.answers (n := ctx) hj
    obtain rfl : i = j := by
      rcases hopens.outcome with ho | ⟨s, t, ho⟩ <;> rw [hj] at ho <;> cases ho
      rfl
    obtain ⟨ctx', hctx', s, hs, hstream⟩ := hopens.stream
    obtain rfl : ctx = ctx' := Option.some.inj (hctx.symm.trans hctx')
    rw [Frame.opened_eq hf.goes]
    split_ifs at hanswers ⊢ with hretry
    · refine ⟨ctx, _, v, after, hctx, rfl, hf.next hanswers hretry.2 ⟨rfl, rfl, rfl⟩ rfl hf.goes
        hcount ?_ rfl hrows'⟩
      simp [Frame.markFailure, Frame.answered, hf.closed]
    · refine .inl ⟨v, after.length, f.attempt, i, ⟨ctx, code, type⟩, ⟨?_, hj, rfl, hctx, ?_,
        hf.key, hopens.instance_, ⟨s, hsent ▸ hs, hstream⟩, hrows'⟩, rfl⟩
      · rw [hf.skipped, firstServing_cons_some hanswers]
      · rw [Frame.answered, hf.closed]

/-- The row of an answered request. -/
theorem Frame.Serves.record (h : f.Serves visits p v left k i r) :
    recordRequest f (f.response.map Response.statusCode) =
      if v.target.routeKey = "" then [] else [⟨v.target.routeKey, some i, some r.statusCode⟩] := by
  unfold recordRequest
  rw [h.key, h.instance_, h.response]
  rfl

theorem Frame.Serves.readable (h : f.Serves visits p v left k i r) : f.readable = true := by
  unfold Frame.readable
  rw [h.response, h.opened]
  simp

theorem Frame.Abandons.not_readable (h : f.Abandons visits r) : f.readable = false := by
  unfold Frame.readable
  rw [h.response, h.closed]
  rfl

theorem Frame.Serves.congr (h : f.Serves visits p v left k i r) (hsent : q.sent = p.sent)
    (hrows : q.rows = p.rows) (hsame : g.response = f.response ∧ g.streamCtx = f.streamCtx ∧
      g.openCtxs = f.openCtxs ∧ g.modelKey = f.modelKey ∧ g.instanceId = f.instanceId) :
    g.Serves visits q v left k i r := by
  obtain ⟨hresponse, hctx, hopen, hkey, hinstance⟩ := hsame
  exact ⟨h.first, h.outcome, hresponse.trans h.response, hctx.trans h.ctx, hopen.trans h.opened,
    hkey.trans h.key, hinstance.trans h.instance_, hsent ▸ h.stream, hrows.trans h.rows⟩

/-- The response goes to the client. -/
theorem Frame.Serves.settled (h : f.Serves visits p v left k i r) (hmarks : p.MarksServed v i r)
    (hsent : q.sent = p.sent) (hmark : q.marks = p.marks)
    (hrows : q.rows = p.rows ++ recordRequest f (f.response.map Response.statusCode)) :
    Settled visits q f.streamed := by
  refine .served v left k i r _ h.first ⟨?_, h.outcome, hsent ▸ h.stream, hmark ▸ hmarks, ?_⟩
  · unfold Frame.streamed
    rw [h.response]
    rfl
  · rw [hrows, h.rows, h.record, List.nil_append]

/-- The response is served: an event stream is handed to the generator, a body is read. -/
theorem Stage.Tells.serving_step (h : (Stage.serving f).Tells visits p)
    (hout : (Stage.serving f).step .serve = some out) (hsent : q.sent = p.sent)
    (hmarks : q.marks = p.marks ++ (Stage.serving f).mark .serve) (hrows : q.rows = p.rows) :
    out.1.Tells visits q := by
  obtain ⟨r', hr', rfl⟩ := Option.map_eq_some_iff.mp hout
  unfold Frame.serve
  rcases h with ⟨v, left, k, i, r, hf, howns⟩ | ⟨r, hf⟩
  · obtain rfl : r = r' := Option.some.inj (hf.response.symm.trans hr')
    have hmark : q.MarksServed v i r := by
      unfold Proxied.MarksServed
      rw [hmarks, Stage.mark, hf.response]
      simp [Frame.backend, hf.key, hf.instance_]
    split_ifs with hstream
    · exact .inl ⟨v, left, k, i, r, hf.congr hsent hrows ⟨rfl, rfl, rfl, rfl, rfl⟩, hmark⟩
    · exact .inl ⟨v, left, k, i, r, hf.congr hsent hrows ⟨rfl, rfl, rfl, rfl, rfl⟩, hmark, howns⟩
  · obtain rfl : r = r' := Option.some.inj (hf.response.symm.trans hr')
    split_ifs with hstream
    · exact .inr ⟨r, ⟨hf.first, hf.left, hf.response, hf.ctx, hf.closed, rfl⟩, hstream⟩
    · exact .inr ⟨r, ⟨hf.first, hf.left, hf.response, hf.ctx, hf.closed, hf.owns⟩,
        by simpa using hstream⟩

theorem follows_reading : (Stage.reading f).Follows visits e ↔
    if f.readable = true then e = .body else e = .raises := Iff.rfl

theorem follows_pulling : (Stage.pulling f).Follows visits e ↔
    if f.readable = true then e = .chunk ∨ e = .ends else e = .raises := Iff.rfl

theorem follows_genClosing : (Stage.genClosing f).Follows visits e ↔
    if f.streamCtx.isSome = true then e = .closes else e = .raises := Iff.rfl

theorem Stage.Tells.reading_step (h : (Stage.reading f).Tells visits p)
    (he : (Stage.reading f).Follows visits e) (hout : (Stage.reading f).step e = some out)
    (hsent : q.sent = p.sent) (hmarks : q.marks = p.marks ++ (Stage.reading f).mark e)
    (hrows : q.rows = p.rows ++ (Stage.reading f).record e) : out.1.Tells visits q := by
  rcases h with ⟨v, left, k, i, r, hf, hmark, howns⟩ | ⟨r, hf, hstream⟩
  · rw [follows_reading, hf.readable, if_pos rfl] at he
    subst he
    obtain ⟨-, hout⟩ := Option.ite_none_right_eq_some.mp hout
    obtain rfl := Option.some.inj hout
    unfold Frame.leave
    rw [howns, hf.ctx]
    exact hf.settled hmark hsent (hmarks.trans (List.append_nil _)) hrows
  · rw [follows_reading, hf.not_readable, if_neg Bool.false_ne_true] at he
    subst he
    obtain rfl := Option.some.inj hout
    refine ⟨hf.first, ?_, ?_⟩
    · rw [hf.leftOver_iff, hstream]
      exact Bool.false_ne_true
    · split_ifs
      · exact hf.owns
      · exact hf.owns

/-- The stages of the generator, up to its last await. -/
theorem Stage.Tells.generator_step {s : Stage} (h : s.Tells visits p)
    (hs : s = .handed f ∨ s = .pulling f ∨ s = .yielded f ∨ s = .genClosing f)
    (he : s.Follows visits e) (hout : s.step e = some out) (hsent : q.sent = p.sent)
    (hmarks : q.marks = p.marks ++ s.mark e) (hrows : q.rows = p.rows ++ s.record e) :
    out.1.Tells visits q := by
  have hserves : ∀ {v left k i r}, f.Serves visits p v left k i r → p.MarksServed v i r →
      q.marks = p.marks → q.rows = p.rows → f.Serves visits q v left k i r ∧
        q.MarksServed v i r := fun hf hmark hm hr =>
    ⟨hf.congr hsent hr ⟨rfl, rfl, rfl, rfl, rfl⟩, by unfold Proxied.MarksServed; rwa [hm]⟩
  rcases hs with rfl | rfl | rfl | rfl
  · obtain rfl : e = .pull := he
    obtain rfl := Option.some.inj hout
    rcases h with ⟨v, left, k, i, r, hf, hmark⟩ | h
    · exact .inl ⟨v, left, k, i, r, hserves hf hmark (hmarks.trans (List.append_nil _))
        (hrows.trans (List.append_nil _))⟩
    · exact .inr h
  · rcases h with ⟨v, left, k, i, r, hf, hmark⟩ | ⟨r, hf, hstream⟩
    · rw [follows_pulling, hf.readable, if_pos rfl] at he
      rcases he with rfl | rfl
      all_goals
        obtain ⟨-, hout⟩ := Option.ite_none_right_eq_some.mp hout
        obtain rfl := Option.some.inj hout
        exact .inl ⟨v, left, k, i, r, hserves hf hmark (hmarks.trans (List.append_nil _))
          (hrows.trans (List.append_nil _))⟩
    · rw [follows_pulling, hf.not_readable, if_neg Bool.false_ne_true] at he
      subst he
      obtain rfl := Option.some.inj hout
      exact .inr ⟨r, ⟨hf.first, hf.left, hf.response, hf.ctx, hf.closed, hf.owns⟩, hstream⟩
  · obtain rfl : e = .pull := he
    obtain rfl := Option.some.inj hout
    rcases h with ⟨v, left, k, i, r, hf, hmark⟩ | h
    · exact .inl ⟨v, left, k, i, r, hserves hf hmark (hmarks.trans (List.append_nil _))
        (hrows.trans (List.append_nil _))⟩
    · exact .inr h
  · rcases h with ⟨v, left, k, i, r, hf, hmark⟩ | ⟨r, hf, hstream⟩
    · rw [follows_genClosing, hf.ctx, Option.isSome_some, if_pos rfl] at he
      subst he
      obtain ⟨-, hout⟩ := Option.ite_none_right_eq_some.mp hout
      obtain rfl := Option.some.inj hout
      exact ⟨v, left, k, i, r, hserves hf hmark (hmarks.trans (List.append_nil _))
        (hrows.trans (List.append_nil _))⟩
    · rw [follows_genClosing, hf.ctx, Option.isSome_none, if_neg Bool.false_ne_true] at he
      subst he
      obtain rfl := Option.some.inj hout
      unfold Frame.streamed
      rw [hf.response]
      exact .abandoned r (hf.leftOver_iff.mpr hstream)

/-- **What is known at a stage** is kept by every step of an assignment. -/
theorem Proxied.tells_step {path : String} (h : p.request.stage.Tells visits p)
    (he : Follows visits p e) (hstep : p.step path e = some q) :
    q.request.stage.Tells visits q := by
  obtain ⟨out, hout, hstage, -, hsent, -, hmarks, hrows⟩ := Proxied.step_cases hstep
  unfold Follows at he
  rw [hstage]
  cases hs : p.request.stage <;> rw [hs] at h he hout hsent hmarks hrows
  case parsing =>
    obtain ⟨hsent₀, hrows₀⟩ := h
    obtain ⟨t, ts, rfl, hvisits⟩ := he
    obtain rfl := Option.some.inj hout
    have hsent' : q.sent = [] := by rw [hsent, hsent₀]; rfl
    have hrows' : q.rows = [] := by rw [hrows, hrows₀]; rfl
    obtain ⟨v, after, rfl, rfl, rfl⟩ := List.map_eq_cons_iff.mp hvisits
    refine ⟨v, after, ⟨⟨[], rfl⟩, rfl, rfl, rfl, rfl, rfl, rfl, ?_, rfl, ?_, rfl, rfl, hrows'⟩, rfl⟩
    · exact lt_of_lt_of_le Nat.zero_lt_one (le_max_left _ _)
    · rw [hsent']
      rfl
  case selecting f =>
    refine Stage.Tells.selecting_step h he hout hsent (hrows.trans ?_)
    cases e <;> exact List.append_nil _
  case opening f =>
    refine Stage.Tells.opening_step h he hout (hsent.trans ?_) (hrows.trans ?_)
    all_goals cases e <;> exact List.append_nil _
  case closing f =>
    obtain rfl : e = .closes := he
    obtain ⟨ctx, hctx, rfl⟩ := Option.map_eq_some_iff.mp hout
    obtain ⟨ctx', g, v, after, hctx', hg, hf⟩ := h
    obtain rfl : ctx = ctx' := Option.some.inj (hctx.symm.trans hctx')
    have hsent' : q.sent = p.sent := hsent.trans (List.append_nil _)
    have hrows' : q.rows = p.rows := hrows.trans (List.append_nil _)
    have hnone : g.streamCtx = none := by
      cases hg
      rfl
    rw [hg]
    exact ⟨v, after, ⟨hf.split, hf.skipped, hf.target, hf.chain, hf.key, hf.serving, hf.left,
      hf.turn, hf.goes, hsent' ▸ hf.count, hf.closed, hf.owns, hrows'.trans hf.rows⟩, hnone⟩
  case serving f =>
    obtain rfl : e = .serve := he
    exact Stage.Tells.serving_step h hout (hsent.trans (List.append_nil _)) hmarks
      (hrows.trans (List.append_nil _))
  case reading f =>
    refine Stage.Tells.reading_step h he hout (hsent.trans ?_) hmarks hrows
    cases e <;> exact List.append_nil _
  case recording f =>
    obtain rfl : e = .recorded := he
    obtain rfl := Option.some.inj hout
    obtain ⟨hfirst, hleft, howns⟩ := h
    unfold Frame.leave
    rw [howns]
    exact .refused _ hfirst hleft
  case exiting f reply =>
    obtain rfl : e = .closes := he
    obtain rfl := Option.some.inj hout
    have hsent' : q.sent = p.sent := hsent.trans (List.append_nil _)
    have hmarks' : q.marks = p.marks := hmarks.trans (List.append_nil _)
    have hrows' : q.rows = p.rows := hrows.trans (List.append_nil _)
    cases h with
    | served v left k i r reply first hreceives =>
      refine .served v left k i r reply first ⟨hreceives.reply, hreceives.outcome, ?_, ?_, ?_⟩
      · exact hsent' ▸ hreceives.stream
      · exact hmarks' ▸ hreceives.mark
      · exact hrows' ▸ hreceives.row
    | refused e first hleft => exact .refused e first hleft
    | abandoned r hleft => exact .abandoned r hleft
  case handed f =>
    exact Stage.Tells.generator_step h (.inl rfl) he hout
      (hsent.trans (List.append_nil _)) hmarks hrows
  case pulling f =>
    exact Stage.Tells.generator_step h (.inr (.inl rfl)) he hout
      (hsent.trans (List.append_nil _)) hmarks hrows
  case yielded f =>
    exact Stage.Tells.generator_step h (.inr (.inr (.inl rfl))) he hout
      (hsent.trans (List.append_nil _)) hmarks hrows
  case genClosing f =>
    exact Stage.Tells.generator_step h (.inr (.inr (.inr rfl))) he hout
      (hsent.trans (List.append_nil _)) hmarks hrows
  case genRecording f =>
    obtain rfl : e = .recorded := he
    obtain rfl := Option.some.inj hout
    obtain ⟨v, left, k, i, r, hf, hmark⟩ := h
    exact hf.settled hmark (hsent.trans (List.append_nil _)) (hmarks.trans (List.append_nil _))
      hrows
  case done reply => exact absurd he id

end Steps

/-! ## Every run can be finished -/

/-- The attempts that are still permitted, at this group and those after it. -/
def Frame.permitted (f : Frame) : Nat :=
  (f.chain.map Target.maxAttempts).sum + (f.target.maxAttempts - f.attempt)

/-- How far a stage is from the end, a stream that goes on apart. -/
def Stage.rank (visits : List Visit) : Stage → Nat
  | .parsing => 3 * (visits.map fun v => v.target.maxAttempts).sum + 11
  | .selecting f => 3 * f.permitted + 10
  | .opening f => 3 * f.permitted + 9
  | .closing f => 3 * f.permitted + 8
  | .serving _ => 8
  | .reading _ | .handed _ | .yielded _ => 7
  | .pulling _ => 6
  | .recording _ | .genClosing _ => 5
  | .genRecording _ => 4
  | .exiting _ _ => 3
  | .done _ => 0

section Finish

variable {visits after : List Visit} {p : Proxied} {v : Visit} {f : Frame} {s : Stage}

theorem Frame.rank_leave (f : Frame) (reply : Option Reply) : (f.leave reply).1.rank visits ≤ 3 := by
  unfold Frame.leave
  split_ifs
  · exact le_refl _
  · exact Nat.zero_le _

theorem Frame.rank_afterAttempts (f : Frame) :
    f.afterAttempts.1.rank visits ≤ 3 * (f.chain.map Target.maxAttempts).sum + 10 := by
  have hafter : f.afterChain.1.rank visits ≤ 8 := by
    unfold Frame.afterChain
    split
    · exact le_refl _
    · exact (f.rank_leave _).trans (by omega)
  unfold Frame.afterAttempts
  split_ifs
  · omega
  · split
    · omega
    · rename_i t chain hchain
      rw [hchain]
      simp only [Stage.rank, Frame.permitted, Frame.enter, List.map_cons, List.sum_cons]
      omega

theorem Frame.AtVisit.permitted (h : f.AtVisit visits p v after) :
    (f.chain.map Target.maxAttempts).sum + 1 ≤ f.permitted := by
  have hturn := h.turn
  unfold Frame.permitted
  rw [h.target]
  omega

/-- From every stage that a run reaches, the run goes on towards its end. -/
theorem Stage.Tells.progress (h : s.Tells visits p) (hvisits : visits ≠ [])
    (hdone : ∀ reply, s ≠ .done reply) :
    ∃ e out, s.Follows visits e ∧ s.step e = some out ∧
      out.1.rank visits < s.rank visits := by
  cases s with
  | parsing =>
    obtain ⟨v, after, rfl⟩ := List.exists_cons_of_ne_nil hvisits
    refine ⟨.route v.target (after.map Visit.target), _, ⟨_, _, rfl, rfl⟩, rfl, ?_⟩
    simp only [Stage.rank, Frame.permitted, Frame.start, List.map_map, List.map_cons,
      List.sum_cons, Function.comp_def]
    omega
  | done reply => exact absurd rfl (hdone reply)
  | selecting f =>
    obtain ⟨v, after, hf, -⟩ := h
    have hpermitted := hf.permitted
    have hselect : ∀ i, (f.selected i).1.rank visits < (Stage.selecting f).rank visits := fun i => by
      simp only [Frame.selected, Stage.rank, Frame.permitted]
      omega
    cases houtcome : v.outcome f.attempt with
    | refused x =>
      refine ⟨.selectFails x, _, ⟨v, hf.visitAt_eq, by rw [houtcome]⟩, rfl, ?_⟩
      refine (Frame.rank_afterAttempts _).trans_lt ?_
      simp only [Stage.rank]
      omega
    | transport i => exact ⟨.select i, _, ⟨v, hf.visitAt_eq, by rw [houtcome]⟩, rfl, hselect i⟩
    | answers i s t => exact ⟨.select i, _, ⟨v, hf.visitAt_eq, by rw [houtcome]⟩, rfl, hselect i⟩
  | opening f =>
    obtain ⟨v, after, i, hf, hopens⟩ := h
    have hpermitted := hf.permitted
    rcases hopens.outcome with houtcome | ⟨code, type, houtcome⟩
    · refine ⟨.raises, _, ⟨v, hf.visitAt_eq, by rw [houtcome]⟩, rfl, ?_⟩
      unfold Frame.openFailed
      dsimp only
      split_ifs with hnext
      · unfold Frame.hasNext at hnext
        rw [decide_eq_true_eq] at hnext
        simp only [Stage.rank, Frame.permitted, Frame.markFailure]
        omega
      · refine (Frame.rank_afterAttempts _).trans_lt ?_
        simp only [Stage.rank, Frame.markFailure]
        omega
    · obtain ⟨ctx, hctx, -⟩ := hopens.stream
      refine ⟨.opens code type, _, ⟨v, hf.visitAt_eq, by rw [houtcome]⟩,
        Option.map_eq_some_iff.mpr ⟨ctx, hctx, rfl⟩, ?_⟩
      rw [Frame.opened_eq hf.goes]
      split_ifs
      · simp only [Stage.rank, Frame.permitted, Frame.markFailure, Frame.answered]
        omega
      · simp only [Stage.rank]
        omega
  | closing f =>
    obtain ⟨ctx, g, v, after, hctx, hg, hf⟩ := h
    refine ⟨.closes, _, rfl, Option.map_eq_some_iff.mpr ⟨ctx, hctx, rfl⟩, ?_⟩
    have hturn := hf.turn
    have htarget := hf.target
    cases hg
    rw [← htarget] at hturn
    simp only [Frame.closed, Stage.rank, Frame.permitted] at hturn ⊢
    omega
  | serving f =>
    have hresponse : ∃ r, f.response = some r := by
      rcases h with ⟨v, left, k, i, r, hf, -⟩ | ⟨r, hf⟩
      · exact ⟨r, hf.response⟩
      · exact ⟨r, hf.response⟩
    obtain ⟨r, hr⟩ := hresponse
    refine ⟨.serve, _, rfl, Option.map_eq_some_iff.mpr ⟨r, hr, rfl⟩, ?_⟩
    unfold Frame.serve
    split_ifs <;> exact Nat.lt_of_sub_eq_succ rfl
  | reading f =>
    rcases h with ⟨v, left, k, i, r, hf, -⟩ | ⟨r, hf, -⟩
    · refine ⟨.body, f.leave f.streamed, ?_, if_pos hf.readable, ?_⟩
      · rw [follows_reading, hf.readable, if_pos rfl]
      · exact (f.rank_leave _).trans_lt (Nat.lt_of_sub_eq_succ rfl)
    · refine ⟨.raises, f.unexpected, ?_, rfl, Nat.lt_of_sub_eq_succ rfl⟩
      rw [follows_reading, hf.not_readable, if_neg Bool.false_ne_true]
  | recording f =>
    exact ⟨.recorded, _, rfl, rfl, (f.rank_leave _).trans_lt (Nat.lt_of_sub_eq_succ rfl)⟩
  | exiting f reply => exact ⟨.closes, _, rfl, rfl, Nat.lt_of_sub_eq_succ rfl⟩
  | handed f => exact ⟨.pull, _, rfl, rfl, Nat.lt_of_sub_eq_succ rfl⟩
  | yielded f => exact ⟨.pull, _, rfl, rfl, Nat.lt_of_sub_eq_succ rfl⟩
  | pulling f =>
    rcases h with ⟨v, left, k, i, r, hf, -⟩ | ⟨r, hf, -⟩
    · refine ⟨.ends, f.genLeave, ?_, if_pos hf.readable, Nat.lt_of_sub_eq_succ rfl⟩
      rw [follows_pulling, hf.readable, if_pos rfl]
      exact .inr rfl
    · refine ⟨.raises, f.markFailure.genLeave, ?_, rfl, Nat.lt_of_sub_eq_succ rfl⟩
      rw [follows_pulling, hf.not_readable, if_neg Bool.false_ne_true]
  | genClosing f =>
    rcases h with ⟨v, left, k, i, r, hf, -⟩ | ⟨r, hf, -⟩
    · have hsome : f.streamCtx.isSome = true := by rw [hf.ctx]; rfl
      refine ⟨.closes, (.genRecording f, []), ?_, if_pos hsome, Nat.lt_of_sub_eq_succ rfl⟩
      rw [follows_genClosing, if_pos hsome]
    · refine ⟨.raises, (.done f.streamed, []), ?_, rfl, Nat.lt_of_sub_eq_succ rfl⟩
      rw [follows_genClosing, hf.ctx, Option.isSome_none, if_neg Bool.false_ne_true]
  | genRecording f => exact ⟨.recorded, _, rfl, rfl, Nat.lt_of_sub_eq_succ rfl⟩

theorem Proxied.exists_step (path : String) {e : Event} {out : Outcome}
    (h : p.request.stage.step e = some out) :
    ∃ q, p.step path e = some q ∧ q.request.stage = out.1 := by
  unfold Proxied.step Request.step
  rw [h]
  exact ⟨_, rfl, rfl⟩

/-- A run of an assignment can be finished wherever it stands. -/
theorem finishes {path : String} (h : p.request.stage.Tells visits p) (hvisits : visits ≠ []) :
    ∃ q reply, Reach (Proxied.step path) (Follows visits) p q ∧ q.request.stage = .done reply := by
  generalize hn : p.request.stage.rank visits = n
  induction n using Nat.strong_induction_on generalizing p with
  | _ n ih =>
    by_cases hdone : ∃ reply, p.request.stage = .done reply
    · obtain ⟨reply, hreply⟩ := hdone
      exact ⟨p, reply, Reach.refl, hreply⟩
    · obtain ⟨e, out, he, hout, hrank⟩ := h.progress hvisits fun reply hr => hdone ⟨reply, hr⟩
      have hfollows : Follows visits p e := he
      obtain ⟨q, hq, hstage⟩ := Proxied.exists_step path hout
      have hless : q.request.stage.rank visits < n := by
        rw [hstage, ← hn]
        exact hrank
      obtain ⟨r, reply, hr, hreply⟩ := ih _ hless (Proxied.tells_step h hfollows hq) rfl
      exact ⟨r, reply, (Reach.refl.tail hfollows hq).trans hr, hreply⟩

end Finish

theorem tells_start {visits : List Visit} {body : Dict Json} :
    (Proxied.request { body := body }).stage.Tells visits { body := body } := ⟨rfl, rfl⟩

/-- **The client gets what the specification says** exactly when no response is left over: every
assignment has a finished run, and in each one the answer is that of the first group that serves,
or the router's own error. -/
theorem honest_iff (visits : List Visit) (path : String) (body : Dict Json) (h : visits ≠ []) :
    (∃ p reply, Reach (Proxied.step path) (Follows visits) { body := body } p ∧
      p.request.stage = .done reply) ∧
    ∀ p reply, Reach (Proxied.step path) (Follows visits) { body := body } p →
      p.request.stage = .done reply → (p.Honest visits reply ↔ ¬ LeftOver visits) := by
  refine ⟨finishes tells_start h, fun p reply hreach hdone => ?_⟩
  have htells : p.request.stage.Tells visits p := by
    refine hreach.invariant (I := fun p => p.request.stage.Tells visits p) tells_start ?_
    exact fun hp he hstep => Proxied.tells_step hp he hstep
  rw [hdone] at htells
  unfold Proxied.Honest
  cases htells with
  | served v left k i r reply first hreceives =>
    rw [first]
    refine iff_of_true ⟨i, r, hreceives⟩ fun hleft => ?_
    rw [hleft.1] at first
    cases first
  | refused e first hleft =>
    rw [first]
    exact iff_of_true ⟨e, rfl⟩ hleft
  | abandoned r hleft =>
    rw [hleft.1]
    refine iff_of_false ?_ (not_not.mpr hleft)
    rintro ⟨e, he⟩
    cases he

/-- A group of two instances: the first answers an event stream with 502 and is closed, then no
instance is left to select. -/
def asleepAfterRetry : Visit where
  target := ⟨"m", "tag", ["a", "b"]⟩
  outcome
    | 0 => .answers "a" 502 "text/event-stream"
    | _ => .refused ⟨503, "All instances of model 'm' are asleep."⟩

/-- The client gets the status of the abandoned attempt. -/
theorem relays_abandoned : ¬ ∀ (visits : List Visit) (path : String) (body : Dict Json)
    (p : Proxied) (reply : Option Reply),
    Reach (Proxied.step path) (Follows visits) { body := body } p →
      p.request.stage = .done reply → p.Honest visits reply := by
  intro h
  let events : List Event := [.route ⟨"m", "tag", ["a", "b"]⟩ [], .select "a",
    .opens 502 "text/event-stream", .closes,
    .selectFails ⟨503, "All instances of model 'm' are asleep."⟩, .serve, .pull, .raises, .raises]
  have hrun : run (Proxied.step "/v1/completions") { body := [] } events = some _ := rfl
  have halong : Along (Proxied.step "/v1/completions") (Follows [asleepAfterRetry])
      { body := [] } events := by
    refine ⟨⟨_, _, rfl, rfl⟩, fun _ h₁ => Option.some.inj h₁ ▸ ?_⟩
    refine ⟨⟨asleepAfterRetry, rfl, rfl⟩, fun _ h₂ => Option.some.inj h₂ ▸ ?_⟩
    refine ⟨⟨asleepAfterRetry, rfl, rfl⟩, fun _ h₃ => Option.some.inj h₃ ▸ ?_⟩
    refine ⟨rfl, fun _ h₄ => Option.some.inj h₄ ▸ ?_⟩
    refine ⟨⟨asleepAfterRetry, rfl, rfl⟩, fun _ h₅ => Option.some.inj h₅ ▸ ?_⟩
    refine ⟨rfl, fun _ h₆ => Option.some.inj h₆ ▸ ?_⟩
    refine ⟨rfl, fun _ h₇ => Option.some.inj h₇ ▸ ?_⟩
    refine ⟨rfl, fun _ h₈ => Option.some.inj h₈ ▸ ?_⟩
    exact ⟨rfl, fun _ _ => trivial⟩
  obtain ⟨e, he⟩ := h [asleepAfterRetry] _ _ _ _ (Reach.of_guarded_run hrun halong) rfl
  cases he

/-- The first group cannot be reached, the second one answers. -/
def deadThenServing : List Visit :=
  [⟨⟨"m", "tag", ["a"]⟩, fun _ => .transport "a"⟩,
    ⟨⟨"n", "tag", ["b"]⟩, fun _ => .answers "b" 200 "application/json"⟩]

/-- The client gets the answer of the second group. -/
theorem honest_fallback : ∃ p reply,
    Reach (Proxied.step "/v1/completions") (Follows deadThenServing) { body := [] } p ∧
      p.request.stage = .done reply ∧ p.Honest deadThenServing reply := by
  obtain ⟨⟨p, reply, hreach, hdone⟩, hall⟩ :=
    honest_iff deadThenServing "/v1/completions" [] (by simp [deadThenServing])
  refine ⟨p, reply, hreach, hdone, (hall p reply hreach hdone).mpr fun hleft => ?_⟩
  exact absurd hleft.1 (by simp [firstServing, deadThenServing, Visit.serving, Visit.servingFrom,
    Target.maxAttempts])

end Llmops.Router
