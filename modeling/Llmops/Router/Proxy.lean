import Llmops.Lib.Run
import Llmops.Lib.Tally

/-!
# One proxied request

`_proxy_to_backend` (`router.py:333-576`) and the in-flight counters
(`backend_runtime_state.py:7-27`). A request stands at one of the awaits of the handler, or at one
of the awaits of the generator that streams the answer; an `Event` is what the await brings, and
what the code does up to the next await is one function of the `Frame`, the local variables.
`serving` is the point after the chain loop where there is a response to serve; no await stands
there.

The route chain is given with the event `route`: what the body, the model lookup and
`build_route_chain` come to. So is each outcome of `select_instance`. Of the forwarded body the
frame has the `model` field, the only one that the loops write. A request notes what it did: its
attempts, the changes of its in-flight count, the health marks it set. Left out are the headers,
the bytes of a body, the cooldowns and the rows of the request log.
-/

namespace Llmops.Router

open Llmops.Lib

/-! ## In-flight counters -/

/-- A group and one of its instances. -/
structure Backend where
  modelKey : String
  instanceId : String
  deriving DecidableEq, Repr

/-- `make_backend_key`. -/
def makeBackendKey (b : Backend) : String := b.modelKey ++ "::" ++ b.instanceId

/-- `app.state.backend_inflight`. -/
abbrev Inflight := Tally String

/-- `get_inflight`. -/
def getInflight (inflight : Inflight) (b : Backend) : Nat := inflight.get (makeBackendKey b)

/-- `incr_inflight`. -/
def incrInflight (inflight : Inflight) (b : Backend) : Inflight := inflight.incr (makeBackendKey b)

/-- `decr_inflight`. -/
def decrInflight (inflight : Inflight) (b : Backend) : Inflight := inflight.decr (makeBackendKey b)

/-- What a request did to its count, applied: `take` is `incr_inflight`, `give` is
`decr_inflight`. -/
def applyChange (inflight : Inflight) : Change Backend → Inflight
  | .take b => incrInflight inflight b
  | .give b => decrInflight inflight b

/-! ## The local variables -/

/-- One target of the route chain: the group, its roster, and the name to forward. -/
structure Target where
  routeKey : String
  forwardName : String
  instances : List String
  deriving DecidableEq, Repr

/-- `max_attempts`: one for each instance of the roster, at most three, at least one. -/
def Target.maxAttempts (t : Target) : Nat := max 1 (min t.instances.length 3)

/-- An upstream response, with the stream context that opened it. -/
structure Response where
  ctx : Nat
  statusCode : Nat
  contentType : String
  deriving DecidableEq, Repr

/-- `"text/event-stream" in content_type`. -/
def Response.isEventStream (r : Response) : Bool :=
  decide ("text/event-stream".toList <:+: r.contentType.toList)

/-- `HTTPException`. -/
structure HttpException where
  statusCode : Nat
  detail : String
  deriving DecidableEq, Repr

/-- What the handler answers with: the upstream response, relayed, or its own error. -/
inductive Reply where
  | relay (r : Response)
  | error (e : HttpException)
  deriving DecidableEq, Repr

/-- One `client.stream` call: the backend and the `model` field of the body. Its index is the
number of its stream context. -/
structure Attempt where
  backend : Backend
  model : String
  deriving DecidableEq, Repr

/-- A health mark: `mark_backend_success` or `mark_backend_failure`. -/
structure Mark where
  backend : Backend
  healthy : Bool
  deriving DecidableEq, Repr

/-- The local variables of `_proxy_to_backend` from the chain loop on; `chain` has the targets
after the current one. The last three fields are what the request did upstream: its attempts, the
stream contexts that are open, the marks. -/
structure Frame where
  target : Target
  chain : List Target
  modelKey : String
  model : String
  attempt : Nat := 0
  tried : List String := []
  instanceId : Option String := none
  response : Option Response := none
  streamCtx : Option Nat := none
  ownsStream : Bool := false
  inflightCounted : Bool := false
  exhausted : Bool := false
  lastExc : Option HttpException := none
  attempts : List Attempt := []
  openCtxs : List Nat := []
  marks : List Mark := []
  deriving DecidableEq, Repr

/-- Where a request is. The first group of stages are awaits of the handler, up to `exiting`, the
`__aexit__` of its `finally`; from `handed` on the generator has the response: `handed` before its
first pull, `pulling` at the next chunk, `yielded` at the `yield`, then the two awaits of its
`finally`. -/
inductive Stage where
  | parsing
  | selecting (f : Frame)
  | opening (f : Frame)
  | closing (f : Frame)
  | serving (f : Frame)
  | reading (f : Frame)
  | recording (f : Frame)
  | exiting (f : Frame) (reply : Option Reply)
  | handed (f : Frame)
  | pulling (f : Frame)
  | yielded (f : Frame)
  | genClosing (f : Frame)
  | genRecording (f : Frame)
  | done (reply : Option Reply)
  deriving DecidableEq, Repr

/-- What an await brings. `raises` is an exception there (at `opening` the transport error of an
attempt); `cancel` is a cancellation of the task or a disconnect of the client, and at a stage of
the generator its being closed or dropped. -/
inductive Event where
  | route (target : Target) (chain : List Target)
  | refuse (e : HttpException)
  | select (instanceId : String)
  | selectFails (e : HttpException)
  | opens (statusCode : Nat) (contentType : String)
  | closes
  | serve
  | body
  | recorded
  | pull
  | chunk
  | ends
  | raises
  | cancel
  deriving DecidableEq, Repr

/-- Where the code goes next, and what it did to the in-flight counters on the way. -/
abbrev Outcome := Stage × List (Change Backend)

namespace Frame

/-- `(model_key, instance_id)`, the names the counters and the marks are called with. -/
def backend (f : Frame) : Backend := ⟨f.modelKey, f.instanceId.getD "None"⟩

/-- `mark_backend_failure`. -/
def markFailure (f : Frame) : Frame := { f with marks := f.marks ++ [⟨f.backend, false⟩] }

/-- `attempt < max_attempts - 1`. -/
def hasNext (f : Frame) : Bool := f.attempt + 1 < f.target.maxAttempts

/-- The head of the chain loop, for the next target. -/
def enter (f : Frame) (t : Target) (chain : List Target) : Frame :=
  { f with
    target := t, chain := chain, modelKey := t.routeKey, model := t.forwardName, attempt := 0
    tried := [], response := none, exhausted := false }

/-- The first target. -/
def start (t : Target) (chain : List Target) : Frame where
  target := t
  chain := chain
  modelKey := t.routeKey
  model := t.forwardName

/-- `if inflight_counted: decr_inflight(..)`. -/
def giveCounted (f : Frame) : List (Change Backend) :=
  if f.inflightCounted then [.give f.backend] else []

/-- The `finally` of the handler, up to its `__aexit__` where it owns a stream. -/
def leave (f : Frame) (reply : Option Reply) : Outcome :=
  if f.ownsStream && f.streamCtx.isSome then (.exiting f reply, []) else (.done reply, f.giveCounted)

/-- After the chain loop: without a response, `raise last_exc or HTTPException(503, ..)`. -/
def afterChain (f : Frame) : Outcome :=
  match f.response with
  | some _ => (.serving f, [])
  | none => f.leave (some (.error (f.lastExc.getD ⟨503, "All backends unavailable"⟩)))

/-- After the attempts at one target: served, or on to the next fallback group. -/
def afterAttempts (f : Frame) : Outcome :=
  if f.response.isSome && !f.exhausted then f.afterChain
  else
    match f.chain with
    | [] => f.afterChain
    | t :: chain => (.selecting (f.enter t chain), [])

/-- `select_instance` raised: the group is exhausted. -/
def selectFailed (f : Frame) (e : HttpException) : Outcome :=
  { f with lastExc := some e, exhausted := true }.afterAttempts

/-- `select_instance` returned an instance: count it in and open the stream. -/
def selected (f : Frame) (instanceId : String) : Outcome :=
  let f := { f with
    instanceId := some instanceId, tried := instanceId :: f.tried, inflightCounted := true
    streamCtx := some f.attempts.length
    attempts := f.attempts ++ [⟨⟨f.modelKey, instanceId⟩, f.model⟩] }
  (.opening f, [.take f.backend])

/-- A transport error: fail over to another instance, after the last attempt to the next group. -/
def openFailed (f : Frame) : Outcome :=
  let g := { f.markFailure with inflightCounted := false, streamCtx := none }
  if f.hasNext then (.selecting { g with attempt := f.attempt + 1 }, [.give f.backend])
  else
    let out := { g with
      lastExc := some ⟨503, "All backends unavailable"⟩, exhausted := true
      response := none }.afterAttempts
    (out.1, .give f.backend :: out.2)

/-- A response: a 5xx before the last attempt is closed for a failover. -/
def opened (f : Frame) (ctx statusCode : Nat) (contentType : String) : Outcome :=
  let f := { f with
    response := some ⟨ctx, statusCode, contentType⟩, ownsStream := true
    openCtxs := ctx :: f.openCtxs }
  if 500 ≤ statusCode && f.hasNext then (.closing f.markFailure, [])
  else f.afterAttempts

/-- The stream of the 5xx is closed. `response` is not reset. -/
def closed (f : Frame) (ctx : Nat) : Outcome :=
  (.selecting { f with
    ownsStream := false, streamCtx := none, inflightCounted := false, attempt := f.attempt + 1
    openCtxs := f.openCtxs.erase ctx }, [.give f.backend])

/-- The serving stage: hand an event stream off to the generator, or read the body. -/
def serve (f : Frame) (r : Response) : Outcome :=
  let f := { f with marks := f.marks ++ [⟨f.backend, decide (r.statusCode < 500)⟩] }
  if r.isEventStream then (.handed { f with ownsStream := false, inflightCounted := false }, [])
  else (.reading f, [])

/-- The `except Exception` of the handler, up to its `_record_request`. -/
def unexpected (f : Frame) : Outcome :=
  (.recording (if f.instanceId.isSome then f.markFailure else f), [])

/-- The `finally` of the generator, up to its `__aexit__`. -/
def genLeave (f : Frame) : Outcome := (.genClosing f, [.give f.backend])

/-- The reply once the generator is done. -/
def streamed (f : Frame) : Option Reply := f.response.map Reply.relay

/-- The response can still be read: its stream context is open. -/
def readable (f : Frame) : Bool := f.response.any fun r => r.ctx ∈ f.openCtxs

end Frame

/-- What the code does from one await to the next. -/
def Stage.step : Stage → Event → Option Outcome
  | .parsing, .route target chain => some (.selecting (.start target chain), [])
  | .parsing, .refuse e => some (.done (some (.error e)), [])
  | .parsing, .cancel => some (.done none, [])
  | .selecting f, .select instanceId => some (f.selected instanceId)
  | .selecting f, .selectFails e => some (f.selectFailed e)
  | .selecting f, .raises => some f.unexpected
  | .opening f, .opens statusCode contentType =>
    f.streamCtx.map fun ctx => f.opened ctx statusCode contentType
  | .opening f, .raises => some f.openFailed
  | .closing f, .closes => f.streamCtx.map f.closed
  | .closing f, .raises => some f.unexpected
  | .serving f, .serve => f.response.map f.serve
  | .reading f, .body => if f.readable then some (f.leave f.streamed) else none
  | .reading f, .raises => some f.unexpected
  | .recording f, .recorded => some (f.leave (some (.error ⟨500, "Internal server error"⟩)))
  | .exiting f reply, .closes => some (.done reply, f.giveCounted)
  -- an `__aexit__` that raises leaves the `finally` before the decrement
  | .exiting _ _, .raises | .exiting _ _, .cancel => some (.done none, [])
  | .handed f, .pull => some (.pulling f, [])
  -- a generator that was never started has no `finally` to run
  | .handed _, .cancel => some (.done none, [])
  | .pulling f, .chunk => if f.readable then some (.yielded f, []) else none
  | .pulling f, .ends => if f.readable then some f.genLeave else none
  | .pulling f, .raises => some f.markFailure.genLeave
  | .pulling f, .cancel | .yielded f, .cancel => some f.genLeave
  | .yielded f, .pull => some (.pulling f, [])
  | .genClosing f, .closes => if f.streamCtx.isSome then some (.genRecording f, []) else none
  | .genClosing f, .raises | .genClosing f, .cancel => some (.done f.streamed, [])
  | .genRecording f, .recorded | .genRecording f, .cancel => some (.done f.streamed, [])
  | .selecting f, .cancel | .opening f, .cancel | .closing f, .cancel | .reading f, .cancel
  | .recording f, .cancel => some (f.leave none)
  | _, _ => none

/-- A request: where it is, and what it did to the in-flight counters. -/
@[ext]
structure Request where
  stage : Stage := .parsing
  changes : List (Change Backend) := []
  deriving DecidableEq, Repr

/-- One step of one request. -/
def Request.step (q : Request) (e : Event) : Option Request :=
  (q.stage.step e).map fun out => ⟨out.1, q.changes ++ out.2⟩

end Llmops.Router
