import Llmops.Lib.JsonText
import Llmops.Router.Models
import Llmops.Router.Select
import Llmops.Router.Serve

/-!
# What a request sends upstream

The head of `_proxy_to_backend` (`router.py:344-389`), and beside its loops the dictionary that they
send: `request_json` is one dictionary, written in place at the head of the chain loop and read by
every attempt. A `Proxied` notes what was sent, what answered, and the rows of the request log; the
events are the ones of a request (`Request.step`), with the outcomes of `select_instance`.

* `walks_of_reach`: whatever the upstreams do, the attempts walk the route chain in order, at one
  position of the chain each goes to another instance of the roster and there are at most three,
  each carries the `model` field of its target, and none follows an answer below 500;
* `bounded_of_reach`: so the bounds hold for the groups, as long as no attempt goes to a group that
  was attempted at an earlier position. `fresh_of_straight`: none does where the fallback list has
  no way back.
* `attempts_twice`: the run that does.
-/

namespace Llmops.Router

open Lib

/-! ## The body -/

/-- `_CHAT_ONLY_PATHS`. -/
def chatOnlyPaths : List String :=
  ["/v1/chat/completions", "/v1/completions", "/v1/messages", "/v1/messages/count_tokens"]

/-- `_OPENAI_STREAM_PATHS`. -/
def openaiStreamPaths : List String := ["/v1/chat/completions", "/v1/completions"]

/-- A resolved model as a target of the loops. -/
def Resolved.target (r : Resolved) : Target := ⟨r.routeKey, r.forwardName, r.modelCfg.instances⟩

/-- The head of `_proxy_to_backend`: the route chain of a body, or the error. A list or a dictionary
under `model` cannot be looked up, which is the unexpected error; a number or `true` is no name. -/
def RouterConfig.accept (c : RouterConfig) (path : String) (body : Dict Json) :
    Except HttpException (Target × List Target) :=
  let requested := (body.get "model").getD .null
  if !requested.truthy then .error ⟨400, "Missing 'model' field in request body"⟩
  else
    match requested with
    | .arr _ | .obj _ => .error ⟨500, "Internal server error"⟩
    | .str requested =>
      match c.resolveModel requested with
      | none => .error ⟨404, "Model '" ++ requested ++ "' not found."⟩
      | some resolved =>
        if path ∈ chatOnlyPaths ∧ resolved.kind ≠ "chat" then
          .error ⟨404, "Model '" ++ requested ++ "' is a pooling model (kind=" ++ resolved.kind ++
            "); use /v1/embeddings or /v1/rerank."⟩
        else .ok (resolved.target, (c.buildRouteChain resolved).tail.map Resolved.target)
    | requested => .error ⟨404, "Model '" ++ pyStr (fun _ => true) requested ++ "' not found."⟩

/-- The injection of `stream_options`: for a streaming request to an OpenAI path. -/
def includeUsage (path : String) (body : Dict Json) : Dict Json :=
  if path ∈ openaiStreamPaths ∧ (body.get "stream").any Json.truthy then
    let opts := ((body.get "stream_options").bind Json.asObj).getD []
    body.set "stream_options" (.obj (opts.setDefault "include_usage" (.bool true)))
  else body

/-! ## The requests sent -/

/-- One attempt: its target, how many targets come after that, the number of the attempt there, and
what is sent. -/
structure Sent where
  target : Target
  left : Nat
  attempt : Nat
  instanceId : String
  body : Dict Json

/-- `(model_key, instance_id)` of an attempt. -/
def Sent.backend (s : Sent) : Backend := ⟨s.target.routeKey, s.instanceId⟩

/-- A row of the request log: what `_record_request` gets of it here. -/
structure LogRow where
  modelKey : String
  instanceId : Option String
  statusCode : Option Nat
  deriving DecidableEq, Repr

/-- A request with its `request_json`, and what it did: the attempts, the status of each answer with
the number of attempts made by then, the health marks, and the rows for the request log. -/
structure Proxied where
  request : Request := {}
  body : Dict Json
  sent : List Sent := []
  answers : List (Nat × Nat) := []
  marks : List Mark := []
  rows : List LogRow := []

/-- `request_json` after a step: the injection before the loops, and the `model` field at the head
of the chain loop (between two attempts at one target it is what it was). -/
def Stage.writeBody (path : String) (s : Stage) (e : Event) (s' : Stage) (body : Dict Json) :
    Dict Json :=
  let body := match s, e with
    | .parsing, .route _ _ => includeUsage path body
    | _, _ => body
  match s' with
  | .selecting f => body.set "model" (.str f.model)
  | _ => body

/-- The attempt of a step. -/
def Stage.send (s : Stage) (e : Event) (body : Dict Json) : List Sent :=
  match s, e with
  | .selecting f, .select i => [⟨f.target, f.chain.length, f.attempt, i, body⟩]
  | _, _ => []

/-- The answer of a step, after so many attempts. -/
def Stage.answer (s : Stage) (e : Event) (attempts : Nat) : List (Nat × Nat) :=
  match s, e with
  | .opening _, .opens statusCode _ => [(attempts, statusCode)]
  | _, _ => []

/-- The health mark of a step: of an attempt that failed or is retried, of the response that is
served, and of an unexpected error. -/
def Stage.mark (s : Stage) (e : Event) : List Mark :=
  match s, e with
  | .opening f, .opens statusCode _ =>
    if 500 ≤ statusCode ∧ f.hasNext = true then [⟨f.backend, false⟩] else []
  | .opening f, .raises | .pulling f, .raises => [⟨f.backend, false⟩]
  | .serving f, .serve => (f.response.map fun r => ⟨f.backend, decide (r.statusCode < 500)⟩).toList
  | .selecting f, .raises | .closing f, .raises | .reading f, .raises =>
    if f.instanceId.isSome then [⟨f.backend, false⟩] else []
  | _, _ => []

/-- `_record_request`, which does nothing without a model key. -/
def recordRequest (f : Frame) (statusCode : Option Nat) : List LogRow :=
  if f.modelKey = "" then [] else [⟨f.modelKey, f.instanceId, statusCode⟩]

/-- The rows of a step: in the background once a body is read, in the `finally` of the generator,
and in the `except Exception`. -/
def Stage.record (s : Stage) (e : Event) : List LogRow :=
  match s, e with
  | .reading f, .body => recordRequest f (f.response.map Response.statusCode)
  | .genRecording f, .recorded => recordRequest f (f.response.map Response.statusCode)
  | .recording f, .recorded => recordRequest f none
  | _, _ => []

/-- One step of a request, with what it sends and notes. -/
def Proxied.step (path : String) (p : Proxied) (e : Event) : Option Proxied :=
  (p.request.step e).map fun q =>
    { request := q
      body := p.request.stage.writeBody path e q.stage p.body
      sent := p.sent ++ p.request.stage.send e p.body
      answers := p.answers ++ p.request.stage.answer e p.sent.length
      marks := p.marks ++ p.request.stage.mark e
      rows := p.rows ++ p.request.stage.record e }

section Guard

variable (S : Type) [Add S] [Mul S] [NatCast S] [LT S] [DecidableLT S] [LE S] [DecidableLE S]

/-- A call of `select_instance` at the loops: any state of the router, any strategy. -/
def Frame.Selects (f : Frame) (result : Except SelectError String) : Prop :=
  ∃ call : SelectCall S, call.modelKey = f.modelKey ∧ call.instances = f.target.instances ∧
    call.exclude = some f.tried ∧ call.selectInstance.1 = result

/-- The events that the code brings: the route chain of the body, and what `select_instance` comes
to (what else it raises is among the exceptions). The other events are the upstreams' and the
client's. -/
def RouterConfig.Allowed (c : RouterConfig) (path : String) (p : Proxied) (e : Event) : Prop :=
  match p.request.stage, e with
  | .parsing, .route target chain => c.accept path p.body = .ok (target, chain)
  | .parsing, .refuse x => c.accept path p.body = .error x
  | .selecting f, .select i => f.Selects S (.ok i)
  | .selecting f, .selectFails x => f.Selects S (.error (.http x))
  | _, _ => True

end Guard

/-- The attempt goes to a group that was attempted at this position of the chain only. -/
def Proxied.Fresh (p : Proxied) (e : Event) : Prop :=
  ∀ new ∈ p.request.stage.send e p.body, ∀ s ∈ p.sent,
    s.target.routeKey = new.target.routeKey → s.left = new.left

instance (p : Proxied) (e : Event) : Decidable (p.Fresh e) :=
  inferInstanceAs (Decidable (∀ new ∈ p.request.stage.send e p.body, ∀ s ∈ p.sent,
    s.target.routeKey = new.target.routeKey → s.left = new.left))

/-! ## The attempts walk the chain -/

/-- **What is sent walks the chain**: position by position, at each one at most three attempts, each
at another instance of the roster, with the model of the target and the other fields of `base`. -/
structure WalksChain (base : Dict Json) (targets : List Target) (sent : List Sent) : Prop where
  placed : ∀ s ∈ sent, ∃ rest, s.target :: rest <:+ targets ∧ rest.length = s.left
  ordered : sent.Pairwise fun a b => b.left ≤ a.left
  apart : sent.Pairwise fun a b => a.left = b.left → a.instanceId ≠ b.instanceId
  roster : ∀ s ∈ sent, s.instanceId ∈ s.target.instances
  bound : ∀ s ∈ sent, sent.countP (fun a => a.left = s.left) ≤ min s.target.instances.length 3
  bodies : ∀ s ∈ sent, s.body = base.set "model" (.str s.target.forwardName)

/-- No attempt follows an answer below 500. -/
def AnswersLast (sent : List Sent) (answers : List (Nat × Nat)) : Prop :=
  ∀ a ∈ answers, a.2 < 500 → a.1 = sent.length

/-- The loops stand at a target: what is sent comes before it in the chain or at it, and so far
every answer failed. -/
structure Frame.Stands (base : Dict Json) (targets : List Target) (p : Proxied) (f : Frame) :
    Prop where
  place : f.target :: f.chain <:+ targets
  body : ∃ v, p.body = base.set "model" v
  reached : ∀ s ∈ p.sent, f.chain.length ≤ s.left
  failed : ∀ a ∈ p.answers, 500 ≤ a.2

/-- The loops are between two attempts at their target, or in one, after `n` of them. -/
structure Frame.Walks (base : Dict Json) (targets : List Target) (p : Proxied) (n : Nat)
    (f : Frame) : Prop extends f.Stands base targets p where
  model : p.body = base.set "model" (.str f.target.forwardName)
  names : f.modelKey = f.target.routeKey
  forwards : f.model = f.target.forwardName
  goes : f.exhausted = false
  turn : f.attempt < f.target.maxAttempts
  tried : ∀ i, i ∈ f.tried ↔ ∃ s ∈ p.sent, s.left = f.chain.length ∧ s.instanceId = i
  count : p.sent.countP (fun s => s.left = f.chain.length) = n

/-- What holds at a stage. -/
def Stage.Walks (c : RouterConfig) (path : String) (body : Dict Json) (p : Proxied) :
    Stage → Prop
  | .parsing => p.body = body ∧ p.sent = [] ∧ p.answers = []
  | .selecting f => ∃ t ts, c.accept path body = .ok (t, ts) ∧
      f.Walks (includeUsage path body) (t :: ts) p f.attempt
  | .opening f => ∃ t ts, c.accept path body = .ok (t, ts) ∧
      f.Walks (includeUsage path body) (t :: ts) p (f.attempt + 1)
  | .closing f => ∃ t ts, c.accept path body = .ok (t, ts) ∧
      f.Walks (includeUsage path body) (t :: ts) p (f.attempt + 1) ∧ f.hasNext = true
  | _ => AnswersLast p.sent p.answers

section Steps

variable {base body : Dict Json} {targets : List Target} {p q : Proxied} {f : Frame} {n : Nat}
  {c : RouterConfig} {path : String} {e : Event} {s : Stage} {out : Outcome}

theorem walksChain_nil : WalksChain base targets [] where
  placed := fun _ h => absurd h List.not_mem_nil
  ordered := List.Pairwise.nil
  apart := List.Pairwise.nil
  roster := fun _ h => absurd h List.not_mem_nil
  bound := fun _ h => absurd h List.not_mem_nil
  bodies := fun _ h => absurd h List.not_mem_nil

/-- Two targets with as many targets after them are the same position. -/
theorem target_eq_of_suffix {t t' : Target} {rest rest' : List Target} (h : t :: rest <:+ targets)
    (h' : t' :: rest' <:+ targets) (hlen : rest.length = rest'.length) : t = t' := by
  have hlen' : (t :: rest).length = (t' :: rest').length := by simp [hlen]
  have hsuffix := List.suffix_of_suffix_length_le h h' hlen'.le
  exact (List.cons.inj (hsuffix.eq_of_length hlen')).1

/-- Two positions of a list without repeated groups are the same if their groups are. -/
theorem length_eq_of_nodup {t t' : Target} {rest rest' : List Target}
    (hnodup : (targets.map Target.routeKey).Nodup) (h : t :: rest <:+ targets)
    (h' : t' :: rest' <:+ targets) (hkey : t.routeKey = t'.routeKey) :
    rest.length = rest'.length := by
  wlog hle : rest.length ≤ rest'.length generalizing t t' rest rest'
  · exact (this h' h hkey.symm (le_of_not_ge hle)).symm
  by_contra hne
  have hlen : (t :: rest).length ≤ rest'.length := by
    rw [List.length_cons]
    omega
  have hmem := (List.suffix_of_suffix_length_le h ((List.suffix_cons _ _).trans h') hlen).subset
    List.mem_cons_self
  have hapart := (h'.map Target.routeKey).sublist.nodup hnodup
  rw [List.map_cons, List.nodup_cons] at hapart
  exact hapart.1 (hkey ▸ List.mem_map_of_mem hmem)

theorem answersLast_of_failed (h : ∀ a ∈ p.answers, 500 ≤ a.2) : AnswersLast p.sent p.answers := by
  intro a ha hlt
  have := h a ha
  omega

/-- One more attempt, at an instance of the roster that was not tried. -/
theorem WalksChain.attempt (h : WalksChain base targets p.sent)
    (hf : f.Walks base targets p f.attempt) {i : String} (hroster : i ∈ f.target.instances)
    (htried : i ∉ f.tried) :
    WalksChain base targets
      (p.sent ++ [⟨f.target, f.chain.length, f.attempt, i, p.body⟩]) := by
  have hbound : f.attempt + 1 ≤ min f.target.instances.length 3 := by
    have hturn := hf.turn
    have hpos := List.length_pos_of_mem hroster
    unfold Target.maxAttempts at hturn
    omega
  refine ⟨fun s hs => ?_, ?_, ?_, fun s hs => ?_, fun s hs => ?_, fun s hs => ?_⟩
  · rcases List.mem_append.mp hs with hs | hs
    · exact h.placed s hs
    · rw [List.mem_singleton.mp hs]
      exact ⟨f.chain, hf.place, rfl⟩
  · refine List.pairwise_append.mpr ⟨h.ordered, List.pairwise_singleton _ _, fun a ha b hb => ?_⟩
    rw [List.mem_singleton.mp hb]
    exact hf.reached a ha
  · refine List.pairwise_append.mpr ⟨h.apart, List.pairwise_singleton _ _, fun a ha b hb => ?_⟩
    rw [List.mem_singleton.mp hb]
    intro hleft hsame
    exact htried ((hf.tried i).mpr ⟨a, ha, hleft, hsame⟩)
  · rcases List.mem_append.mp hs with hs | hs
    · exact h.roster s hs
    · rw [List.mem_singleton.mp hs]
      exact hroster
  · rw [List.countP_append, List.countP_singleton]
    rcases List.mem_append.mp hs with hs | hs
    · obtain ⟨rest, hrest, hlen⟩ := h.placed s hs
      by_cases hleft : f.chain.length = s.left
      · have hcount := hf.count
        rw [target_eq_of_suffix hrest hf.place (hlen.trans hleft.symm), ← hleft, hcount]
        simpa using hbound
      · have := h.bound s hs
        simpa [hleft] using this
    · rw [List.mem_singleton.mp hs]
      have hcount := hf.count
      dsimp only
      rw [hcount]
      simpa using hbound
  · rcases List.mem_append.mp hs with hs | hs
    · exact h.bodies s hs
    · rw [List.mem_singleton.mp hs]
      exact hf.model

/-- The frame of the attempt. -/
theorem Frame.Walks.selected (hf : f.Walks base targets p f.attempt) {i : String} {g : Frame}
    (hg : (f.selected i).1 = .opening g) (hbody : q.body = p.body)
    (hsent : q.sent = p.sent ++ [⟨f.target, f.chain.length, f.attempt, i, p.body⟩])
    (hanswers : q.answers = p.answers) : g.Walks base targets q (g.attempt + 1) := by
  cases hg
  refine ⟨⟨hf.place, ?_, ?_, ?_⟩, ?_, hf.names, hf.forwards, hf.goes, hf.turn, fun j => ?_, ?_⟩
  · rw [hbody]
    exact hf.body
  · rw [hsent]
    intro s hs
    rcases List.mem_append.mp hs with hs | hs
    · exact hf.reached s hs
    · rw [List.mem_singleton.mp hs]
  · rw [hanswers]
    exact hf.failed
  · rw [hbody]
    exact hf.model
  · simp only [hsent, List.mem_cons, List.mem_append, List.not_mem_nil, or_false, or_and_right,
      exists_or, exists_eq_left, true_and]
    rw [hf.tried j, or_comm, eq_comm]
  · rw [hsent, List.countP_append, List.countP_singleton, hf.count]
    simp

/-- From one attempt to the next at the same target. -/
theorem Frame.Walks.retry (hf : f.Walks base targets p n) {g : Frame} (hbody : q.body = p.body)
    (hsent : q.sent = p.sent) (hanswers : ∀ a ∈ q.answers, 500 ≤ a.2)
    (hplace : g.target = f.target ∧ g.chain = f.chain ∧ g.modelKey = f.modelKey ∧
      g.model = f.model ∧ g.tried = f.tried) (hgoes : g.exhausted = f.exhausted)
    (hturn : g.attempt < f.target.maxAttempts) : g.Walks base targets q n := by
  obtain ⟨htarget, hchain, hkey, hmodel, htried⟩ := hplace
  refine ⟨⟨?_, ?_, ?_, hanswers⟩, ?_, ?_, ?_, hgoes.trans hf.goes, ?_, ?_, ?_⟩
  · rw [htarget, hchain]
    exact hf.place
  · rw [hbody]
    exact hf.body
  · rw [hsent, hchain]
    exact hf.reached
  · rw [hbody, htarget]
    exact hf.model
  · rw [hkey, htarget]
    exact hf.names
  · rw [hmodel, htarget]
    exact hf.forwards
  · rw [htarget]
    exact hturn
  · rw [htried, hsent, hchain]
    exact hf.tried
  · rw [hsent, hchain]
    exact hf.count

/-- Into the next target of the chain. -/
theorem Frame.Stands.enter (hf : f.Stands base targets p) {t : Target} {chain : List Target}
    (hchain : f.chain = t :: chain) (hbody : q.body = p.body.set "model" (.str t.forwardName))
    (hsent : q.sent = p.sent) (hanswers : q.answers = p.answers) :
    (f.enter t chain).Walks base targets q 0 := by
  obtain ⟨v, hv⟩ := hf.body
  have hbody' : q.body = base.set "model" (.str t.forwardName) := by
    rw [hbody, hv, Dict.set_set]
  have hbefore : ∀ s ∈ p.sent, chain.length < s.left := by
    intro s hs
    have := hf.reached s hs
    rw [hchain, List.length_cons] at this
    omega
  refine ⟨⟨?_, ⟨_, hbody'⟩, ?_, ?_⟩, hbody', rfl, rfl, rfl, ?_, fun i => ?_, ?_⟩
  · have hplace := hf.place
    rw [hchain] at hplace
    exact (List.suffix_cons _ _).trans hplace
  · rw [hsent]
    exact fun s hs => (hbefore s hs).le
  · rw [hanswers]
    exact hf.failed
  · exact lt_of_lt_of_le Nat.zero_lt_one (le_max_left _ _)
  · refine iff_of_false List.not_mem_nil ?_
    rintro ⟨s, hs, hleft, -⟩
    rw [hsent] at hs
    exact absurd hleft (hbefore s hs).ne'
  · rw [hsent, List.countP_eq_zero]
    intro s hs
    exact decide_eq_false (hbefore s hs).ne' ▸ Bool.false_ne_true

theorem Stage.walks_of_late {s : Stage} (hs : s.early = false ∨ ∃ f, s = .serving f) :
    s.Walks c path body p ↔ AnswersLast p.sent p.answers := by
  rcases hs with hs | ⟨f, rfl⟩
  · cases s <;> simp only [Stage.early, reduceCtorEq] at hs <;> rfl
  · rfl

/-- After the attempts at a target, served or not. -/
theorem Frame.Stands.afterAttempts {t : Target} {ts : List Target}
    (hf : f.Stands (includeUsage path body) (t :: ts) p)
    (haccept : c.accept path body = .ok (t, ts)) (hsent : q.sent = p.sent)
    (hanswers : q.answers = p.answers)
    (hbody : ∀ g, f.afterAttempts.1 = .selecting g → q.body = p.body.set "model" (.str g.model)) :
    f.afterAttempts.1.Walks c path body q := by
  have hlast : AnswersLast q.sent q.answers :=
    answersLast_of_failed (hanswers ▸ hf.failed)
  have hafter : f.afterChain.1.Walks c path body q := by
    refine (Stage.walks_of_late ?_).mpr hlast
    unfold Frame.afterChain
    split
    · exact .inr ⟨f, rfl⟩
    · exact .inl (f.leave_late _)
  unfold Frame.afterAttempts at hbody ⊢
  split_ifs at hbody ⊢
  · exact hafter
  · split at hbody
    case h_1 => exact hafter
    case h_2 t' chain hchain =>
      exact ⟨t, ts, haccept, hf.enter hchain (hbody _ rfl) hsent hanswers⟩

theorem Stage.Walks.last (h : s.Walks c path body p) : AnswersLast p.sent p.answers := by
  cases s with
  | parsing =>
    intro a ha
    rw [h.2.2] at ha
    exact absurd ha List.not_mem_nil
  | selecting f =>
    obtain ⟨t, ts, -, hf⟩ := h
    exact answersLast_of_failed hf.failed
  | opening f =>
    obtain ⟨t, ts, -, hf⟩ := h
    exact answersLast_of_failed hf.failed
  | closing f =>
    obtain ⟨t, ts, -, hf, -⟩ := h
    exact answersLast_of_failed hf.failed
  | _ => exact h

theorem Proxied.step_cases (h : p.step path e = some q) :
    ∃ out, p.request.stage.step e = some out ∧ q.request.stage = out.1 ∧
      q.body = p.request.stage.writeBody path e out.1 p.body ∧
      q.sent = p.sent ++ p.request.stage.send e p.body ∧
      q.answers = p.answers ++ p.request.stage.answer e p.sent.length ∧
      q.marks = p.marks ++ p.request.stage.mark e ∧
      q.rows = p.rows ++ p.request.stage.record e := by
  obtain ⟨r, hr, rfl⟩ := Option.map_eq_some_iff.mp h
  obtain ⟨out, hout, hstage, -⟩ := Request.step_eq_some.mp hr
  exact ⟨out, hout, hstage, hstage ▸ rfl, rfl, rfl, rfl, rfl⟩

theorem Stage.quiet_of_late (hs : s.early = false ∨ ∃ f, s = .serving f) (b : Dict Json) (n : Nat) :
    s.send e b = [] ∧ s.answer e n = [] := by
  rcases hs with hs | ⟨f, rfl⟩
  · cases s <;> simp only [Stage.early, reduceCtorEq] at hs <;> exact ⟨rfl, rfl⟩
  · exact ⟨rfl, rfl⟩

/-- What is sent and answered, while the loops go on at a target or leave it. -/
theorem Stage.Walks.leave (h : s.Walks c path body p) (hsent : q.sent = p.sent)
    (hanswers : q.answers = p.answers) {reply : Option Reply} :
    (f.leave reply).1.Walks c path body q := by
  rw [Stage.walks_of_late (.inl (f.leave_late reply)), hsent, hanswers]
  exact h.last

theorem Stage.Walks.unexpected (h : s.Walks c path body p) (hsent : q.sent = p.sent)
    (hanswers : q.answers = p.answers) : f.unexpected.1.Walks c path body q := by
  rw [Stage.walks_of_late (.inl rfl), hsent, hanswers]
  exact h.last

variable {S : Type} [Add S] [Mul S] [NatCast S] [LT S] [DecidableLT S] [LE S] [DecidableLE S]

/-- An instance that was selected is of the roster and was not tried. -/
theorem Frame.Selects.serves {i : String} (h : f.Selects S (.ok i)) :
    i ∈ f.target.instances ∧ i ∉ f.tried := by
  obtain ⟨call, -, hinstances, hexclude, hresult⟩ := h
  have hserves := SelectCall.serves_of_selectInstance hresult
  refine ⟨hinstances ▸ hserves.roster, ?_⟩
  have huntried := hserves.untried
  rwa [hexclude] at huntried

/-- The frame with an answer. -/
def Frame.answered (f : Frame) (ctx statusCode : Nat) (contentType : String) : Frame :=
  { f with
    response := some ⟨ctx, statusCode, contentType⟩, ownsStream := true
    openCtxs := ctx :: f.openCtxs }

/-- A response that is not retried leaves the loops. -/
theorem Frame.afterAttempts_served (hresponse : f.response.isSome = true)
    (hgoes : f.exhausted = false) : f.afterAttempts = (.serving f, []) := by
  obtain ⟨r, hr⟩ := Option.isSome_iff_exists.mp hresponse
  unfold Frame.afterAttempts Frame.afterChain
  rw [hresponse, hgoes, hr]
  rfl

/-- An answer is retried or served. -/
theorem Frame.opened_eq (hgoes : f.exhausted = false) (ctx statusCode : Nat)
    (contentType : String) : f.opened ctx statusCode contentType =
      if 500 ≤ statusCode ∧ f.hasNext = true then
        (.closing (f.answered ctx statusCode contentType).markFailure, [])
      else (.serving (f.answered ctx statusCode contentType), []) := by
  rw [← Frame.afterAttempts_served (f := f.answered ctx statusCode contentType) rfl hgoes]
  unfold Frame.opened
  simp only [Bool.and_eq_true, decide_eq_true_eq]
  rfl

/-- A step that sends nothing and brings no answer. -/
theorem Stage.Walks.selecting_step (hf : (Stage.selecting f).Walks c path body p)
    (he : ∀ i, e ≠ .select i) (hout : (Stage.selecting f).step e = some out)
    (hbody : q.body = (Stage.selecting f).writeBody path e out.1 p.body)
    (hsent : q.sent = p.sent) (hanswers : q.answers = p.answers) :
    out.1.Walks c path body q := by
  obtain ⟨t, ts, haccept, hwalks⟩ := id hf
  cases e <;> simp only [Stage.step, reduceCtorEq, Option.some.injEq] at hout <;> subst hout
  case select i => exact absurd rfl (he i)
  case selectFails x =>
    have hstands : ({ f with lastExc := some x, exhausted := true } : Frame).Stands
        (includeUsage path body) (t :: ts) p :=
      ⟨hwalks.place, hwalks.toStands.body, hwalks.reached, hwalks.failed⟩
    refine hstands.afterAttempts haccept hsent hanswers fun g hg => ?_
    rw [hbody]
    unfold Frame.selectFailed
    rw [hg]
    rfl
  case raises => exact Stage.Walks.unexpected hf hsent hanswers
  case cancel => exact Stage.Walks.leave hf hsent hanswers

theorem Stage.Walks.opening_step (hf : (Stage.opening f).Walks c path body p)
    (hout : (Stage.opening f).step e = some out)
    (hbody : q.body = (Stage.opening f).writeBody path e out.1 p.body)
    (hsent : q.sent = p.sent)
    (hanswers : q.answers = p.answers ++ (Stage.opening f).answer e p.sent.length) :
    out.1.Walks c path body q := by
  obtain ⟨t, ts, haccept, hwalks⟩ := hf
  cases e <;>
    simp only [Stage.step, reduceCtorEq, Option.some.injEq, Option.map_eq_some_iff] at hout
  case opens code type =>
    obtain ⟨ctx, hctx, rfl⟩ := hout
    have hmem : ∀ a ∈ q.answers, 500 ≤ a.2 ∨ a = (p.sent.length, code) := by
      intro a ha
      rw [hanswers] at ha
      exact (List.mem_append.mp ha).imp (hwalks.failed a) List.mem_singleton.mp
    rw [Frame.opened_eq hwalks.goes] at hbody ⊢
    split_ifs at hbody ⊢ with hretry
    · refine ⟨t, ts, haccept, hwalks.retry hbody hsent (fun a ha => ?_) ⟨rfl, rfl, rfl, rfl, rfl⟩
        rfl hwalks.turn, hretry.2⟩
      rcases hmem a ha with ha | rfl
      · exact ha
      · exact hretry.1
    · intro a ha hlt
      rcases hmem a ha with ha | rfl
      · omega
      · rw [hsent]
  case raises =>
    subst hout
    have hanswers' : q.answers = p.answers := hanswers.trans (List.append_nil _)
    unfold Frame.openFailed at hbody ⊢
    dsimp only at hbody ⊢
    split_ifs at hbody ⊢ with hnext
    · refine ⟨t, ts, haccept, hwalks.retry ?_ hsent (hanswers' ▸ hwalks.failed)
        ⟨rfl, rfl, rfl, rfl, rfl⟩ rfl (of_decide_eq_true hnext)⟩
      rw [show q.body = p.body.set "model" (.str f.model) from hbody, hwalks.forwards,
        hwalks.model, Dict.set_set]
    · refine Frame.Stands.afterAttempts ⟨hwalks.place, hwalks.toStands.body, hwalks.reached,
        hwalks.failed⟩ haccept hsent hanswers' fun g hg => ?_
      rw [hbody, hg]
      rfl
  case cancel =>
    subst hout
    have hopening : (Stage.opening f).Walks c path body p := ⟨t, ts, haccept, hwalks⟩
    exact hopening.leave hsent (hanswers.trans (List.append_nil _))

theorem Stage.Walks.closing_step (hf : (Stage.closing f).Walks c path body p)
    (hout : (Stage.closing f).step e = some out)
    (hbody : q.body = (Stage.closing f).writeBody path e out.1 p.body)
    (hsent : q.sent = p.sent) (hanswers : q.answers = p.answers) :
    out.1.Walks c path body q := by
  obtain ⟨t, ts, haccept, hwalks, hnext⟩ := id hf
  cases e <;>
    simp only [Stage.step, reduceCtorEq, Option.some.injEq, Option.map_eq_some_iff] at hout
  case closes =>
    obtain ⟨ctx, hctx, rfl⟩ := hout
    refine ⟨t, ts, haccept, hwalks.retry ?_ hsent (hanswers ▸ hwalks.failed)
      ⟨rfl, rfl, rfl, rfl, rfl⟩ rfl (of_decide_eq_true hnext)⟩
    rw [show q.body = p.body.set "model" (.str f.model) from hbody, hwalks.forwards,
      hwalks.model, Dict.set_set]
  case raises => exact hout ▸ Stage.Walks.unexpected hf hsent hanswers
  case cancel => exact hout ▸ Stage.Walks.leave hf hsent hanswers

/-- What holds between two steps of a request. -/
structure Proxied.Kept (c : RouterConfig) (path : String) (body : Dict Json) (p : Proxied) :
    Prop where
  stage : p.request.stage.Walks c path body p
  refused : (∀ t ts, c.accept path body ≠ .ok (t, ts)) → p.sent = []
  walks : ∀ t ts, c.accept path body = .ok (t, ts) →
    WalksChain (includeUsage path body) (t :: ts) p.sent

theorem Proxied.Kept.step (h : p.Kept c path body) (he : c.Allowed S path p e)
    (hstep : p.step path e = some q) : q.Kept c path body := by
  obtain ⟨out, hout, hstage, hbody, hsent, hanswers, -⟩ := Proxied.step_cases hstep
  have hwalks := h.stage
  have hkeep : q.sent = p.sent → q.request.stage.Walks c path body q → q.Kept c path body :=
    fun hsame hnext => ⟨hnext, fun hrefused => hsame.trans (h.refused hrefused),
      fun t ts haccept => hsame ▸ h.walks t ts haccept⟩
  unfold RouterConfig.Allowed at he
  by_cases hlate : p.request.stage.early = false ∨ ∃ f, p.request.stage = .serving f
  · obtain ⟨hsend, hanswer⟩ := Stage.quiet_of_late hlate p.body p.sent.length
    rw [hsend, List.append_nil] at hsent
    rw [hanswer, List.append_nil] at hanswers
    refine hkeep hsent ?_
    rw [hstage, Stage.walks_of_late (.inl (Stage.late_of_step hout hlate)), hsent, hanswers]
    exact hwalks.last
  cases hs : p.request.stage <;> rw [hs] at hlate hwalks hout hbody hsent hanswers he
  case parsing =>
    obtain ⟨hbody₀, hsent₀, hanswers₀⟩ := hwalks
    cases e <;> simp only [Stage.step, reduceCtorEq, Option.some.injEq] at hout <;> subst hout
    case route t ts =>
      have haccept : c.accept path body = .ok (t, ts) := hbody₀ ▸ he
      have hsent' : q.sent = [] := by rw [hsent, hsent₀]; rfl
      refine hkeep (hsent'.trans hsent₀.symm) (hstage ▸ ⟨t, ts, haccept, ?_⟩)
      have hbody' : q.body = (includeUsage path body).set "model" (.str t.forwardName) := by
        rw [hbody, ← hbody₀]
        rfl
      refine ⟨⟨List.suffix_refl _, ⟨_, hbody'⟩, ?_, ?_⟩, hbody', rfl, rfl, rfl, ?_, ?_, ?_⟩
      · rw [hsent']
        exact fun s hs => absurd hs List.not_mem_nil
      · rw [hanswers, hanswers₀]
        exact fun a ha => absurd ha List.not_mem_nil
      · exact lt_of_lt_of_le Nat.zero_lt_one (le_max_left _ _)
      · intro i
        simp [hsent', Frame.start]
      · rw [hsent']
        rfl
    all_goals
      refine hkeep (by rw [hsent]; exact List.append_nil _) (hstage ▸ ?_)
      intro a ha
      rw [hanswers, hanswers₀] at ha
      exact absurd ha List.not_mem_nil
  case selecting f =>
    by_cases hselect : ∃ i, e = .select i
    · obtain ⟨i, rfl⟩ := hselect
      obtain ⟨t, ts, haccept, hf⟩ := hwalks
      obtain ⟨hroster, htried⟩ := Frame.Selects.serves he
      have hanswers' : q.answers = p.answers := hanswers.trans (List.append_nil _)
      obtain rfl := Option.some.inj hout
      refine ⟨?_, fun hrefused => ?_, fun t' ts' ht' => ?_⟩
      · rw [hstage]
        exact ⟨t, ts, haccept, hf.selected (i := i) rfl hbody hsent hanswers'⟩
      · exact absurd haccept (hrefused t ts)
      · rw [haccept] at ht'
        cases ht'
        exact hsent ▸ (h.walks t ts haccept).attempt hf hroster htried
    · have hquiet : ∀ i, e ≠ .select i := fun i hi => hselect ⟨i, hi⟩
      have hsent' : q.sent = p.sent := by
        rw [hsent]
        cases e <;> first | exact List.append_nil _ | exact absurd rfl (hquiet _)
      refine hkeep hsent' (hstage ▸ Stage.Walks.selecting_step hwalks hquiet hout hbody hsent' ?_)
      rw [hanswers]
      exact List.append_nil _
  case opening f =>
    have hsent' : q.sent = p.sent := hsent.trans (List.append_nil _)
    exact hkeep hsent' (hstage ▸ Stage.Walks.opening_step hwalks hout hbody hsent' hanswers)
  case closing f =>
    have hsent' : q.sent = p.sent := hsent.trans (List.append_nil _)
    exact hkeep hsent' (hstage ▸ Stage.Walks.closing_step hwalks hout hbody hsent'
      (hanswers.trans (List.append_nil _)))
  case serving f => exact absurd (.inr ⟨f, rfl⟩) hlate
  all_goals exact absurd (.inl rfl) hlate

theorem kept_start : ({ body := body } : Proxied).Kept c path body :=
  ⟨⟨rfl, rfl, rfl⟩, fun _ => rfl, fun _ _ _ => walksChain_nil⟩

/-- Along every run of the code. -/
theorem walks_of_reach (h : Reach (Proxied.step path) (c.Allowed S path) { body := body } p) :
    p.Kept c path body :=
  h.invariant kept_start fun hkept he hstep => hkept.step he hstep

end Steps

/-! ## The groups -/

section Groups

variable {body : Dict Json} {p q : Proxied} {c : RouterConfig} {path : String} {e : Event}
  {t : Target} {ts : List Target}

/-- **Bounded and well addressed**: what is sent walks the chain, each group gets at most three
attempts and none twice at one instance, the fields are the client's, the `model` that of the
target, and an answer below 500 is the last. -/
structure Proxied.Bounded (c : RouterConfig) (path : String) (body : Dict Json) (p : Proxied) :
    Prop where
  refused : (∀ t ts, c.accept path body ≠ .ok (t, ts)) → p.sent = []
  walks : ∀ t ts, c.accept path body = .ok (t, ts) →
    WalksChain (includeUsage path body) (t :: ts) p.sent
  group : ∀ t ts, c.accept path body = .ok (t, ts) → ∀ g ∈ t :: ts,
    p.sent.countP (fun s => s.target.routeKey = g.routeKey) ≤ min g.instances.length 3
  once : (p.sent.map Sent.backend).Nodup
  model : ∀ s ∈ p.sent, s.body.get "model" = some (.str s.target.forwardName)
  fields : ∀ s ∈ p.sent, ∀ k, k ≠ "model" → k ≠ "stream_options" → s.body.get k = body.get k
  last : AnswersLast p.sent p.answers

theorem includeUsage_get {k : String} (h : k ≠ "stream_options") :
    (includeUsage path body).get k = body.get k := by
  unfold includeUsage
  split_ifs
  · exact Dict.get_set_ne h
  · rfl

/-- The chain of a request is the route chain of the model that it names. -/
theorem accept_eq_ok (h : c.accept path body = .ok (t, ts)) :
    ∃ requested resolved, body.get "model" = some (.str requested) ∧
      c.resolveModel requested = some resolved ∧
      t :: ts = (c.buildRouteChain resolved).map Resolved.target := by
  unfold RouterConfig.accept at h
  dsimp only at h
  split_ifs at h with htruthy
  split at h
  case h_1 | h_2 | h_4 => cases h
  case h_3 requested hrequested =>
    split at h
    case h_1 => cases h
    case h_2 resolved hresolved =>
      split_ifs at h
      cases h
      refine ⟨requested, resolved, ?_, hresolved, by rw [buildRouteChain_eq]; rfl⟩
      cases hmodel : body.get "model" with
      | none =>
        rw [hmodel] at hrequested
        cases hrequested
      | some v =>
        rw [hmodel] at hrequested
        rw [show v = .str requested from hrequested]

/-- A group has one roster. -/
theorem instances_eq_of_accept (h : c.accept path body = .ok (t, ts)) {a b : Target}
    (ha : a ∈ t :: ts) (hb : b ∈ t :: ts) (hkey : a.routeKey = b.routeKey) :
    a.instances = b.instances := by
  obtain ⟨requested, resolved, -, hresolved, hchain⟩ := accept_eq_ok h
  rw [hchain] at ha hb
  obtain ⟨ra, hra, rfl⟩ := List.mem_map.mp ha
  obtain ⟨rb, hrb, rfl⟩ := List.mem_map.mp hb
  have hgeta := (mem_buildRouteChain hresolved hra).1
  have hgetb := (mem_buildRouteChain hresolved hrb).1
  rw [show ra.routeKey = rb.routeKey from hkey, hgetb] at hgeta
  exact congrArg EngineConfig.instances (Option.some.inj hgeta).symm

/-- The attempts at a group were made at one position of the chain. -/
def OnePosition (sent : List Sent) : Prop :=
  ∀ a ∈ sent, ∀ b ∈ sent, a.target.routeKey = b.target.routeKey → a.left = b.left

theorem Stage.eq_of_send {s : Stage} {x y : Sent} {b : Dict Json} (hx : x ∈ s.send e b)
    (hy : y ∈ s.send e b) : x = y := by
  unfold Stage.send at hx hy
  split at hx
  · exact (List.mem_singleton.mp hx).trans (List.mem_singleton.mp hy).symm
  · exact absurd hx List.not_mem_nil

theorem OnePosition.step (h : OnePosition p.sent) (he : p.Fresh e)
    (hstep : p.step path e = some q) : OnePosition q.sent := by
  obtain ⟨out, -, -, -, hsent, -⟩ := Proxied.step_cases hstep
  rw [hsent]
  intro a ha b hb hkey
  rcases List.mem_append.mp ha with ha | ha <;> rcases List.mem_append.mp hb with hb | hb
  · exact h a ha b hb hkey
  · exact he b hb a ha hkey
  · exact (he a ha b hb hkey.symm).symm
  · rw [Stage.eq_of_send ha hb]

/-- What is kept, with one position for each group, is bounded. -/
theorem Proxied.Kept.bounded (h : p.Kept c path body) (hone : OnePosition p.sent) :
    p.Bounded c path body := by
  have hempty : p.sent = [] ∨ ∃ t ts, c.accept path body = .ok (t, ts) := by
    by_cases haccept : ∃ t ts, c.accept path body = .ok (t, ts)
    · exact .inr haccept
    · exact .inl (h.refused fun t ts hok => haccept ⟨t, ts, hok⟩)
  have hbodies : ∀ s ∈ p.sent,
      s.body = (includeUsage path body).set "model" (.str s.target.forwardName) := by
    rcases hempty with hempty | ⟨t, ts, haccept⟩
    · rw [hempty]
      exact fun s hs => absurd hs List.not_mem_nil
    · exact (h.walks t ts haccept).bodies
  refine ⟨h.refused, h.walks, fun t ts haccept g hg => ?_, ?_, fun s hs => ?_, ?_, h.stage.last⟩
  · have hwalks := h.walks t ts haccept
    by_cases hsome : ∃ s ∈ p.sent, s.target.routeKey = g.routeKey
    · obtain ⟨s, hs, hkey⟩ := hsome
      obtain ⟨rest, hrest, -⟩ := hwalks.placed s hs
      have hroster := instances_eq_of_accept haccept (hrest.subset List.mem_cons_self) hg hkey
      rw [← hroster]
      refine (List.countP_mono_left fun a ha hkey' => ?_).trans (hwalks.bound s hs)
      simpa using hone a ha s hs ((of_decide_eq_true hkey').trans hkey.symm)
    · rw [List.countP_eq_zero.mpr]
      · exact Nat.zero_le _
      · intro s hs hkey
        exact hsome ⟨s, hs, of_decide_eq_true hkey⟩
  · rcases hempty with hempty | ⟨t, ts, haccept⟩
    · rw [hempty]
      exact List.nodup_nil
    · refine List.pairwise_map.mpr (((h.walks t ts haccept).apart).imp_of_mem ?_)
      intro a b ha hb hapart hsame
      obtain ⟨hkey, hinstance⟩ := Backend.mk.inj hsame
      exact hapart (hone a ha b hb hkey) hinstance
  · rw [hbodies s hs, Dict.get_set_self]
  · intro s hs k hmodel hoptions
    rw [hbodies s hs, Dict.get_set_ne hmodel, includeUsage_get hoptions]

variable {S : Type} [Add S] [Mul S] [NatCast S] [LT S] [DecidableLT S] [LE S] [DecidableLE S]

/-- **Failover is bounded and well addressed** in every run that attempts each group at one
position of the chain only. -/
theorem bounded_of_reach (h : Reach (Proxied.step path)
    (fun p e => c.Allowed S path p e ∧ p.Fresh e) { body := body } p) :
    p.Bounded c path body := by
  suffices hkept : p.Kept c path body ∧ OnePosition p.sent from hkept.1.bounded hkept.2
  refine h.invariant (I := fun p => p.Kept c path body ∧ OnePosition p.sent) ?_ ?_
  · exact ⟨kept_start, fun a ha => absurd ha List.not_mem_nil⟩
  · intro a b e hkept he hstep
    exact ⟨hkept.1.step he.1 hstep, hkept.2.step he.2 hstep⟩

/-- Where the fallback list has no way back, no attempt goes to a group a second time. -/
theorem fresh_of_straight {requested : String} {resolved : Resolved}
    (hmodel : body.get "model" = some (.str requested))
    (hresolved : c.resolveModel requested = some resolved) (hstraight : c.Straight resolved)
    (h : p.Kept c path body) : p.Fresh e := by
  intro new hnew s hs hkey
  have hwalks := h.stage
  unfold Stage.send at hnew
  split at hnew
  case h_2 => exact absurd hnew List.not_mem_nil
  case h_1 f i hstage =>
    rw [hstage] at hwalks
    obtain rfl := List.mem_singleton.mp hnew
    obtain ⟨t, ts, haccept, hf⟩ := hwalks
    obtain ⟨requested', resolved', hmodel', hresolved', hchain⟩ := accept_eq_ok haccept
    obtain rfl : requested = requested' := by
      rw [hmodel] at hmodel'
      exact Json.str.inj (Option.some.inj hmodel')
    obtain rfl : resolved = resolved' := Option.some.inj (hresolved.symm.trans hresolved')
    have hnodup : ((t :: ts).map Target.routeKey).Nodup := by
      rw [hchain, List.map_map]
      exact (nodup_buildRouteChain hresolved).mpr hstraight
    obtain ⟨rest, hrest, hlen⟩ := (h.walks t ts haccept).placed s hs
    rw [← hlen]
    exact length_eq_of_nodup hnodup hrest hf.place hkey

end Groups

/-- A call at a router that knows nothing of its backends. -/
def plainCall (f : Frame) : SelectCall Nat where
  app := {}
  now := 0
  modelKey := f.modelKey
  instances := f.target.instances
  exclude := some f.tried
  margin := 0
  draw := (0, 0)
  sha1 := fun _ => 0

theorem plainCall_selects {f : Frame} {result : Except SelectError String}
    (h : (plainCall f).selectInstance.1 = result) : f.Selects Nat result :=
  ⟨plainCall f, rfl, rfl, rfl, h⟩

/-- A group of one instance that falls back to its own adapter. -/
def selfFallbackOne : RouterConfig :=
  ⟨[("Llama", { loraModules := ["sql-lora"], fallback := ["sql-lora"], instances := ["a"] })],
    by decide⟩

/-- The only instance is dead: it is attempted a second time, under the name of the adapter. -/
theorem attempts_twice : ¬ ∀ (c : RouterConfig) (path : String) (body : Dict Json) (p : Proxied),
    Reach (Proxied.step path) (c.Allowed Nat path) { body := body } p →
      p.Bounded c path body := by
  intro h
  let events : List Event := [.route ⟨"Llama", "Llama", ["a"]⟩ [⟨"Llama", "sql-lora", ["a"]⟩],
    .select "a", .raises, .select "a"]
  have hrun : run (Proxied.step "/v1/completions") { body := [("model", .str "Llama")] } events =
    some _ := rfl
  have halong : Along (Proxied.step "/v1/completions")
      (selfFallbackOne.Allowed Nat "/v1/completions") { body := [("model", .str "Llama")] }
      events := by
    refine ⟨rfl, fun p₁ h₁ => ?_⟩
    obtain rfl := Option.some.inj h₁
    refine ⟨plainCall_selects rfl, fun p₂ h₂ => ?_⟩
    obtain rfl := Option.some.inj h₂
    refine ⟨trivial, fun p₃ h₃ => ?_⟩
    obtain rfl := Option.some.inj h₃
    exact ⟨plainCall_selects rfl, fun _ _ => trivial⟩
  exact absurd (h _ _ _ _ (Reach.of_guarded_run hrun halong)).once (by decide)

/-- Both instances of a group are dead, so the fallback group is attempted. -/
theorem attempts_bounded : ∃ (c : RouterConfig) (p : Proxied), p.sent.length = 3 ∧
    p.Bounded c "/v1/completions" [("model", .str "A")] := by
  let c : RouterConfig :=
    ⟨[("A", { fallback := ["B"], instances := ["a", "b"] }), ("B", { instances := ["a"] })],
      by decide⟩
  let events : List Event := [.route ⟨"A", "A", ["a", "b"]⟩ [⟨"B", "B", ["a"]⟩],
    .select "a", .raises, .select "b", .raises, .select "a"]
  have hrun : run (Proxied.step "/v1/completions") { body := [("model", .str "A")] } events =
    some _ := rfl
  have halong : Along (Proxied.step "/v1/completions")
      (fun p e => c.Allowed Nat "/v1/completions" p e ∧ p.Fresh e)
      { body := [("model", .str "A")] } events := by
    refine ⟨⟨rfl, by decide⟩, fun p₁ h₁ => ?_⟩
    obtain rfl := Option.some.inj h₁
    refine ⟨⟨plainCall_selects rfl, by decide⟩, fun p₂ h₂ => ?_⟩
    obtain rfl := Option.some.inj h₂
    refine ⟨⟨trivial, by decide⟩, fun p₃ h₃ => ?_⟩
    obtain rfl := Option.some.inj h₃
    refine ⟨⟨plainCall_selects rfl, by decide⟩, fun p₄ h₄ => ?_⟩
    obtain rfl := Option.some.inj h₄
    refine ⟨⟨trivial, by decide⟩, fun p₅ h₅ => ?_⟩
    obtain rfl := Option.some.inj h₅
    exact ⟨⟨plainCall_selects rfl, by decide⟩, fun _ _ => trivial⟩
  exact ⟨c, _, rfl, bounded_of_reach (S := Nat) (Reach.of_guarded_run hrun halong)⟩

end Llmops.Router
