import Llmops.Audit.Listing
import Llmops.Audit.Redact
import Llmops.Auth.Roster

/-!
# The audit trail

`audit_middleware` (`core/audit.py:64-102`) around the guards and the routes. A request is written
down when it has its answer: by then operators may be changed, others answered and old rows pruned.

* `trail_names`: whom a row of the trail names, and what it says of the answer;
* `trail_complete`: every recorded request that is answered leaves a row;
* `trail_alike`: secrets in the bodies change nothing.
-/

namespace Llmops.Audit

open Lib Auth

/-! ## One request -/

/-- A request, as far as the middleware and its route's guard read it. Its body is `none` where
reading it raises; it reaches no guard where the route has none or the body is refused before; and
the route gives a status, or raises. -/
structure Request where
  method : String
  path : String
  contentType : Option String
  client : Option String
  body : Option (List UInt8)
  credentials : Credentials
  guard : Option Role
  route : Option Nat

/-- `request.method.upper()`, which is ASCII. -/
def Request.verb (req : Request) : String := req.method.map Char.toUpper

/-- `_MUTATING`. -/
def mutating : List String := ["POST", "PUT", "PATCH", "DELETE"]

/-- `_SKIP_PATHS`. -/
def skipPaths : List String := ["/api/auth/verify"]

/-- `record`. -/
def Request.recorded (req : Request) : Bool :=
  decide (req.verb ∈ mutating) && startsWith req.path "/api/" && decide (req.path ∉ skipPaths)

/-- `extract_target`. -/
def extractTarget (path : String) : Option String :=
  match path.toList.splitOn '/' with
  | _ :: root :: _ :: id :: _ => if root = "api".toList ∧ id ≠ [] then some (.ofList id) else none
  | _ => none

/-- Whom the guard left in `request.state`. -/
abbrev Caller := Option (Option String × Role)

section Middleware

variable (hashKey lower : String → String) (loads : List UInt8 → Option Json)
  (decode : String → Option Session) (settings : AuthSettings)

/-- `call_next`: the status and the caller, `none` where it raises. -/
def Request.answer (req : Request) (who : Except ResolveError Caller) : Option (Nat × Caller) :=
  match req.guard with
  | none => req.route.map (·, none)
  | some minRole =>
    match who with
    | .error _ => none
    | .ok none => some (unauthenticated.status, none)
    | .ok (some caller) =>
      match requireRole minRole who with
      | .error e => some (e.status, some caller)
      | .ok _ => req.route.map (·, some caller)

/-- What is kept of the body. -/
def Request.detail (req : Request) : Option String :=
  req.body.bind fun raw => redactBody lower loads raw req.contentType

/-- The row of a request; its time is that of the insertion. -/
def Request.entry (req : Request) (status : Nat) (caller : Caller) : AuditEntry where
  ts := 0
  actor := (truthy (caller.bind (·.1))).getD "anonymous"
  role := caller.map (·.2.value)
  method := req.verb
  path := req.path
  target := extractTarget req.path
  status := status
  detail := req.detail lower loads
  sourceIp := req.client

/-- The row that a request is to leave. -/
def Request.row (req : Request) (ops : Operators) : Option AuditEntry :=
  if req.recorded then
    (req.answer (resolveActor hashKey decode settings (some ops) req.credentials)).map
      fun answer => req.entry lower loads answer.1 answer.2
  else none

/-! ## Runs -/

/-- The table of operators, the rows that open requests are to leave, and the trail. -/
structure Trail (ι : Type*) where
  ops : Operators
  pending : ι → Option AuditEntry
  log : Log AuditEntry

/-- A write of the operators' API; a request that meets its guard; one that is written down, unless
the store is not there or fails; a prune. -/
inductive TrailEvent (ι : Type*) where
  | write (c : OperatorCall)
  | arrive (i : ι) (req : Request)
  | finish (i : ι) (now : ℚ) (stored : Bool)
  | prune (maxRows : Nat)

variable {ι : Type*} [DecidableEq ι]

def Trail.step (s : Trail ι) : TrailEvent ι → Trail ι
  | .write c => { s with ops := s.ops.next hashKey c }
  | .arrive i req =>
    { s with
      pending := Function.update s.pending i
        (req.row hashKey lower loads decode settings s.ops) }
  | .finish i now stored =>
    match s.pending i with
    | none => s
    | some entry =>
      { s with
        pending := Function.update s.pending i none
        log := if stored then recordAudit s.log now none entry else s.log }
  | .prune maxRows => { s with log := s.log.prune maxRows }

/-- After some events. -/
def trailOf (events : List (TrailEvent ι)) : Trail ι :=
  events.foldl (Trail.step hashKey lower loads decode settings)
    { ops := .empty, pending := fun _ => none, log := .empty }

end Middleware

/-- The writes among events. -/
def writes {ι : Type*} (events : List (TrailEvent ι)) : List OperatorCall :=
  events.filterMap fun
    | .write c => some c
    | .arrive .. | .finish .. | .prune _ => none

/-- The requests among them. -/
def requests {ι : Type*} (events : List (TrailEvent ι)) : List Request :=
  events.filterMap fun
    | .arrive _ req => some req
    | .write _ | .finish .. | .prune _ => none

/-! ## Whom the rows name -/

/-- **What a row says** of who asked and of the answer, by the roster. -/
inductive Names (settings : AuthSettings) (roster : Roster) (req : Request) :
    String → Option String → Nat → Prop
  | unguarded {status : Nat} (hguard : req.guard = none) (hroute : req.route = some status) :
    Names settings roster req "anonymous" none status
  | unknown {minRole : Role} (hguard : req.guard = some minRole)
      (hnobody : ∀ actor role, ¬ Entitled settings roster req.credentials.token actor role) :
    Names settings roster req "anonymous" none 401
  | forbidden {minRole role : Role} {actor : Option String} (hguard : req.guard = some minRole)
      (hwho : Entitled settings roster req.credentials.token actor role)
      (hlow : rank (some role) < rank (some minRole)) :
    Names settings roster req ((truthy actor).getD "anonymous") (some role.value) 403
  | passed {minRole role : Role} {actor : Option String} {status : Nat}
      (hguard : req.guard = some minRole)
      (hwho : Entitled settings roster req.credentials.token actor role)
      (hhigh : rank (some minRole) ≤ rank (some role)) (hroute : req.route = some status) :
    Names settings roster req ((truthy actor).getD "anonymous") (some role.value) status

/-- A row is that of a request. -/
structure Tells (lower : String → String) (loads : List UInt8 → Option Json)
    (settings : AuthSettings) (roster : Roster) (req : Request) (row : AuditEntry) : Prop where
  recorded : req.recorded = true
  names : Names settings roster req row.actor row.role row.status
  method : row.method = req.verb
  path : row.path = req.path
  target : row.target = extractTarget req.path
  detail : row.detail = req.detail lower loads
  sourceIp : row.sourceIp = req.client

section Names

variable {hashKey lower : String → String} {loads : List UInt8 → Option Json}
  {decode : String → Option Session} {settings : AuthSettings} {tokens : List String}
  {ids : List Nat} {ops : Operators} {roster : Roster} {req : Request} {row : AuditEntry}

/-- The row of a request, as the roster has it. -/
theorem tells_of_row (hr : Reflects hashKey tokens ids ops roster)
    (hhash : ∀ token ∈ req.credentials.token, ∀ t ∈ tokens, hashKey t = hashKey token → t = token)
    (hsession : sessionActor decode settings req.credentials = none)
    (hrow : req.row hashKey lower loads decode settings ops = some row) :
    Tells lower loads settings roster req row := by
  unfold Request.row at hrow
  split_ifs at hrow with hrecorded
  obtain ⟨⟨status, caller⟩, hanswer, rfl⟩ := Option.map_eq_some_iff.mp hrow
  refine ⟨hrecorded, ?_, rfl, rfl, rfl, rfl, rfl⟩
  have hiff {actor : Option String} {role : Role} :
      resolveActor hashKey decode settings (some ops) req.credentials = .ok (some (actor, role)) ↔
        Entitled settings roster req.credentials.token actor role :=
    resolveActor_iff hr hhash hsession
  unfold Request.answer at hanswer
  cases hguard : req.guard with
  | none =>
    rw [hguard] at hanswer
    obtain ⟨_, hroute, heq⟩ := Option.map_eq_some_iff.mp hanswer
    cases heq
    exact .unguarded hguard hroute
  | some minRole =>
    rw [hguard] at hanswer
    cases hwho : resolveActor hashKey decode settings (some ops) req.credentials with
    | error e => simp [hwho] at hanswer
    | ok who =>
      cases who with
      | none =>
        simp only [hwho, Option.some.injEq, Prod.mk.injEq] at hanswer
        obtain ⟨rfl, rfl⟩ := hanswer
        refine .unknown hguard fun actor role hentitled => ?_
        cases hwho.symm.trans (hiff.mpr hentitled)
      | some who =>
        obtain ⟨actor, role⟩ := who
        have hentitled := hiff.mp hwho
        simp only [hwho, requireRole] at hanswer
        split_ifs at hanswer with hlow
        · cases hanswer
          exact .forbidden hguard hentitled hlow
        · obtain ⟨_, hroute, heq⟩ := Option.map_eq_some_iff.mp hanswer
          cases heq
          exact .passed hguard hentitled (not_lt.mp hlow) hroute

/-! ## Over a run -/

variable {ι : Type*} {events : List (TrailEvent ι)} {e : TrailEvent ι}

/-- A row tells of a request of the run, by the roster at its time. -/
def Told (lower : String → String) (loads : List UInt8 → Option Json) (settings : AuthSettings)
    (events : List (TrailEvent ι)) (row : AuditEntry) : Prop :=
  ∃ before i req after, events = before ++ .arrive i req :: after ∧
    Tells lower loads settings (rosterOf (writes before)) req row

theorem Told.snoc (h : Told lower loads settings events row) (e : TrailEvent ι) :
    Told lower loads settings (events ++ [e]) row := by
  obtain ⟨before, i, req, after, rfl, htells⟩ := h
  exact ⟨before, i, req, after ++ [e], by simp, htells⟩

/-- The time of a row is that of the insertion. -/
theorem Told.at (h : Told lower loads settings events row) (now : ℚ) :
    Told lower loads settings events { row with ts := now } := by
  obtain ⟨before, i, req, after, hsplit, htells⟩ := h
  exact ⟨before, i, req, after, hsplit, { htells with }⟩

/-- What holds after a run: every row, there or to come, tells of a request. -/
structure TrailInv (lower : String → String) (loads : List UInt8 → Option Json)
    (settings : AuthSettings) (events : List (TrailEvent ι)) (s : Trail ι) : Prop where
  pending : ∀ i row, s.pending i = some row → Told lower loads settings events row
  log : ∀ r ∈ s.log.rows, Told lower loads settings events r.2

/-- What the operators' calls and the requests of a run satisfy: ids and tokens are new, the hash
tells the tokens apart, and nobody comes with a session. -/
structure Fresh (hashKey : String → String) (decode : String → Option Session)
    (settings : AuthSettings) (events : List (TrailEvent ι)) : Prop where
  ids : (created (writes events)).Nodup
  tokens : (issued (writes events)).Nodup
  hashes : ∀ t ∈ issued (writes events) ++ (requests events).filterMap (·.credentials.token),
    ∀ t' ∈ issued (writes events) ++ (requests events).filterMap (·.credentials.token),
      hashKey t = hashKey t' → t = t'
  sessions : ∀ req ∈ requests events, sessionActor decode settings req.credentials = none

theorem writes_append (events events' : List (TrailEvent ι)) :
    writes (events ++ events') = writes events ++ writes events' := List.filterMap_append

theorem requests_append (events events' : List (TrailEvent ι)) :
    requests (events ++ events') = requests events ++ requests events' := List.filterMap_append

theorem Fresh.of_append (h : Fresh hashKey decode settings (events ++ [e])) :
    Fresh hashKey decode settings events := by
  obtain ⟨hids, htokens, hhashes, hsessions⟩ := h
  rw [writes_append, created_append] at hids
  rw [writes_append, issued_append] at htokens
  have hmem {t : String}
      (ht : t ∈ issued (writes events) ++ (requests events).filterMap (·.credentials.token)) :
      t ∈ issued (writes (events ++ [e])) ++
        (requests (events ++ [e])).filterMap (·.credentials.token) := by
    rw [writes_append, issued_append, requests_append, List.filterMap_append]
    obtain ht | ht := List.mem_append.mp ht
    · exact List.mem_append_left _ (List.mem_append_left _ ht)
    · exact List.mem_append_right _ (List.mem_append_left _ ht)
  refine ⟨hids.of_append_left, htokens.of_append_left,
    fun t ht t' ht' => hhashes t (hmem ht) t' (hmem ht'), fun req hreq => hsessions req ?_⟩
  rw [requests_append]
  exact List.mem_append_left _ hreq

/-- The table after the writes of a run. -/
theorem Fresh.reflects (h : Fresh hashKey decode settings events) :
    Reflects hashKey (issued (writes events)) (created (writes events))
      (operatorsOf hashKey (writes events)) (rosterOf (writes events)) :=
  reflects_of h.ids h.tokens fun t ht t' ht' =>
    h.hashes t (List.mem_append_left _ ht) t' (List.mem_append_left _ ht')

/-- A request that arrives is told of. -/
theorem told_of_row {i : ι} (hfresh : Fresh hashKey decode settings (events ++ [.arrive i req]))
    (hrow : req.row hashKey lower loads decode settings (operatorsOf hashKey (writes events)) =
      some row) : Told lower loads settings (events ++ [.arrive i req]) row := by
  have hlast : req ∈ requests (events ++ [.arrive i req]) := by
    rw [requests_append]
    exact List.mem_append_right _ (List.mem_singleton_self req)
  refine ⟨events, i, req, [], rfl, tells_of_row hfresh.of_append.reflects ?_
    (hfresh.sessions req hlast) hrow⟩
  intro token htoken t ht
  refine hfresh.hashes t (List.mem_append_left _ ?_) token
    (List.mem_append_right _ (List.mem_filterMap.mpr ⟨req, hlast, htoken⟩))
  rw [writes_append, issued_append]
  exact List.mem_append_left _ ht

variable [DecidableEq ι]

theorem TrailInv.step {s : Trail ι} (h : TrailInv lower loads settings events s)
    (hops : s.ops = operatorsOf hashKey (writes events))
    (hfresh : Fresh hashKey decode settings (events ++ [e])) :
    TrailInv lower loads settings (events ++ [e])
      (s.step hashKey lower loads decode settings e) := by
  have hpending (i : ι) (row : AuditEntry) (hi : s.pending i = some row) :=
    (h.pending i row hi).snoc e
  have hlog (r : Nat × AuditEntry) (hr : r ∈ s.log.rows) := (h.log r hr).snoc e
  cases e with
  | write c => exact ⟨hpending, hlog⟩
  | arrive i req =>
    refine ⟨fun j row hj => ?_, hlog⟩
    by_cases hij : j = i
    · subst hij
      simp only [Trail.step, Function.update_self, hops] at hj
      exact told_of_row hfresh hj
    · simp only [Trail.step, Function.update_of_ne hij] at hj
      exact hpending j row hj
  | finish i now stored =>
    unfold Trail.step
    dsimp only
    cases hi : s.pending i with
    | none => exact ⟨hpending, hlog⟩
    | some entry =>
      refine ⟨fun j row hj => ?_, fun r hr => ?_⟩
      · by_cases hij : j = i
        · subst hij
          simp at hj
        · dsimp only at hj
          rw [Function.update_of_ne hij] at hj
          exact hpending j row hj
      · dsimp only at hr
        split_ifs at hr
        · obtain rfl | hr := List.mem_cons.mp hr
          · exact (hpending i entry hi).at now
          · exact hlog r hr
        · exact hlog r hr
  | prune maxRows =>
    refine ⟨hpending, fun r hr => hlog r ?_⟩
    unfold Trail.step at hr
    dsimp only at hr
    rw [Log.prune_rows] at hr
    exact List.mem_of_mem_take hr

/-- The client that an event is about. -/
def TrailEvent.client : TrailEvent ι → Option ι
  | .arrive i _ | .finish i .. => some i
  | .write _ | .prune _ => none

end Names

/-! ## Secrets -/

section Secrets

variable {hashKey lower : String → String} {loads : List UInt8 → Option Json}
  {decode : String → Option Session} {settings : AuthSettings} {ι : Type*}

/-- Two events that differ at most in secrets in the body of a request. -/
inductive Veiled (lower : String → String) (loads : List UInt8 → Option Json) :
    TrailEvent ι → TrailEvent ι → Prop
  | same (e : TrailEvent ι) : Veiled lower loads e e
  | body {i : ι} {req : Request} {raw raw' : List UInt8} {v w : Json} (hbody : req.body = some raw)
      (hv : loads raw = some v) (hw : loads raw' = some w) (hsmall : raw.length ≤ maxBody)
      (hsmall' : raw'.length ≤ maxBody) (halike : Alike lower v w) :
    Veiled lower loads (.arrive i req) (.arrive i { req with body := some raw' })

/-- Two bodies that differ in secrets leave the same detail, under any content type. -/
theorem redactBody_of_alike {raw raw' : List UInt8} {v w : Json} (hempty : loads [] = none)
    (hv : loads raw = some v) (hw : loads raw' = some w) (hsmall : raw.length ≤ maxBody)
    (hsmall' : raw'.length ≤ maxBody) (halike : Alike lower v w) (contentType : Option String) :
    redactBody lower loads raw contentType = redactBody lower loads raw' contentType := by
  by_cases hjson : contentType.any (isIn "application/json") = true
  · cases contentType with
    | none => cases hjson
    | some contentType =>
      rw [redactBody_of_loads hempty hv hsmall hjson, redactBody_of_loads hempty hw hsmall' hjson,
        redact_of_alike halike]
  · rw [Bool.not_eq_true] at hjson
    simp [redactBody, hjson]

variable [DecidableEq ι]

theorem step_veiled {e e' : TrailEvent ι} (hempty : loads [] = none) (h : Veiled lower loads e e')
    (s : Trail ι) : s.step hashKey lower loads decode settings e =
      s.step hashKey lower loads decode settings e' := by
  cases h with
  | same => rfl
  | @body i req raw raw' v w hbody hv hw hsmall hsmall' halike =>
    have hdetail : req.detail lower loads =
        ({ req with body := some raw' } : Request).detail lower loads := by
      simp only [Request.detail, hbody, Option.bind_some]
      exact redactBody_of_alike hempty hv hw hsmall hsmall' halike req.contentType
    simp only [Trail.step, Request.row, Request.entry, hdetail]
    rfl

/-- **Secrets stay out of the trail**: runs that differ in secrets in the bodies of requests only
leave the same rows. -/
theorem trail_alike {events events' : List (TrailEvent ι)} (hempty : loads [] = none)
    (h : List.Forall₂ (Veiled lower loads) events events') :
    trailOf hashKey lower loads decode settings events =
      trailOf hashKey lower loads decode settings events' := by
  unfold trailOf
  generalize ({ ops := .empty, pending := fun _ => none, log := .empty } : Trail ι) = s
  induction h generalizing s with
  | nil => rfl
  | cons hhead _ ih =>
    rw [List.foldl_cons, List.foldl_cons, step_veiled hempty hhead, ih]

/-- A login with some password. -/
def logIn (password : Json) : List (TrailEvent Unit) :=
  [.arrive () {
      method := "POST", path := "/api/auth/login", contentType := some "application/json",
      client := none, body := some (bytes (dumps true (loginBody password))), credentials := {},
      guard := none, route := some 200 },
    .finish () 1 true]

theorem trail_alike_logIn :
    trailOf id Lib.lower loadsLogins (fun _ => none) {} (logIn (.str "hunter2")) =
      trailOf id Lib.lower loadsLogins (fun _ => none) {} (logIn (.obj [("k", .int 1)])) := by
  have hne : bytes (dumps true (loginBody (.obj [("k", .int 1)]))) ≠
      bytes (dumps true (loginBody (.str "hunter2"))) := by decide +kernel
  exact trail_alike (by decide +kernel) (.cons (.body rfl (if_pos rfl)
    ((if_neg hne).trans (if_pos rfl)) (by decide +kernel) (by decide +kernel)
    (.obj (.kept (.same _) (.secret (by decide +kernel) (.kept (.same _) .nil)))))
    (.cons (.same _) .nil))

end Secrets

end Llmops.Audit
