import Llmops.Auth.Actor
import Llmops.Instance
import Llmops.Lib.Erase

/-!
# The gate of the router

`authenticate` with its limiter and its quota (`llm_router/auth.py:24-82, 134-208`), the rows it
reads (`api_keys` and `operators`, `llmops_store.py:69-81, 373-396`), and the log rows that the
proxy writes once a request is over (`router.py:303-330`).

* A request is a coroutine. `authenticate` awaits the store at three places (`Pc`); between them it
  runs alone. Two clocks are read: `time.monotonic` and the wall clock.
* The cache is keyed by the hash of the token, the limiter and the quota by the name of the key.
* `hashKey` is SHA-256 and `decode` is what `jwt.decode` makes of a cookie: parameters.
* Calls of the store succeed. `last_used_at`, `prefix` and the other columns of a log row are left
  out; a request whose row names no model writes none and is never logged.
-/

namespace Llmops.Keys

open Llmops.Lib Llmops.Auth

/-! ## The tables -/

/-- A row of `api_keys`. -/
structure ApiKey where
  id : Nat
  name : String
  keyHash : String
  revoked : Bool := false
  rpmLimit : Option Int := none
  tokenQuota : Option Int := none
  quotaPeriod : Option String := none
  deriving DecidableEq, Repr

/-- The table: ids and hashes are unique, names are not. -/
structure ApiKeys where
  rows : List ApiKey
  ids : (rows.map (·.id)).Nodup
  hashes : (rows.map (·.keyHash)).Nodup

namespace ApiKeys

/-- `get_active_api_key_by_hash`. -/
def activeByHash (keys : ApiKeys) (hash : String) : Option ApiKey :=
  (keys.rows.find? fun row => row.keyHash = hash).filter fun row => !row.revoked

/-- `create_api_key`: the constraints of the schema. -/
def create (keys : ApiKeys) (row : ApiKey) : Option ApiKeys :=
  if h : row.id ∉ keys.rows.map (·.id) ∧ row.keyHash ∉ keys.rows.map (·.keyHash) then
    some {
      rows := row :: keys.rows
      ids := List.nodup_cons.mpr ⟨h.1, keys.ids⟩
      hashes := List.nodup_cons.mpr ⟨h.2, keys.hashes⟩ }
  else none

/-- The update that `revoke_api_key` makes of one row. -/
def revokeRow (id : Nat) (row : ApiKey) : ApiKey :=
  if row.id = id then { row with revoked := true } else row

theorem revokeRow_id (id : Nat) (row : ApiKey) : (revokeRow id row).id = row.id := by
  unfold revokeRow
  split_ifs <;> rfl

theorem revokeRow_keyHash (id : Nat) (row : ApiKey) : (revokeRow id row).keyHash = row.keyHash := by
  unfold revokeRow
  split_ifs <;> rfl

theorem revokeRow_name (id : Nat) (row : ApiKey) : (revokeRow id row).name = row.name := by
  unfold revokeRow
  split_ifs <;> rfl

/-- `revoke_api_key`. -/
def revoke (keys : ApiKeys) (id : Nat) : ApiKeys where
  rows := keys.rows.map (revokeRow id)
  ids := by
    simp only [List.map_map, Function.comp_def, revokeRow_id]
    exact keys.ids
  hashes := by
    simp only [List.map_map, Function.comp_def, revokeRow_keyHash]
    exact keys.hashes

end ApiKeys

/-- A row of `request_logs`, as far as the quota reads it. -/
structure LogRow where
  ts : Time
  apiKeyName : Option String
  totalTokens : Option Int

/-- `tokens_used_by_key`. -/
def tokensUsedByKey (logs : List LogRow) (name : String) (since : Option Time) : Int :=
  ((logs.filter fun row => row.apiKeyName = some name ∧ ∀ t ∈ since, t ≤ row.ts).map fun row =>
    row.totalTokens.getD 0).sum

/-! ## The request -/

/-- The credentials of a request: a header and the session cookie. -/
structure HttpRequest where
  authorization : String := ""
  cookie : Option String := none

/-- The environment and what the application holds: `sessionSecret` is `_session_secret`. -/
structure GateSettings where
  requireApiKey : Bool := true
  adminToken : String := ""
  sessionSecret : String := ""
  hasStore : Bool := true

/-- `_bearer`. -/
def bearer (req : HttpRequest) : Option String :=
  if lowerStartsWith req.authorization "bearer " then some (strip (sliceFrom req.authorization 7))
  else none

/-- `_session_actor`: who signed in, and the role. -/
def requestActor (decode : String → Option Session) (cfg : GateSettings) (req : HttpRequest) :
    Option (String × String) :=
  if cfg.sessionSecret = "" then none
  else ((truthy req.cookie).bind decode).bind fun claims =>
    (truthy claims.role).map fun role =>
      ((((truthy claims.email).or (truthy claims.name)).or (truthy claims.sub.join)).getD "sso",
        role)

/-- What `authenticate` comes to: the name that the request is attributed to, or an
`HTTPException` with its header. -/
inductive Answer where
  | admitted (name : Option String)
  | refused (status : Nat) (detail : String) (header : String × String)
  deriving DecidableEq, Repr

def Answer.unauthenticated (status : Nat) (detail : String) : Answer :=
  .refused status detail ("WWW-Authenticate", "Bearer")

def Answer.tooMany (detail : String) : Answer := .refused 429 detail ("Retry-After", "60")

/-- A value of `_cache`. -/
structure CacheEntry where
  keyId : Option Nat
  name : String
  rpmLimit : Option Int
  tokenQuota : Option Int
  quotaPeriod : Option String
  expiresAt : Time

/-- A value of `_quota_cache`. -/
structure QuotaEntry where
  used : Int
  periodStart : Time
  expiresAt : Time

/-- Where a request is: an await of the store, or an answer. -/
inductive Pc where
  | idle
  | keyRow (hash : String) (now : Time)
  | operatorRow (hash : String) (now : Time)
  | usage (name : String) (quota : Int) (period : Option String) (periodStart now : Time)
  | answered (answer : Answer)
  | logged (answer : Answer)
  deriving DecidableEq

/-- The router: its tables, its two caches, its limiter, its clocks and its requests. -/
structure Gate (ι : Type*) where
  keys : ApiKeys
  operators : Operators
  logs : List LogRow := []
  cache : String → Option CacheEntry := fun _ => none
  hits : String → List Time := fun _ => []
  quotaCache : String → Option QuotaEntry := fun _ => none
  mono : Time := 0
  wall : Time := 0
  pc : ι → Pc := fun _ => .idle

inductive GateEvent (ι : Type*) where
  | arrive (i : ι) (req : HttpRequest)
  | resume (i : ι)
  | log (i : ι) (totalTokens : Option Int)
  | clock (mono wall : Time)
  | create (row : ApiKey)
  | revoke (id : Nat)
  | operators (ops : Operators)

/-! ## The quota window -/

/-- The day of the month of a day since 1970-01-01. -/
def dayOfMonth (day : Int) : Int :=
  -- Years are counted from March, in eras of 400 years.
  let doe := (day + 719468) % 146097
  let yoe := (doe - doe / 1460 + doe / 36524 - doe / 146096) / 365
  let doy := doe - (365 * yoe + yoe / 4 - yoe / 100)
  doy - (153 * ((5 * doy + 2) / 153) + 2) / 5 + 1

example : dayOfMonth 0 = 1 ∧ dayOfMonth 19782 = 29 ∧ dayOfMonth 19783 = 1 := by decide

/-- `_period_start`. -/
def periodStart (quotaPeriod : Option String) (wall : Time) : Time :=
  let day := ⌊wall / 86400⌋
  if quotaPeriod = some "daily" then day * 86400
  else if quotaPeriod = some "monthly" then ((day - (dayOfMonth day - 1) : Int) : Time) * 86400
  else 0

namespace Gate

variable {ι : Type*} [DecidableEq ι]

def goto (g : Gate ι) (i : ι) (pc : Pc) : Gate ι := { g with pc := Function.update g.pc i pc }

def answer (g : Gate ι) (i : ι) (a : Answer) : Gate ι := g.goto i (.answered a)

/-! ## `authenticate` -/

/-- The timestamps of the trailing minute. -/
def trailing (g : Gate ι) (name : String) : List Time :=
  (g.hits name).dropWhile fun t => t ≤ g.mono - 60

/-- `_check_rate`, and the exception it raises. -/
def checkRate (g : Gate ι) (name : String) (rpmLimit : Option Int) : Gate ι × Option Answer :=
  match rpmLimit.filter (· ≠ 0) with
  | none => (g, none)
  | some limit =>
    if limit ≤ (g.trailing name).length then
      ({ g with hits := Function.update g.hits name (g.trailing name) },
        some (.tooMany s!"rate limit exceeded for key '{name}' ({limit}/min)"))
    else ({ g with hits := Function.update g.hits name (g.trailing name ++ [g.mono]) }, none)

/-- The comparison of `_check_quota`, and with it the end of `authenticate`. -/
def finish (g : Gate ι) (i : ι) (name : String) (quota : Int) (period : Option String)
    (used : Int) : Gate ι :=
  let window := (truthy period).getD "total"
  if quota ≤ used then
    g.answer i
      (.tooMany s!"token quota exceeded for key '{name}' ({used}/{quota} tokens, {window})")
  else g.answer i (.admitted (some name))

/-- `_check_quota`, up to its await. -/
def checkQuota (cfg : GateSettings) (g : Gate ι) (i : ι) (name : String) (tokenQuota : Option Int)
    (period : Option String) : Gate ι :=
  match tokenQuota.filter (· ≠ 0), cfg.hasStore with
  | some quota, true =>
    let start := periodStart period g.wall
    match (g.quotaCache name).filter fun c => c.periodStart = start ∧ g.mono < c.expiresAt with
    | some c => g.finish i name quota period c.used
    | none => g.goto i (.usage name quota period start g.mono)
  | _, _ => g.answer i (.admitted (some name))

/-- The two checks of a key. -/
def check (cfg : GateSettings) (g : Gate ι) (i : ι) (name : String)
    (rpmLimit tokenQuota : Option Int) (period : Option String) : Gate ι :=
  match g.checkRate name rpmLimit with
  | (g, some a) => g.answer i a
  | (g, none) => g.checkQuota cfg i name tokenQuota period

/-- `authenticate` of a token, up to its first await. -/
def lookup (cfg : GateSettings) (g : Gate ι) (i : ι) (hash : String) : Gate ι :=
  match (g.cache hash).filter (g.mono < ·.expiresAt) with
  | some c => g.check cfg i c.name c.rpmLimit c.tokenQuota c.quotaPeriod
  | none =>
    if cfg.hasStore then g.goto i (.keyRow hash g.mono)
    else g.answer i (.unauthenticated 401 "invalid or revoked API key")

section Authenticate

variable (hashKey : String → String) (decode : String → Option Session)

/-- `authenticate` up to its first await. -/
def arrive (cfg : GateSettings) (g : Gate ι) (i : ι) (req : HttpRequest) : Gate ι :=
  if cfg.requireApiKey = false then g.answer i (.admitted none)
  else match requestActor decode cfg req with
    | some (actor, role) =>
      if role = "viewer" then
        g.answer i (.unauthenticated 403 "viewer role cannot run inference")
      else g.answer i (.admitted (some actor))
    | none =>
      match truthy (bearer req) with
      | none => g.answer i (.unauthenticated 401 "missing API key")
      | some token =>
        if cfg.adminToken ≠ "" ∧ token = cfg.adminToken then
          g.answer i (.admitted (some "dashboard"))
        else g.lookup cfg i (hashKey token)

/-- `_cache[key_hash] = ...`. -/
def remember (g : Gate ι) (hash : String) (entry : CacheEntry) : Gate ι :=
  { g with cache := Function.update g.cache hash (some entry) }

/-- `_quota_cache[name] = ...`. -/
def noteUsage (g : Gate ι) (name : String) (entry : QuotaEntry) : Gate ι :=
  { g with quotaCache := Function.update g.quotaCache name (some entry) }

/-- `authenticate` after an await of the store. -/
def resume (cfg : GateSettings) (g : Gate ι) (i : ι) : Option (Gate ι) :=
  match g.pc i with
  | .keyRow hash now =>
    match g.keys.activeByHash hash with
    | some row =>
      let entry :=
        ⟨some row.id, row.name, row.rpmLimit, row.tokenQuota, row.quotaPeriod, now + 30⟩
      some ((g.remember hash entry).check cfg i row.name row.rpmLimit row.tokenQuota
        row.quotaPeriod)
    | none => some (g.goto i (.operatorRow hash now))
  | .operatorRow hash now =>
    match g.operators.activeByHash hash with
    | some op =>
      if op.role = "viewer" then
        some (g.answer i (.unauthenticated 403 "viewer role cannot run inference"))
      else some ((g.remember hash ⟨none, op.label, none, none, none, now + 30⟩).answer i
        (.admitted (some op.label)))
    | none => some (g.answer i (.unauthenticated 401 "invalid or revoked API key"))
  | .usage name quota period start now =>
    let used := tokensUsedByKey g.logs name (if start = 0 then none else some start)
    some ((g.noteUsage name ⟨used, start, now + 15⟩).finish i name quota period used)
  | _ => none

/-- `record_request`. -/
def record (g : Gate ι) (row : LogRow) : Gate ι := { g with logs := g.logs ++ [row] }

/-- `_record_request` of a request that was let through. -/
def log (g : Gate ι) (i : ι) (totalTokens : Option Int) : Option (Gate ι) :=
  match g.pc i with
  | .answered (.admitted name) =>
    some ((g.goto i (.logged (.admitted name))).record ⟨g.wall, name, totalTokens⟩)
  | _ => none

/-- Requests, log rows, time, and the tables that the backend writes. -/
def step (cfg : GateSettings) (g : Gate ι) : GateEvent ι → Option (Gate ι)
  | .arrive i req =>
    match g.pc i with
    | .idle => some (g.arrive hashKey decode cfg i req)
    | _ => none
  | .resume i => g.resume cfg i
  | .log i totalTokens => g.log i totalTokens
  | .clock mono wall => if g.mono ≤ mono then some { g with mono := mono, wall := wall } else none
  | .create row => (g.keys.create row).map fun keys => { g with keys := keys }
  | .revoke id => some { g with keys := g.keys.revoke id }
  | .operators ops => some { g with operators := ops }

end Authenticate

end Gate

end Llmops.Keys
