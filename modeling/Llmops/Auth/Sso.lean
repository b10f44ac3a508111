import Llmops.Auth.Actor
import Llmops.Lib.JsonText
import Llmops.Lib.Run
import Llmops.Lib.Signed
import Mathlib

/-!
# Logging in through an identity provider

`core/oidc.py` and `api/sso.py`: the redirect round-trip of a login, the two cookies that carry its
state, and the session that `resolve_actor` reads.

The server keeps no sessions. What it knows of a login in flight, and of a session, is in a signed
cookie, and both cookies are signed with the one `signing_secret`. `SsoState` is therefore the clock,
the cached discovery document and the callbacks in flight; `logins`, `granted` and `fetched` only
record what was issued and fetched so far.

* PyJWT with the secret is a `Signing`: a token is accepted while it is not expired.
* A payload is a dict: a field that is `none` is a key that is missing, and `email` and `name` may
  be null as well, which `get` does not tell apart.
* A callback has three parts, between which other requests run: what it checks before it asks for
  the discovery document, the document, and what it does with the provider's answer. An answer is
  `none` where `exchange_code` or the check of the token's signature raises.
* An event `fetched` is a discovery fetch that has come back; a handler goes on with the document
  that is then in the cache.
* `s256` is the PKCE challenge of a verifier, `lower` is `str.lower` and `str` is `str`. The text of
  the redirect to the provider and the attributes of the cookies are left out.
* `Granted.location_local`: a callback redirects within this site.
-/

namespace Llmops.Auth

open Llmops.Lib

/-! ## The settings and the role of an account -/

/-- The settings of `core/oidc.py`. -/
structure SsoSettings extends AuthSettings where
  oidcRedirectUrl : String := ""
  oidcScopes : String := "openid email profile"
  adminEmails : List String := []
  adminGroups : List String := []
  operatorGroups : List String := []
  viewerGroups : List String := []
  defaultRole : String := "viewer"
  sessionTtl : Int := 28800

/-- `role.value`. -/
def Role.value : Role → String
  | .viewer => "viewer"
  | .operator => "operator"
  | .admin => "admin"

theorem Role.ofValue_value (role : Role) : Role.ofValue role.value = some role := by
  cases role <;> rfl

theorem Role.value_ne_empty (role : Role) : role.value ≠ "" := by
  cases role <;> decide

/-- `map_role`. -/
def mapRole (lower : String → String) (str : Json → String) (settings : SsoSettings)
    (email : Option String) (groups : List Json) : Option Role :=
  let gset := groups.map str
  if (truthy email).any fun e => lower e ∈ settings.adminEmails.map lower then some .admin
  else if gset.any (· ∈ settings.adminGroups) then some .admin
  else if gset.any (· ∈ settings.operatorGroups) then some .operator
  else if gset.any (· ∈ settings.viewerGroups) then some .viewer
  else Role.ofValue (lower (strip settings.defaultRole))

/-- `_norm_groups`. -/
def normGroups : Json → List Json
  | .str raw =>
    (((raw.toList.map fun c => if c = ',' then ' ' else c).splitOnP isSpace).filter (· ≠ [])).map
      fun word => .str (.ofList word)
  | .arr groups => groups
  | _ => []

/-! ## The signed cookies -/

deriving instance DecidableEq for Session

/-- What is signed: the claims of a session, or the state of a login in flight. -/
structure Payload extends Session where
  state : Option String := none
  nonce : Option String := none
  verifier : Option String := none
  next : Option String := none
  redirect : Option String := none
  iat : Option Int := none
  exp : Option Int := none
  deriving DecidableEq

/-- The checks of `jwt.decode` on the claims: `exp` lies ahead and `iat` does not. -/
def live (now : ℚ) (p : Payload) : Bool :=
  p.exp.all (fun exp => now < exp) && p.iat.all fun iat => (iat : ℚ) ≤ now

/-- `jwt.encode` and `jwt.decode` with the signing secret. -/
abbrev Jwt := Signing live String

/-- `_TX_TTL`. -/
def txTtl : Int := 300

/-- `_DISCOVERY_TTL`. -/
def discoveryTtl : ℚ := 3600

/-- The claims of a verified id token. -/
structure IdClaims where
  sub : String
  email : Option String := none
  name : Option String := none
  nonce : Option String := none
  groups : Json := .null

/-- The payload of `make_session`. -/
def makeSession (settings : SsoSettings) (now : ℚ) (claims : IdClaims) (role : Role) : Payload where
  sub := some (some claims.sub)
  email := claims.email
  name := some (((truthy claims.name).or (truthy claims.email)).getD claims.sub)
  role := some role.value
  iat := some ⌊now⌋
  exp := some (⌊now⌋ + settings.sessionTtl)

/-- `read_session`. -/
def readSession (jwt : Jwt) (now : ℚ) (token : String) : Option Session :=
  (jwt.check now token).map Payload.toSession

/-- `read_tx`, where an empty dict counts as none. -/
def readTx (jwt : Jwt) (now : ℚ) (cookie : Option String) : Option Payload :=
  ((truthy cookie).bind (jwt.check now)).filter (· ≠ {})

/-! ## The endpoints -/

/-- An answer that is not a redirect. -/
structure HttpError where
  status : Nat
  detail : String
  deriving DecidableEq, Repr

/-- What Starlette answers when a handler raises. -/
def serverError : HttpError := ⟨500, "Internal Server Error"⟩

/-- `safe_next`. -/
def safeNext (target : Option String) : String :=
  match truthy target with
  | some target => if startsWith target "/" && !startsWith target "//" then target else "/"
  | none => "/"

/-- What a request says of where it came from. -/
structure Origin where
  scheme : String
  forwardedProto : Option String := none
  forwardedHost : Option String := none
  host : Option String := none

/-- `redirect_uri`. -/
def redirectUri (settings : SsoSettings) (origin : Origin) : String :=
  if settings.oidcRedirectUrl ≠ "" then settings.oidcRedirectUrl
  else
    let proto := origin.forwardedProto.getD origin.scheme
    let host := ((truthy origin.forwardedHost).or origin.host).getD "None"
    proto ++ "://" ++ host ++ "/api/auth/sso/callback"

/-- A discovery document. -/
structure Discovery where
  authorizationEndpoint : String
  tokenEndpoint : String
  jwksUri : String
  deriving DecidableEq, Repr

/-- The branch of `get_discovery` that does not fetch. -/
def cachedDiscovery (now : ℚ) (cache : Option (ℚ × Discovery)) : Option Discovery :=
  (cache.filter fun entry => now - entry.1 < discoveryTtl).map Prod.snd

/-- The random values of a login. -/
structure Secrets where
  state : String
  nonce : String
  verifier : String

/-- A login that was redirected to the provider. -/
structure Login where
  time : ℚ
  secrets : Secrets
  next : String
  redirect : String
  authorize : List (String × String)

/-- The payload of `make_tx`. -/
def Login.payload (l : Login) : Payload where
  state := some l.secrets.state
  nonce := some l.secrets.nonce
  verifier := some l.secrets.verifier
  next := some l.next
  redirect := some l.redirect
  exp := some (⌊l.time⌋ + txTtl)

/-- The parameters of `build_authorize_url`. -/
def authorizeParams (settings : SsoSettings) (state nonce challenge redirect : String) :
    List (String × String) :=
  [("response_type", "code"), ("client_id", settings.oidcClientId), ("redirect_uri", redirect),
    ("scope", settings.oidcScopes), ("state", state), ("nonce", nonce),
    ("code_challenge", challenge), ("code_challenge_method", "S256")]

/-- `_require_sso`. -/
def requireSso (settings : SsoSettings) : Except HttpError Unit :=
  if settings.ssoEnabled then .ok () else .error ⟨404, "SSO is not configured"⟩

/-- `sso_login`, with the random values that it draws. -/
def ssoLogin (s256 : String → String) (settings : SsoSettings) (now : ℚ)
    (discovery : Option Discovery) (origin : Origin) (next : Option String) (secrets : Secrets) :
    Except HttpError Login := do
  requireSso settings
  match discovery with
  | none => .error ⟨502, "OIDC provider unreachable"⟩
  | some _ =>
    let redirect := redirectUri settings origin
    .ok {
      time := now
      secrets := secrets
      next := safeNext next
      redirect := redirect
      authorize :=
        authorizeParams settings secrets.state secrets.nonce (s256 secrets.verifier) redirect }

/-- The query parameters of a callback. -/
structure Query where
  error : Option String := none
  errorDescription : Option String := none
  state : Option String := none
  code : Option String := none

/-- A callback whose transaction was accepted at `time`. -/
structure Pending where
  time : ℚ
  tx : Payload
  state : String
  code : String
  discovery : Option Discovery := none

/-- `sso_callback` up to the discovery document. -/
def beginCallback (jwt : Jwt) (settings : SsoSettings) (now : ℚ) (cookie : Option String)
    (query : Query) : Except HttpError Pending := do
  requireSso settings
  match truthy query.error with
  | some error =>
    .error ⟨400, "SSO error: " ++ (truthy query.errorDescription).getD error⟩
  | none =>
    match readTx jwt now cookie with
    | none => .error ⟨400, "missing or expired login transaction"⟩
    | some tx =>
      match truthy query.state, tx.state with
      | none, _ => .error ⟨400, "state mismatch"⟩
      | some _, none => .error serverError -- `tx["state"]`
      | some state, some expected =>
        if isAscii state = false ∨ isAscii expected = false then .error serverError
        else if state ≠ expected then .error ⟨400, "state mismatch"⟩
        else
          match truthy query.code with
          | none => .error ⟨400, "missing authorization code"⟩
          | some code => .ok { time := now, tx := tx, state := state, code := code }

/-- What `exchange_code` posts, next to the client's id and secret. -/
structure Exchange where
  tokenEndpoint : String
  code : String
  verifier : String
  redirect : String

/-- The exchange of a callback that has its discovery document. -/
def Pending.exchange (p : Pending) : Option Exchange := do
  let discovery ← p.discovery
  let verifier ← p.tx.verifier
  let redirect ← p.tx.redirect
  return ⟨discovery.tokenEndpoint, p.code, verifier, redirect⟩

/-- The claims of the id token that came back, if it is for this login: the `try` block. -/
def verified (p : Pending) (answer : Option IdClaims) : Option IdClaims := do
  let _ ← p.exchange
  let claims ← answer
  let nonce ← p.tx.nonce
  if claims.nonce = some nonce then some claims else none

/-- A session that was granted at `time`. -/
structure Granted where
  time : ℚ
  pending : Pending
  claims : IdClaims
  role : Role

section Finish

variable (lower : String → String) (str : Json → String)

/-- The role that an id token gets. -/
def roleOf (settings : SsoSettings) (claims : IdClaims) : Option Role :=
  mapRole lower str settings claims.email (normGroups claims.groups)

/-- `sso_callback` from the provider's answer on. -/
def finishCallback (settings : SsoSettings) (now : ℚ) (p : Pending) (answer : Option IdClaims) :
    Except HttpError Granted :=
  match verified p answer with
  | none => .error ⟨401, "SSO token exchange/verification failed"⟩
  | some claims =>
    match roleOf lower str settings claims with
    | none => .error ⟨403, "no role for this account"⟩
    | some role => .ok { time := now, pending := p, claims := claims, role := role }

end Finish

/-- The payload of a granted session. -/
def Granted.payload (settings : SsoSettings) (g : Granted) : Payload :=
  makeSession settings g.time g.claims g.role

/-- Where a callback that granted a session redirects to. -/
def Granted.location (g : Granted) : String := safeNext g.pending.tx.next

/-- **No open redirect**: it leads to a path of this site, whatever the transaction says. -/
theorem Granted.location_local (g : Granted) :
    startsWith g.location "/" = true ∧ startsWith g.location "//" = false := by
  unfold Granted.location safeNext
  split
  · split_ifs with hlocal
    · simpa using hlocal
    · decide
  · decide

/-! ## The system -/

/-- The server, with the record of what it issued. -/
structure SsoState where
  now : ℚ
  discovery : Option (ℚ × Discovery) := none
  pending : List Pending := []
  fetched : List (ℚ × Discovery) := []
  logins : List Login := []
  granted : List Granted := []

/-- The payloads signed so far. -/
def SsoState.issued (settings : SsoSettings) (s : SsoState) : Set Payload :=
  { p | (∃ l ∈ s.logins, l.payload = p) ∨ ∃ g ∈ s.granted, g.payload settings = p }

/-- What happens to the server. -/
inductive SsoEvent where
  | wait (δ : ℚ)
  | fetched (doc : Discovery)
  | login (origin : Origin) (next : Option String) (secrets : Secrets)
  | callback (cookie : Option String) (query : Query)
  | locate (i : Nat)
  | finish (i : Nat) (answer : Option IdClaims)
  | logout

section Step

variable (jwt : Jwt) (s256 lower : String → String) (str : Json → String) (settings : SsoSettings)

/-- One event; a request that fails changes nothing. -/
def ssoStep (s : SsoState) : SsoEvent → Option SsoState
  | .wait δ => if 0 ≤ δ then some { s with now := s.now + δ } else none
  | .fetched doc =>
    some { s with discovery := some (s.now, doc), fetched := (s.now, doc) :: s.fetched }
  | .login origin next secrets =>
    match ssoLogin s256 settings s.now (cachedDiscovery s.now s.discovery) origin next secrets with
    | .ok l => some { s with logins := l :: s.logins }
    | .error _ => some s
  | .callback cookie query =>
    match beginCallback jwt settings s.now cookie query with
    | .ok p => some { s with pending := s.pending ++ [p] }
    | .error _ => some s
  | .locate i => do
    let p ← s.pending[i]?
    match cachedDiscovery s.now s.discovery with
    | some doc => some { s with pending := s.pending.set i { p with discovery := some doc } }
    | none => some { s with pending := s.pending.eraseIdx i } -- the fetch raised
  | .finish i answer => do
    let p ← s.pending[i]?
    guard p.discovery.isSome
    match finishCallback lower str settings s.now p answer with
    | .ok g => some { s with pending := s.pending.eraseIdx i, granted := g :: s.granted }
    | .error _ => some { s with pending := s.pending.eraseIdx i }
  | .logout => some s -- `sso_logout` only tells the browser to drop its cookie

/-- Nobody forges the transaction of a callback. -/
def unforged (s : SsoState) : SsoEvent → Prop
  | .callback cookie _ => ∀ token ∈ cookie, jwt.Genuine s.now (s.issued settings) token
  | _ => True

/-- The states of the runs in which nobody forges a token. -/
def SsoReach : SsoState → SsoState → Prop :=
  Reach (ssoStep jwt s256 lower str settings) (unforged jwt settings)

end Step

end Llmops.Auth
