import Llmops.Lib.Text
import Mathlib

/-!
# Who a request to the control API is

`extract_token` and `resolve_actor` (`core/auth.py:57-121`), `read_session` (`core/oidc.py:72-78`)
and the operators of the store (`llmops_store.py:116-125, 398-453`).

* `hashKey` is `hash_key`, and `decode` is what `jwt.decode` with the signing secret makes of a
  cookie: parameters.
* A table of operators carries the two uniqueness constraints of its schema. The columns that only
  the lists show (`prefix`, `created_at`, `last_used_at`) are left out.
* An exception of `compare_digest` (a text that is not ASCII) is an `Except` error.
-/

namespace Llmops.Auth

open Llmops.Lib

/-! ## Roles -/

/-- `Role`. -/
inductive Role where
  | viewer | operator | admin
  deriving DecidableEq, Repr

/-- `Role(value)`, or `ValueError`. -/
def Role.ofValue (value : String) : Option Role :=
  if value = "viewer" then some .viewer
  else if value = "operator" then some .operator
  else if value = "admin" then some .admin
  else none

/-- No role is below every role; above it is `_RANK`. -/
def rank : Option Role → Nat
  | none => 0
  | some .viewer => 1
  | some .operator => 2
  | some .admin => 3

theorem rank_eq_admin {role : Option Role} (h : rank (some .admin) ≤ rank role) :
    role = some .admin := by
  rcases role with _ | role
  · exact absurd h (by decide)
  · cases role
    · exact absurd h (by decide)
    · exact absurd h (by decide)
    · rfl

/-! ## The operators -/

/-- A row of `operators`. -/
structure Operator where
  id : Nat
  label : String
  tokenHash : String
  role : String
  revoked : Bool := false
  deriving DecidableEq, Repr

/-- The role of an operator; an unknown text in the database counts as the lowest. -/
def Operator.grants (op : Operator) : Role := (Role.ofValue op.role).getD .viewer

/-- The table: ids and token hashes are unique. -/
structure Operators where
  rows : List Operator
  ids : (rows.map (·.id)).Nodup
  hashes : (rows.map (·.tokenHash)).Nodup

namespace Operators

/-- `count_active_operators`. -/
def countActive (ops : Operators) : Nat := ops.rows.countP fun op => !op.revoked

/-- `get_active_operator_by_hash`. -/
def activeByHash (ops : Operators) (hash : String) : Option Operator :=
  (ops.rows.find? fun op => op.tokenHash = hash).filter fun op => !op.revoked

/-- The update that `revoke_operator` makes of one row. -/
def revokeRow (id : Nat) (op : Operator) : Operator :=
  if op.id = id ∧ op.revoked = false then { op with revoked := true } else op

theorem revokeRow_id (id : Nat) (op : Operator) : (revokeRow id op).id = op.id := by
  unfold revokeRow
  split_ifs <;> rfl

theorem revokeRow_tokenHash (id : Nat) (op : Operator) :
    (revokeRow id op).tokenHash = op.tokenHash := by
  unfold revokeRow
  split_ifs <;> rfl

/-- `revoke_operator`. -/
def revoke (ops : Operators) (id : Nat) : Operators where
  rows := ops.rows.map (revokeRow id)
  ids := by
    simp only [List.map_map, Function.comp_def, revokeRow_id]
    exact ops.ids
  hashes := by
    simp only [List.map_map, Function.comp_def, revokeRow_tokenHash]
    exact ops.hashes

end Operators

/-! ## The request -/

/-- The credentials of a request: two headers and the session cookie. -/
structure Credentials where
  authorization : Option String := none
  xAdminToken : Option String := none
  cookie : Option String := none

/-- `extract_token`. -/
def extractToken (authorization xAdminToken : Option String) : Option String :=
  match (truthy authorization).filter (lowerStartsWith · "bearer ") with
  | some header => some (strip (sliceFrom header 7))
  | none => (truthy xAdminToken).map strip

/-- The token of a request, unless it is empty. -/
def Credentials.token (req : Credentials) : Option String :=
  truthy (extractToken req.authorization req.xAdminToken)

/-- The settings of `resolve_actor`. -/
structure AuthSettings where
  adminToken : String := ""
  oidcIssuer : String := ""
  oidcClientId : String := ""
  oidcClientSecret : String := ""

/-- `auth_enabled`. -/
def AuthSettings.authEnabled (settings : AuthSettings) : Bool := settings.adminToken ≠ ""

/-- `sso_enabled`. -/
def AuthSettings.ssoEnabled (settings : AuthSettings) : Bool :=
  settings.oidcIssuer ≠ "" && settings.oidcClientId ≠ "" && settings.oidcClientSecret ≠ ""

/-- The claims of a session cookie; `sub` may be missing or null. -/
structure Session where
  role : Option String := none
  email : Option String := none
  name : Option String := none
  sub : Option (Option String) := none

/-- The actor of a session: `none` where the tuple of rule 2 raises `KeyError` or `ValueError`. -/
def Session.actor (sess : Session) : Option (Option String × Role) := do
  let role ← truthy sess.role
  let name ← ((truthy sess.email).or (truthy sess.name)).elim sess.sub fun name => some (some name)
  let role ← Role.ofValue role
  return (name, role)

/-- `secrets.compare_digest` raises on texts that are not ASCII. -/
inductive ResolveError where
  | typeError
  deriving DecidableEq, Repr

section Resolve

variable (hashKey : String → String) (decode : String → Option Session)

/-- Rule 2: a valid session cookie. -/
def sessionActor (settings : AuthSettings) (req : Credentials) : Option (Option String × Role) :=
  if settings.ssoEnabled then ((truthy req.cookie).bind decode).bind Session.actor else none

/-- Rule 3: a named operator credential. -/
def operatorActor (store : Option Operators) (token : Option String) :
    Option (Option String × Role) := do
  let token ← token
  let store ← store
  let op ← store.activeByHash (hashKey token)
  return (some op.label, op.grants)

/-- Rules 4 and 5: the admin token, or nobody. -/
def adminActor (settings : AuthSettings) (token : Option String) :
    Except ResolveError (Option (Option String × Role)) :=
  match token with
  | none => .ok none
  | some token =>
    if settings.adminToken = "" then .ok none
    else if isAscii token = false ∨ isAscii settings.adminToken = false then .error .typeError
    else if token = settings.adminToken then .ok (some (some "admin", .admin))
    else .ok none

/-- `resolve_actor`. -/
def resolveActor (settings : AuthSettings) (store : Option Operators) (req : Credentials) :
    Except ResolveError (Option (Option String × Role)) :=
  let nOps := (store.map Operators.countActive).getD 0
  -- 1. open local development
  if settings.authEnabled = false ∧ settings.ssoEnabled = false ∧ nOps = 0 then
    .ok (some (some "local-dev", .admin))
  else match sessionActor decode settings req with
    | some actor => .ok (some actor)
    | none =>
      match operatorActor hashKey store req.token with
      | some actor => .ok (some actor)
      | none => adminActor settings req.token

/-- The role that a request gets: none as well when resolving it raises. -/
def resolvedRole (settings : AuthSettings) (store : Option Operators) (req : Credentials) :
    Option Role :=
  match resolveActor hashKey decode settings store req with
  | .ok (some actor) => some actor.2
  | _ => none

end Resolve

end Llmops.Auth
