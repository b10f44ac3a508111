import Llmops.Auth.Actor

/-!
# Revoking an operator

`RevocationSafe` compares what `resolve_actor` answers to one request before and after
`revoke_operator`: the role is not higher, and a request that only the operator's token
authenticates gets none.

The first rule of the resolver asks for the number of active operators, not for that of the
operators ever created. Where neither an admin token nor SSO is configured, revoking the last
operator therefore opens the API to everybody.

* `revocationSafe_iff`: exactly when a revocation is safe for a request;
* `last_revocation_opens`: the revocation of the only operator makes an anonymous request an admin.
-/

namespace Llmops.Auth

open Llmops.Lib

namespace Operators

variable {ops : Operators} {op : Operator}

/-- A lookup after a revocation finds what it found before, but for the revoked row. -/
theorem activeByHash_revoke (ops : Operators) (id : Nat) (hash : String) :
    (ops.revoke id).activeByHash hash = (ops.activeByHash hash).filter fun op => op.id ≠ id := by
  have hsame : (fun op : Operator => decide (op.tokenHash = hash)) ∘ revokeRow id =
      fun op => decide (op.tokenHash = hash) := by
    funext op
    simp only [Function.comp_apply, revokeRow_tokenHash]
  unfold activeByHash
  rw [show (ops.revoke id).rows = ops.rows.map (revokeRow id) from rfl, List.find?_map, hsame]
  cases ops.rows.find? fun op => decide (op.tokenHash = hash) with
  | none => rfl
  | some found =>
    unfold revokeRow
    by_cases hid : found.id = id <;> by_cases hr : found.revoked = false <;>
      simp [hid, hr, Option.filter]

/-- An active operator is found by its hash. -/
theorem activeByHash_of_mem (hmem : op ∈ ops.rows) (hactive : op.revoked = false) :
    ops.activeByHash op.tokenHash = some op := by
  have hfind : ops.rows.find? (fun o => decide (o.tokenHash = op.tokenHash)) = some op := by
    cases hf : ops.rows.find? fun o => decide (o.tokenHash = op.tokenHash) with
    | none => exact absurd (List.find?_eq_none.mp hf op hmem) (by simp)
    | some found =>
      have hhash : found.tokenHash = op.tokenHash := by simpa using List.find?_some hf
      rw [List.inj_on_of_nodup_map ops.hashes (List.mem_of_find?_eq_some hf) hmem hhash]
  unfold activeByHash
  rw [hfind]
  simp [Option.filter, hactive]

theorem mem_of_activeByHash {hash : String} {found : Operator}
    (h : ops.activeByHash hash = some found) :
    found ∈ ops.rows ∧ found.tokenHash = hash ∧ found.revoked = false := by
  obtain ⟨hf, hr⟩ := Option.filter_eq_some_iff.mp h
  refine ⟨List.mem_of_find?_eq_some hf, by simpa using List.find?_some hf, ?_⟩
  simpa using hr

/-- An operator is active: the count is not zero. -/
theorem countActive_ne_zero (hmem : op ∈ ops.rows) (hactive : op.revoked = false) :
    ops.countActive ≠ 0 := by
  intro h
  have hnone := List.countP_eq_zero.mp h op hmem
  simp [hactive] at hnone

/-- Nobody is left after a revocation if nobody else was active. -/
theorem countActive_revoke_eq_zero (ops : Operators) (id : Nat) :
    (ops.revoke id).countActive = 0 ↔ ∀ op ∈ ops.rows, op.id ≠ id → op.revoked = true := by
  unfold countActive
  rw [show (ops.revoke id).rows = ops.rows.map (revokeRow id) from rfl, List.countP_map,
    List.countP_eq_zero]
  refine forall₂_congr fun op _ => ?_
  unfold revokeRow
  by_cases hid : op.id = id <;> by_cases hr : op.revoked = false <;> simp [hid, hr]

end Operators

variable (hashKey : String → String) (decode : String → Option Session)

/-! ## The property -/

/-- Nothing but the operator's token authenticates the request. -/
def OnlyToken (settings : AuthSettings) (op : Operator) (req : Credentials) : Prop :=
  sessionActor decode settings req = none ∧
    ∃ token, req.token = some token ∧ hashKey token = op.tokenHash ∧ token ≠ settings.adminToken

/-- The role of a request before and after operator `op` is revoked. -/
def RevocationSafe (settings : AuthSettings) (ops : Operators) (op : Operator)
    (req : Credentials) : Prop :=
  rank (resolvedRole hashKey decode settings (some (ops.revoke op.id)) req) ≤
      rank (resolvedRole hashKey decode settings (some ops) req) ∧
    (OnlyToken hashKey decode settings op req →
      resolvedRole hashKey decode settings (some (ops.revoke op.id)) req = none)

/-- The revoked token is the admin token too, and the operator was not an admin. -/
def TokenIsAdminToken (settings : AuthSettings) (op : Operator) (req : Credentials) : Prop :=
  sessionActor decode settings req = none ∧
    ∃ token, req.token = some token ∧ hashKey token = op.tokenHash ∧
      token = settings.adminToken ∧ isAscii token = true ∧ op.grants ≠ .admin

/-! ## The rules one by one -/

/-- The API is open: rule 1. -/
def IsOpen (settings : AuthSettings) (ops : Operators) : Prop :=
  settings.authEnabled = false ∧ settings.ssoEnabled = false ∧ ops.countActive = 0

/-- The role that rule 4 gives. -/
def adminRole (settings : AuthSettings) (token : String) : Option Role :=
  if settings.adminToken ≠ "" ∧ isAscii token = true ∧ token = settings.adminToken then
    some .admin
  else none

variable {hashKey decode} {settings : AuthSettings} {ops : Operators} {op : Operator}
  {req : Credentials} {token : String}

theorem resolvedRole_open (h : IsOpen settings ops) :
    resolvedRole hashKey decode settings (some ops) req = some .admin := by
  simp [resolvedRole, resolveActor, h.1, h.2.1, h.2.2]

/-- Where the API is closed, the rules from the second on decide. -/
theorem resolveActor_closed (h : ¬ IsOpen settings ops) :
    resolveActor hashKey decode settings (some ops) req =
      match sessionActor decode settings req with
      | some actor => .ok (some actor)
      | none =>
        match operatorActor hashKey (some ops) req.token with
        | some actor => .ok (some actor)
        | none => adminActor settings req.token := by
  unfold IsOpen at h
  unfold resolveActor
  simp only [Option.map_some, Option.getD_some]
  exact if_neg h

theorem resolvedRole_session (h : ¬ IsOpen settings ops) {actor : Option String × Role}
    (hs : sessionActor decode settings req = some actor) :
    resolvedRole hashKey decode settings (some ops) req = some actor.2 := by
  unfold resolvedRole
  rw [resolveActor_closed h, hs]

theorem resolvedRole_anonymous (h : ¬ IsOpen settings ops)
    (hs : sessionActor decode settings req = none) (ht : req.token = none) :
    resolvedRole hashKey decode settings (some ops) req = none := by
  unfold resolvedRole
  rw [resolveActor_closed h, hs, ht]
  rfl

theorem resolvedRole_operator (h : ¬ IsOpen settings ops)
    (hs : sessionActor decode settings req = none) (ht : req.token = some token)
    {found : Operator} (hfound : ops.activeByHash (hashKey token) = some found) :
    resolvedRole hashKey decode settings (some ops) req = some found.grants := by
  have hop : operatorActor hashKey (some ops) (some token) =
      some (some found.label, found.grants) := by simp [operatorActor, hfound]
  unfold resolvedRole
  rw [resolveActor_closed h, hs, ht, hop]

theorem resolvedRole_admin (h : ¬ IsOpen settings ops)
    (hs : sessionActor decode settings req = none) (ht : req.token = some token)
    (hfound : ops.activeByHash (hashKey token) = none) :
    resolvedRole hashKey decode settings (some ops) req = adminRole settings token := by
  have hop : operatorActor hashKey (some ops) (some token) = none := by
    simp [operatorActor, hfound]
  unfold resolvedRole
  rw [resolveActor_closed h, hs, ht, hop]
  unfold adminActor adminRole
  by_cases hadmin : settings.adminToken = ""
  · simp [hadmin]
  · by_cases hascii : isAscii token = true
    · by_cases heq : token = settings.adminToken
      · simp [hadmin, heq ▸ hascii, heq]
      · by_cases hadminAscii : isAscii settings.adminToken = true <;>
          simp [hadmin, hascii, heq, hadminAscii]
    · simp [hadmin, hascii]

/-! ## The revocation -/

/-- An active operator keeps the API closed. -/
theorem not_isOpen (hmem : op ∈ ops.rows) (hactive : op.revoked = false) :
    ¬ IsOpen settings ops := by
  rintro ⟨-, -, hcount⟩
  exact Operators.countActive_ne_zero hmem hactive hcount

/-- The API stays closed if an admin token, SSO or another active operator is left. -/
theorem isOpen_revoke_iff (id : Nat) :
    ¬ IsOpen settings (ops.revoke id) ↔
      settings.authEnabled = true ∨ settings.ssoEnabled = true ∨
        ∃ other ∈ ops.rows, other.id ≠ id ∧ other.revoked = false := by
  unfold IsOpen
  rw [Operators.countActive_revoke_eq_zero]
  constructor
  · intro h
    by_contra hleft
    simp only [not_or, Bool.not_eq_true, not_exists, not_and, Bool.not_eq_false] at hleft
    exact h ⟨hleft.1, hleft.2.1, hleft.2.2⟩
  · rintro hleft ⟨hauth, hsso, hall⟩
    rcases hleft with h | h | ⟨other, hother, hne, hr⟩
    · rw [hauth] at h
      exact absurd h (by decide)
    · rw [hsso] at h
      exact absurd h (by decide)
    · rw [hall other hother hne] at hr
      exact absurd hr (by decide)

/-- The lookups after the revocation, from those before. -/
theorem activeByHash_revoke_of_none {hash : String} (id : Nat)
    (h : ops.activeByHash hash = none) : (ops.revoke id).activeByHash hash = none := by
  rw [Operators.activeByHash_revoke, h]
  rfl

theorem activeByHash_revoke_self {hash : String} (h : ops.activeByHash hash = some op) :
    (ops.revoke op.id).activeByHash hash = none := by
  rw [Operators.activeByHash_revoke, h]
  simp [Option.filter]

theorem activeByHash_revoke_other {hash : String} {found : Operator}
    (h : ops.activeByHash hash = some found) (hne : found.id ≠ op.id) :
    (ops.revoke op.id).activeByHash hash = some found := by
  rw [Operators.activeByHash_revoke, h]
  simp [Option.filter, hne]

/-- The operator that a token finds is `op` or has another id. -/
theorem eq_or_id_ne (hmem : op ∈ ops.rows) {hash : String} {found : Operator}
    (h : ops.activeByHash hash = some found) : found = op ∨ found.id ≠ op.id := by
  by_cases hid : found.id = op.id
  · left
    exact List.inj_on_of_nodup_map ops.ids (Operators.mem_of_activeByHash h).1 hmem hid
  · right
    exact hid

theorem token_ne_empty (h : req.token = some token) : token ≠ "" :=
  (truthy_eq_some.mp h).2

/-- **An opened API is unsafe for every request**: all are answered as an admin. One that was below
is raised, and one that was not had the revoked token as its only credential. -/
theorem not_revocationSafe_of_open (hmem : op ∈ ops.rows) (hactive : op.revoked = false)
    (hopen : IsOpen settings (ops.revoke op.id)) :
    ¬ RevocationSafe hashKey decode settings ops op req := by
  rintro ⟨hle, honly⟩
  rw [resolvedRole_open hopen] at hle honly
  have hbefore := rank_eq_admin hle
  have hclosed : ¬ IsOpen settings ops := not_isOpen hmem hactive
  obtain ⟨hauth, hsso, hcount⟩ := hopen
  have hadmin : settings.adminToken = "" := by simpa [AuthSettings.authEnabled] using hauth
  have hs : sessionActor decode settings req = none := by simp [sessionActor, hsso]
  cases ht : req.token with
  | none =>
    rw [resolvedRole_anonymous hclosed hs ht] at hbefore
    exact absurd hbefore (by simp)
  | some token =>
    cases hfound : ops.activeByHash (hashKey token) with
    | none =>
      rw [resolvedRole_admin hclosed hs ht hfound] at hbefore
      simp [adminRole, hadmin] at hbefore
    | some found =>
      obtain ⟨hin, hhash, hr⟩ := Operators.mem_of_activeByHash hfound
      rcases eq_or_id_ne hmem hfound with rfl | hne
      · refine absurd (honly ⟨hs, token, ht, hhash.symm, ?_⟩) (by simp)
        rw [hadmin]
        exact token_ne_empty ht
      · have hgone := (Operators.countActive_revoke_eq_zero ops op.id).mp hcount found hin hne
        rw [hr] at hgone
        exact absurd hgone (by decide)

/-- A token that does not find the operator has another hash. -/
theorem hashKey_ne (hmem : op ∈ ops.rows) (hactive : op.revoked = false)
    (hfound : ops.activeByHash (hashKey token) ≠ some op) : hashKey token ≠ op.tokenHash := by
  intro h
  rw [h] at hfound
  exact hfound (Operators.activeByHash_of_mem hmem hactive)

/-- A request with a token of another hash is neither of the two special ones. -/
theorem other_token (decode : String → Option Session) (settings : AuthSettings)
    (ht : req.token = some token) (hother : hashKey token ≠ op.tokenHash) :
    ¬ OnlyToken hashKey decode settings op req ∧
      ¬ TokenIsAdminToken hashKey decode settings op req := by
  constructor
  · rintro ⟨-, token', htoken', hhash, -⟩
    rw [ht, Option.some_inj] at htoken'
    exact hother (htoken' ▸ hhash)
  · rintro ⟨-, token', htoken', hhash, -⟩
    rw [ht, Option.some_inj] at htoken'
    exact hother (htoken' ▸ hhash)

/-- The operator's own token, once revoked: rule 4 is all that is left for it. -/
theorem revokedToken_iff (hs : sessionActor decode settings req = none)
    (ht : req.token = some token) (hhash : hashKey token = op.tokenHash) :
    rank (adminRole settings token) ≤ rank (some op.grants) ∧
        (OnlyToken hashKey decode settings op req → adminRole settings token = none) ↔
      ¬ TokenIsAdminToken hashKey decode settings op req := by
  have hne := token_ne_empty ht
  constructor
  · rintro ⟨hle, -⟩ ⟨-, token', htoken', -, hadmin, hascii, hgrants⟩
    rw [ht, Option.some_inj] at htoken'
    subst htoken'
    rw [adminRole, if_pos ⟨hadmin ▸ hne, hascii, hadmin⟩] at hle
    exact hgrants (Option.some_inj.mp (rank_eq_admin hle))
  · intro hnot
    refine ⟨?_, ?_⟩
    · unfold adminRole
      split_ifs with hadmin
      · by_cases hgrants : op.grants = .admin
        · simp only [hgrants, Nat.le_refl]
        · exact absurd ⟨hs, token, ht, hhash, hadmin.2.2, hadmin.2.1, hgrants⟩ hnot
      · exact Nat.zero_le _
    · rintro ⟨-, token', htoken', -, hother⟩
      rw [ht, Option.some_inj] at htoken'
      subst htoken'
      rw [adminRole, if_neg fun h => hother h.2.2]

/-- While the API stays closed, a revocation is unsafe only for a request whose token is the
operator's and the admin's. -/
theorem revocationSafe_of_closed (hmem : op ∈ ops.rows) (hactive : op.revoked = false)
    (hafter : ¬ IsOpen settings (ops.revoke op.id)) :
    RevocationSafe hashKey decode settings ops op req ↔
      ¬ TokenIsAdminToken hashKey decode settings op req := by
  have hbefore : ¬ IsOpen settings ops := not_isOpen hmem hactive
  unfold RevocationSafe
  cases hs : sessionActor decode settings req with
  | some actor =>
    have hsome {P : Prop} (hnone : sessionActor decode settings req = none) : P := by
      rw [hnone] at hs
      exact absurd hs (by simp)
    rw [resolvedRole_session hbefore hs, resolvedRole_session hafter hs]
    exact iff_of_true ⟨Nat.le_refl _, fun honly => hsome honly.1⟩ fun hboth => hsome hboth.1
  | none =>
    cases ht : req.token with
    | none =>
      rw [resolvedRole_anonymous hbefore hs ht, resolvedRole_anonymous hafter hs ht]
      refine iff_of_true ⟨Nat.le_refl _, fun _ => rfl⟩ ?_
      rintro ⟨-, token, htoken, -⟩
      rw [ht] at htoken
      exact absurd htoken (by simp)
    | some token =>
      cases hfound : ops.activeByHash (hashKey token) with
      | none =>
        -- the token is nobody's: rule 4 answers as before
        obtain ⟨honly, hboth⟩ := other_token decode settings ht
          (hashKey_ne hmem hactive (by rw [hfound]; rintro ⟨⟩))
        rw [resolvedRole_admin hbefore hs ht hfound,
          resolvedRole_admin hafter hs ht (activeByHash_revoke_of_none op.id hfound)]
        exact iff_of_true ⟨Nat.le_refl _, fun h => absurd h honly⟩ hboth
      | some found =>
        obtain ⟨hin, hhash, hr⟩ := Operators.mem_of_activeByHash hfound
        rcases eq_or_id_ne hmem hfound with rfl | hne
        · rw [resolvedRole_operator hbefore hs ht hfound,
            resolvedRole_admin hafter hs ht (activeByHash_revoke_self hfound)]
          exact revokedToken_iff hs ht hhash.symm
        · -- the token is another operator's: rule 3 answers as before
          obtain ⟨honly, hboth⟩ := other_token decode settings ht
            (hashKey_ne hmem hactive (by
              rw [hfound, ne_eq, Option.some_inj]
              exact fun h => hne (congrArg Operator.id h)))
          rw [resolvedRole_operator hbefore hs ht hfound,
            resolvedRole_operator hafter hs ht (activeByHash_revoke_other hfound hne)]
          exact iff_of_true ⟨Nat.le_refl _, fun h => absurd h honly⟩ hboth

/-- **When a revocation is safe**: for an active operator and any request, the API must stay closed
and the operator's token must not be the admin token as well. -/
theorem revocationSafe_iff (hmem : op ∈ ops.rows) (hactive : op.revoked = false) :
    RevocationSafe hashKey decode settings ops op req ↔
      (settings.authEnabled = true ∨ settings.ssoEnabled = true ∨
          ∃ other ∈ ops.rows, other.id ≠ op.id ∧ other.revoked = false) ∧
        ¬ TokenIsAdminToken hashKey decode settings op req := by
  rw [← isOpen_revoke_iff]
  by_cases hopen : IsOpen settings (ops.revoke op.id)
  · exact iff_of_false (not_revocationSafe_of_open hmem hactive hopen) fun h => h.1 hopen
  · rw [revocationSafe_of_closed hmem hactive hopen]
    exact ⟨fun h => ⟨hopen, h⟩, And.right⟩

/-! ## The last operator -/

/-- An operator of some role. -/
def alice (role : String) : Operator := { id := 1, label := "alice", tokenHash := "a", role := role }

/-- A table with one operator. -/
def onlyAlice (role : String) : Operators where
  rows := [alice role]
  ids := by simp
  hashes := by simp

theorem revocationSafe_alice :
    RevocationSafe id (fun _ => none) { adminToken := "t" } (onlyAlice "operator")
      (alice "operator") { xAdminToken := some "a" } := by
  refine (revocationSafe_iff (by simp [onlyAlice]) rfl).mpr ⟨.inl (by decide), ?_⟩
  rintro ⟨-, token, -, hhash, hadmin, -⟩
  exact absurd (hhash.symm.trans hadmin : "a" = "t") (by decide)

/-- **The last revocation opens the API**: with no admin token and no SSO, the operator created as
the only one is revoked, and a request without any credential gets the role of an admin. -/
theorem last_revocation_opens :
    ¬ ∀ (hashKey : String → String) (decode : String → Option Session) (settings : AuthSettings)
      (ops : Operators) (op : Operator) (req : Credentials),
      op ∈ ops.rows → op.revoked = false → RevocationSafe hashKey decode settings ops op req := by
  intro h
  have hsafe := h id (fun _ => none) {} (onlyAlice "admin") (alice "admin") {}
    (by simp [onlyAlice]) rfl
  exact absurd hsafe.1 (by decide)

end Llmops.Auth
