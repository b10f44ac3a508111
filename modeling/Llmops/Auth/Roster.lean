import Llmops.Auth.Revoke
import Llmops.Auth.Sso

/-!
# Operators over their lifetimes

The four writes of the operators' API (`api/auth.py:122-163`, `llmops_store.py:398-475`) in any
order, against the rows with token hashes; and what `require_role` (`core/auth.py:124-148`) lets
through.
A `Roster` says what is meant: who may log in, each with one token and one role.

* `reflects_of`: after every history the active rows are those of the roster;
* `guards_history`: who gets through a guard then.

Tokens are drawn at random and ids are given by the database, so that in a history none comes
twice. A label is as the handler stores it, stripped.
-/

namespace Llmops.Auth

open Llmops.Lib

/-! ## The writes -/

/-- A write of the operators' API, with the token it draws or the id that the database gives. -/
inductive OperatorCall where
  | create (id : Nat) (label : String) (role : Role) (token : String)
  | setRole (id : Nat) (role : Role)
  | rotate (id : Nat) (token : String)
  | revoke (id : Nat)
  deriving DecidableEq, Repr

namespace Operators

/-- `UPDATE operators SET ... WHERE id = ? AND revoked = 0`, on one row. -/
def updateRow (id : Nat) (f : Operator → Operator) (op : Operator) : Operator :=
  if op.id = id ∧ op.revoked = false then f op else op

/-- `INSERT INTO operators`: refused where a value that is unique is there. -/
def insert (ops : Operators) (op : Operator) : Operators :=
  if h : op.id ∉ ops.rows.map (·.id) ∧ op.tokenHash ∉ ops.rows.map (·.tokenHash) then
    { rows := ops.rows ++ [op]
      ids := by
        rw [List.map_append]
        exact ops.ids.append (List.nodup_singleton _)
          (List.disjoint_singleton.mpr h.1)
      hashes := by
        rw [List.map_append]
        exact ops.hashes.append (List.nodup_singleton _)
          (List.disjoint_singleton.mpr h.2) }
  else ops

/-- An update of rows, refused where it would make two ids or two hashes equal. -/
def updateWhere (ops : Operators) (id : Nat) (f : Operator → Operator) : Operators :=
  if h : ((ops.rows.map (updateRow id f)).map (·.id)).Nodup ∧
      ((ops.rows.map (updateRow id f)).map (·.tokenHash)).Nodup then
    ⟨ops.rows.map (updateRow id f), h.1, h.2⟩
  else ops

/-- `set_operator_role`. -/
def setOperatorRole (ops : Operators) (id : Nat) (role : String) : Operators :=
  ops.updateWhere id fun op => { op with role := role }

/-- `rotate_operator_token`. -/
def rotateOperatorToken (ops : Operators) (id : Nat) (hash : String) : Operators :=
  ops.updateWhere id fun op => { op with tokenHash := hash }

/-- What a write does. -/
def next (hashKey : String → String) (ops : Operators) : OperatorCall → Operators
  | .create id label role token =>
    ops.insert { id, label, tokenHash := hashKey token, role := role.value }
  | .setRole id role => ops.setOperatorRole id role.value
  | .rotate id token => ops.rotateOperatorToken id (hashKey token)
  | .revoke id => ops.revoke id

/-- The table before the first write. -/
def empty : Operators := ⟨[], List.nodup_nil, List.nodup_nil⟩

end Operators

/-! ## The roster -/

/-- Somebody who may log in. -/
structure Holder where
  label : String
  token : String
  role : Role
  deriving DecidableEq, Repr

/-- Who may log in, by id. -/
abbrev Roster := Nat → Option Holder

/-- What a write is meant to do. -/
def Roster.next (roster : Roster) : OperatorCall → Roster
  | .create id label role token => Function.update roster id (some ⟨label, token, role⟩)
  | .setRole id role => Function.update roster id ((roster id).map fun h => { h with role })
  | .rotate id token => Function.update roster id ((roster id).map fun h => { h with token })
  | .revoke id => Function.update roster id none

/-- After a history of writes. -/
def rosterOf (calls : List OperatorCall) : Roster := calls.foldl Roster.next fun _ => none

/-- The table after it. -/
def operatorsOf (hashKey : String → String) (calls : List OperatorCall) : Operators :=
  calls.foldl (Operators.next hashKey) .empty

/-- The tokens that were drawn. -/
def issued (calls : List OperatorCall) : List String :=
  calls.filterMap fun
    | .create _ _ _ token | .rotate _ token => some token
    | .setRole .. | .revoke _ => none

/-- The ids that were given. -/
def created (calls : List OperatorCall) : List Nat :=
  calls.filterMap fun
    | .create id .. => some id
    | .setRole .. | .rotate .. | .revoke _ => none

/-! ## The rows reflect the roster -/

section Reflect

variable {hashKey : String → String} {ops : Operators} {roster : Roster} {tokens : List String}
  {ids : List Nat} {op : Operator} {h : Holder} {id : Nat} {token : String}

/-- The row of a holder. -/
structure RowOf (hashKey : String → String) (op : Operator) (h : Holder) : Prop where
  label : op.label = h.label
  tokenHash : op.tokenHash = hashKey h.token
  role : op.role = h.role.value
  active : op.revoked = false

/-- The active rows are those of the holders; `tokens` were drawn and `ids` given before. -/
structure Reflects (hashKey : String → String) (tokens : List String) (ids : List Nat)
    (ops : Operators) (roster : Roster) : Prop where
  known : ∀ id h, roster id = some h → ∃ op ∈ ops.rows, op.id = id ∧ RowOf hashKey op h
  only : ∀ op ∈ ops.rows, op.revoked = false → ∃ h, roster op.id = some h
  drawn : ∀ id h, roster id = some h → h.token ∈ tokens
  hashes : ∀ op ∈ ops.rows, ∃ t ∈ tokens, op.tokenHash = hashKey t
  ids : ∀ op ∈ ops.rows, op.id ∈ ids

/-- An active row is that of the holder of its id. -/
theorem Reflects.row (hr : Reflects hashKey tokens ids ops roster) (hop : op ∈ ops.rows)
    (hactive : op.revoked = false) : ∃ h, roster op.id = some h ∧ RowOf hashKey op h := by
  obtain ⟨h, hh⟩ := hr.only op hop hactive
  obtain ⟨op', hop', hid, hrow⟩ := hr.known op.id h hh
  obtain rfl := List.inj_on_of_nodup_map ops.ids hop' hop hid
  exact ⟨h, hh, hrow⟩

/-- A new operator, with an id and a token that are new. -/
theorem Reflects.create (hr : Reflects hashKey tokens ids ops roster) (label : String) (role : Role)
    (hid : id ∉ ids) (hhash : ∀ t ∈ tokens, hashKey t ≠ hashKey token) :
    Reflects hashKey (tokens ++ [token]) (ids ++ [id])
      (ops.insert { id, label, tokenHash := hashKey token, role := role.value })
      (Function.update roster id (some ⟨label, token, role⟩)) := by
  have hnew : id ∉ ops.rows.map (·.id) ∧ hashKey token ∉ ops.rows.map (·.tokenHash) := by
    refine ⟨fun hmem => ?_, fun hmem => ?_⟩
    · obtain ⟨op, hop, rfl⟩ := List.mem_map.mp hmem
      exact hid (hr.ids op hop)
    · obtain ⟨op, hop, heq⟩ := List.mem_map.mp hmem
      obtain ⟨t, ht, hthash⟩ := hr.hashes op hop
      exact hhash t ht (hthash.symm.trans heq)
  have hne {op : Operator} (hop : op ∈ ops.rows) : op.id ≠ id := fun heq =>
    hnew.1 (List.mem_map.mpr ⟨op, hop, heq⟩)
  unfold Operators.insert
  rw [dif_pos hnew]
  refine ⟨fun id' h hh => ?_, fun op hop hactive => ?_, fun id' h hh => ?_, fun op hop => ?_,
    fun op hop => ?_⟩
  · by_cases heq : id' = id
    · subst heq
      rw [Function.update_self] at hh
      cases hh
      exact ⟨_, List.mem_append_right _ (List.mem_singleton_self _), rfl, rfl, rfl, rfl, rfl⟩
    · rw [Function.update_of_ne heq] at hh
      obtain ⟨op, hop, hrow⟩ := hr.known id' h hh
      exact ⟨op, List.mem_append_left _ hop, hrow⟩
  · obtain hop | hop := List.mem_append.mp hop
    · rw [Function.update_of_ne (hne hop)]
      exact hr.only op hop hactive
    · obtain rfl := List.mem_singleton.mp hop
      exact ⟨_, Function.update_self ..⟩
  · by_cases heq : id' = id
    · subst heq
      rw [Function.update_self] at hh
      cases hh
      exact List.mem_append_right _ (List.mem_singleton_self _)
    · rw [Function.update_of_ne heq] at hh
      exact List.mem_append_left _ (hr.drawn id' h hh)
  · obtain hop | hop := List.mem_append.mp hop
    · obtain ⟨t, ht, hthash⟩ := hr.hashes op hop
      exact ⟨t, List.mem_append_left _ ht, hthash⟩
    · obtain rfl := List.mem_singleton.mp hop
      exact ⟨token, List.mem_append_right _ (List.mem_singleton_self _), rfl⟩
  · obtain hop | hop := List.mem_append.mp hop
    · exact List.mem_append_left _ (hr.ids op hop)
    · obtain rfl := List.mem_singleton.mp hop
      exact List.mem_append_right _ (List.mem_singleton_self _)

theorem updateRow_id {f : Operator → Operator} (hf : ∀ op, (f op).id = op.id) :
    (Operators.updateRow id f op).id = op.id := by
  unfold Operators.updateRow
  split_ifs
  · exact hf op
  · rfl

/-- A change of the active row with an id, and of its holder: `g` keeps a holder or drops it. -/
theorem Reflects.update {f : Operator → Operator} {g : Holder → Option Holder}
    {tokens' : List String} {ops' : Operators} (hr : Reflects hashKey tokens ids ops roster)
    (hrows : ops'.rows = ops.rows.map (Operators.updateRow id f)) (hf : ∀ op, (f op).id = op.id)
    (hkeep : ∀ op h h', RowOf hashKey op h → g h = some h' → RowOf hashKey (f op) h')
    (hdrop : ∀ op h, RowOf hashKey op h → g h = none → (f op).revoked = true)
    (htokens : tokens ⊆ tokens')
    (hdrawn : ∀ h h', h.token ∈ tokens → g h = some h' → h'.token ∈ tokens')
    (hhash : ∀ op ∈ ops.rows, (f op).tokenHash = op.tokenHash ∨
      ∃ t ∈ tokens', (f op).tokenHash = hashKey t) :
    Reflects hashKey tokens' ids ops' (Function.update roster id ((roster id).bind g)) := by
  refine ⟨fun id' h hh => ?_, fun op hop hactive => ?_, fun id' h hh => ?_, fun op hop => ?_,
    fun op hop => ?_⟩
  · by_cases heq : id' = id
    · subst heq
      rw [Function.update_self] at hh
      obtain ⟨h₀, hh₀, hg⟩ := Option.bind_eq_some_iff.mp hh
      obtain ⟨op, hop, rfl, hrow⟩ := hr.known id' h₀ hh₀
      refine ⟨Operators.updateRow op.id f op, ?_, updateRow_id hf, ?_⟩
      · rw [hrows]
        exact List.mem_map_of_mem hop
      · rw [Operators.updateRow, if_pos ⟨rfl, hrow.active⟩]
        exact hkeep op h₀ h hrow hg
    · rw [Function.update_of_ne heq] at hh
      obtain ⟨op, hop, rfl, hrow⟩ := hr.known id' h hh
      refine ⟨op, ?_, rfl, hrow⟩
      rw [hrows]
      refine List.mem_map.mpr ⟨op, hop, ?_⟩
      rw [Operators.updateRow, if_neg fun hboth => heq hboth.1]
  · rw [hrows] at hop
    obtain ⟨op, hmem, rfl⟩ := List.mem_map.mp hop
    rw [updateRow_id hf]
    unfold Operators.updateRow at hactive
    split_ifs at hactive with hboth
    · obtain ⟨rfl, hold⟩ := hboth
      obtain ⟨h₀, hh₀, hrow⟩ := hr.row hmem hold
      rw [Function.update_self, hh₀, Option.bind_some]
      cases hg : g h₀ with
      | some h => exact ⟨h, rfl⟩
      | none =>
        rw [hdrop op h₀ hrow hg] at hactive
        cases hactive
    · rw [Function.update_of_ne fun heq => hboth ⟨heq, hactive⟩]
      exact hr.only op hmem hactive
  · by_cases heq : id' = id
    · subst heq
      rw [Function.update_self] at hh
      obtain ⟨h₀, hh₀, hg⟩ := Option.bind_eq_some_iff.mp hh
      exact hdrawn h₀ h (hr.drawn id' h₀ hh₀) hg
    · rw [Function.update_of_ne heq] at hh
      exact htokens (hr.drawn id' h hh)
  · rw [hrows] at hop
    obtain ⟨op, hmem, rfl⟩ := List.mem_map.mp hop
    obtain ⟨t, ht, hthash⟩ := hr.hashes op hmem
    unfold Operators.updateRow
    split_ifs
    · obtain hsame | hnew := hhash op hmem
      · exact ⟨t, htokens ht, hsame.trans hthash⟩
      · exact hnew
    · exact ⟨t, htokens ht, hthash⟩
  · rw [hrows] at hop
    obtain ⟨op, hmem, rfl⟩ := List.mem_map.mp hop
    rw [updateRow_id hf]
    exact hr.ids op hmem

/-- An update that keeps the hashes apart is made. -/
theorem rows_updateWhere {f : Operator → Operator} (hf : ∀ op, (f op).id = op.id)
    (hhash : ∀ x ∈ ops.rows, ∀ y ∈ ops.rows, x.id ≠ y.id →
      (Operators.updateRow id f x).tokenHash ≠ (Operators.updateRow id f y).tokenHash) :
    (ops.updateWhere id f).rows = ops.rows.map (Operators.updateRow id f) := by
  have hrows : ops.rows.Nodup := List.Nodup.of_map _ ops.ids
  have hids : ((ops.rows.map (Operators.updateRow id f)).map (·.id)).Nodup := by
    rw [List.map_map]
    simp only [Function.comp_def, updateRow_id hf]
    exact ops.ids
  have hhashes : ((ops.rows.map (Operators.updateRow id f)).map (·.tokenHash)).Nodup := by
    rw [List.map_map]
    refine hrows.map_on fun x hx y hy heq => ?_
    by_contra hne
    exact hhash x hx y hy (fun hid => hne (List.inj_on_of_nodup_map ops.ids hx hy hid)) heq
  unfold Operators.updateWhere
  rw [dif_pos ⟨hids, hhashes⟩]

theorem hash_ne (hx : op ∈ ops.rows) {op' : Operator} (hy : op' ∈ ops.rows)
    (hne : op.id ≠ op'.id) : op.tokenHash ≠ op'.tokenHash := fun heq =>
  hne (congrArg (·.id) (List.inj_on_of_nodup_map ops.hashes hx hy heq))

/-- A new role. -/
theorem Reflects.setRole (hr : Reflects hashKey tokens ids ops roster) (id : Nat) (role : Role) :
    Reflects hashKey tokens ids (ops.setOperatorRole id role.value)
      (roster.next (.setRole id role)) := by
  have hmap : (roster id).map (fun h => { h with role }) =
      (roster id).bind fun h => some { h with role } := by cases roster id <;> rfl
  unfold Roster.next
  dsimp only
  rw [hmap]
  refine hr.update (rows_updateWhere (fun _ => rfl) fun x hx y hy hne => ?_) (fun _ => rfl)
    (fun op h h' hrow hg => ?_) (fun _ _ _ hg => by cases hg) (List.Subset.refl _)
    (fun h h' ht hg => by cases hg; exact ht) fun _ _ => .inl rfl
  · have hsame (op : Operator) :
        (Operators.updateRow id (fun op => { op with role := role.value }) op).tokenHash =
          op.tokenHash := by
      unfold Operators.updateRow
      split_ifs <;> rfl
    rw [hsame, hsame]
    exact hash_ne hx hy hne
  · cases hg
    exact ⟨hrow.label, hrow.tokenHash, rfl, hrow.active⟩

/-- A new token, that was not drawn before. -/
theorem Reflects.rotate (hr : Reflects hashKey tokens ids ops roster) (id : Nat)
    (hhash : ∀ t ∈ tokens, hashKey t ≠ hashKey token) :
    Reflects hashKey (tokens ++ [token]) ids (ops.rotateOperatorToken id (hashKey token))
      (roster.next (.rotate id token)) := by
  have hmap : (roster id).map (fun h => { h with token }) =
      (roster id).bind fun h => some { h with token } := by cases roster id <;> rfl
  have hnew (op : Operator) (hop : op ∈ ops.rows) : op.tokenHash ≠ hashKey token := by
    obtain ⟨t, ht, hthash⟩ := hr.hashes op hop
    rw [hthash]
    exact hhash t ht
  have hlast : token ∈ tokens ++ [token] := List.mem_append_right _ (List.mem_singleton_self _)
  unfold Roster.next
  dsimp only
  rw [hmap]
  refine hr.update (rows_updateWhere (fun _ => rfl) fun x hx y hy hne => ?_) (fun _ => rfl)
    (fun op h h' hrow hg => ?_) (fun _ _ _ hg => by cases hg) (List.subset_append_left ..)
    (fun h h' _ hg => by cases hg; exact hlast) fun _ _ => .inr ⟨token, hlast, rfl⟩
  · unfold Operators.updateRow
    split_ifs with hxid hyid hyid
    · exact absurd (hxid.1.trans hyid.1.symm) hne
    · exact (hnew y hy).symm
    · exact hnew x hx
    · exact hash_ne hx hy hne
  · cases hg
    exact ⟨hrow.label, rfl, hrow.role, hrow.active⟩

theorem Reflects.revoke (hr : Reflects hashKey tokens ids ops roster) (id : Nat) :
    Reflects hashKey tokens ids (ops.revoke id) (roster.next (.revoke id)) := by
  have hbind : (none : Option Holder) = (roster id).bind fun _ => none := by cases roster id <;> rfl
  unfold Roster.next
  dsimp only
  rw [hbind]
  exact hr.update (f := fun op => { op with revoked := true }) rfl (fun _ => rfl)
    (fun _ _ _ _ hg => by cases hg) (fun _ _ _ _ => rfl) (List.Subset.refl _)
    (fun _ _ _ hg => by cases hg) fun _ _ => .inl rfl

/-- What was drawn and given before. -/
theorem issued_append (calls calls' : List OperatorCall) :
    issued (calls ++ calls') = issued calls ++ issued calls' := List.filterMap_append

theorem created_append (calls calls' : List OperatorCall) :
    created (calls ++ calls') = created calls ++ created calls' := List.filterMap_append

/-- **The rows reflect the roster** after every history. -/
theorem reflects_of {calls : List OperatorCall} (hids : (created calls).Nodup)
    (htokens : (issued calls).Nodup)
    (hhash : ∀ t ∈ issued calls, ∀ t' ∈ issued calls, hashKey t = hashKey t' → t = t') :
    Reflects hashKey (issued calls) (created calls) (operatorsOf hashKey calls)
      (rosterOf calls) := by
  induction calls using List.reverseRecOn with
  | nil =>
    exact ⟨fun _ _ h => (Option.some_ne_none _ h.symm).elim, fun _ h => (List.not_mem_nil h).elim,
      fun _ _ h => (Option.some_ne_none _ h.symm).elim, fun _ h => (List.not_mem_nil h).elim,
      fun _ h => (List.not_mem_nil h).elim⟩
  | append_singleton calls c ih =>
    rw [issued_append] at htokens hhash
    rw [created_append] at hids
    have hr := ih (List.Nodup.of_append_left hids) (List.Nodup.of_append_left htokens)
      fun t ht t' ht' => hhash t (List.mem_append_left _ ht) t' (List.mem_append_left _ ht')
    rw [issued_append, created_append, operatorsOf, rosterOf, List.foldl_concat, List.foldl_concat]
    have hnew {token : String} (htoken : token ∈ issued [c]) :
        ∀ t ∈ issued calls, hashKey t ≠ hashKey token := fun t ht heq => by
      have hsame := hhash t (List.mem_append_left _ ht) token (List.mem_append_right _ htoken) heq
      exact List.disjoint_of_nodup_append htokens ht (hsame ▸ htoken)
    cases c with
    | create id label role token =>
      exact hr.create label role (fun hmem => List.disjoint_of_nodup_append hids hmem
        (List.mem_singleton_self id)) (hnew (List.mem_singleton_self token))
    | setRole id role =>
      have hset := hr.setRole id role
      rwa [← List.append_nil (issued calls), ← List.append_nil (created calls)] at hset
    | rotate id token =>
      have hrotate := hr.rotate id (hnew (List.mem_singleton_self token))
      rwa [← List.append_nil (created calls)] at hrotate
    | revoke id =>
      have hrevoke := hr.revoke id
      rwa [← List.append_nil (issued calls), ← List.append_nil (created calls)] at hrevoke

end Reflect

/-! ## Who gets through -/

/-- Nobody is known. -/
def unauthenticated : HttpError := ⟨401, "authentication required"⟩

/-- Somebody is known, of a lower role. -/
def insufficient (role minRole : Role) : HttpError :=
  ⟨403, "insufficient role: '" ++ role.value ++ "' (need '" ++ minRole.value ++ "')"⟩

/-- `require_role`, of what `resolve_actor` gave. -/
def requireRole (minRole : Role) :
    Except ResolveError (Option (Option String × Role)) → Except HttpError (Option String × Role)
  | .error _ => .error serverError
  | .ok none => .error unauthenticated
  | .ok (some (actor, role)) =>
    if rank (some role) < rank (some minRole) then .error (insufficient role minRole)
    else .ok (actor, role)

/-- The text names the role. -/
theorem insufficient_inj {role role' minRole : Role}
    (h : insufficient role minRole = insufficient role' minRole) : role = role' := by
  cases role <;> cases role' <;> cases minRole <;> first | rfl | exact absurd h (by decide)

/-- **Who may do what**: everybody while there is neither a way to log in nor anybody who may, the
holder of a token, and the admin token where it is nobody's. -/
inductive Entitled (settings : AuthSettings) (roster : Roster) (token : Option String) :
    Option String → Role → Prop
  | localDev (hauth : settings.authEnabled = false) (hsso : settings.ssoEnabled = false)
      (hnobody : ∀ id, roster id = none) : Entitled settings roster token (some "local-dev") .admin
  | holder {id : Nat} {h : Holder} (hid : roster id = some h) (htoken : token = some h.token) :
      Entitled settings roster token (some h.label) h.role
  | admin (hadmin : settings.adminToken ≠ "") (hascii : isAscii settings.adminToken = true)
      (htoken : token = some settings.adminToken)
      (hnobody : ∀ id h, roster id = some h → h.token ≠ settings.adminToken) :
      Entitled settings roster token (some "admin") .admin

/-- `secrets.compare_digest` raises: one of the two tokens is not ASCII. -/
def Incomparable (settings : AuthSettings) (token : Option String) : Prop :=
  settings.adminToken ≠ "" ∧
    ∃ t ∈ token, isAscii t = false ∨ isAscii settings.adminToken = false

section Entitled

variable {hashKey : String → String} {decode : String → Option Session} {settings : AuthSettings}
  {calls : List OperatorCall} {req : Credentials} {tokens : List String} {ids : List Nat}
  {ops : Operators} {roster : Roster} {token : String}

/-- The operators are counted as the roster has them. -/
theorem Reflects.countActive (hr : Reflects hashKey tokens ids ops roster) :
    ops.countActive = 0 ↔ ∀ id, roster id = none := by
  constructor
  · intro hzero id
    cases hid : roster id with
    | none => rfl
    | some h =>
      obtain ⟨op, hop, -, hrow⟩ := hr.known id h hid
      exact absurd hzero (Operators.countActive_ne_zero hop hrow.active)
  · intro hnone
    unfold Operators.countActive
    rw [List.countP_eq_zero]
    intro op hop hactive
    obtain ⟨h, hh⟩ := hr.only op hop (by simpa using hactive)
    rw [hnone] at hh
    cases hh

/-- A token finds the row of its holder. -/
theorem Reflects.activeByHash (hr : Reflects hashKey tokens ids ops roster) {id : Nat} {h : Holder}
    (hid : roster id = some h) :
    ∃ op, ops.activeByHash (hashKey h.token) = some op ∧ RowOf hashKey op h := by
  obtain ⟨op, hop, -, hrow⟩ := hr.known id h hid
  refine ⟨op, ?_, hrow⟩
  rw [← hrow.tokenHash]
  exact Operators.activeByHash_of_mem hop hrow.active

/-- A token that finds a row is its holder's. -/
theorem Reflects.of_activeByHash (hr : Reflects hashKey tokens ids ops roster)
    (hhash : ∀ t ∈ tokens, hashKey t = hashKey token → t = token) {op : Operator}
    (hop : ops.activeByHash (hashKey token) = some op) :
    ∃ id h, roster id = some h ∧ h.token = token := by
  obtain ⟨hmem, hsame, hactive⟩ := Operators.mem_of_activeByHash hop
  obtain ⟨h, hh, hrow⟩ := hr.row hmem hactive
  exact ⟨op.id, h, hh, hhash _ (hr.drawn _ h hh) (hrow.tokenHash.symm.trans hsame)⟩

/-- Two holders of one token have the same name and role. -/
theorem Reflects.holder_unique (hr : Reflects hashKey tokens ids ops roster) {id id' : Nat}
    {h h' : Holder} (hid : roster id = some h) (hid' : roster id' = some h')
    (heq : h.token = h'.token) : h.label = h'.label ∧ h.role = h'.role := by
  obtain ⟨op, hop, hrow⟩ := hr.activeByHash hid
  obtain ⟨op', hop', hrow'⟩ := hr.activeByHash hid'
  rw [heq] at hop
  obtain rfl := Option.some.inj (hop.symm.trans hop')
  have hvalue : h.role.value = h'.role.value := hrow.role.symm.trans hrow'.role
  refine ⟨hrow.label.symm.trans hrow'.label, Option.some.inj ?_⟩
  rw [← Role.ofValue_value, ← Role.ofValue_value, hvalue]

/-- Rule 4. -/
theorem adminActor_iff {actor : Option String} {role : Role} :
    adminActor settings (some token) = .ok (some (actor, role)) ↔
      settings.adminToken ≠ "" ∧ isAscii settings.adminToken = true ∧ token = settings.adminToken ∧
        actor = some "admin" ∧ role = .admin := by
  unfold adminActor
  dsimp only
  split_ifs with hadmin hascii heq
  · exact iff_of_false (fun h => by cases h) fun h => h.1 hadmin
  · refine iff_of_false (fun h => by cases h) fun h => ?_
    obtain ⟨-, h, heq, -⟩ := h
    subst heq
    obtain h' | h' := hascii <;> rw [h] at h' <;> cases h'
  · subst heq
    obtain ⟨hascii, -⟩ := not_or.mp hascii
    constructor
    · intro h
      cases h
      exact ⟨hadmin, Bool.eq_true_of_not_eq_false hascii, rfl, rfl, rfl⟩
    · rintro ⟨-, -, -, rfl, rfl⟩
      rfl
  · exact iff_of_false (fun h => by cases h) fun h => heq h.2.2.1

/-- Rule 4 raises. -/
theorem adminActor_error_iff {token : Option String} {e : ResolveError} :
    adminActor settings token = .error e ↔ Incomparable settings token := by
  unfold adminActor Incomparable
  cases token with
  | none => simp
  | some token =>
    dsimp only
    split_ifs with hadmin hascii heq
    · simp [hadmin]
    · cases e
      simpa [hadmin] using hascii
    · simpa [hadmin] using hascii
    · simpa [hadmin] using hascii

/-- **Who a request is.** -/
theorem resolveActor_iff (hr : Reflects hashKey tokens ids ops roster)
    (hhash : ∀ token ∈ req.token, ∀ t ∈ tokens, hashKey t = hashKey token → t = token)
    (hsession : sessionActor decode settings req = none) {actor : Option String} {role : Role} :
    resolveActor hashKey decode settings (some ops) req = .ok (some (actor, role)) ↔
      Entitled settings roster req.token actor role := by
  by_cases hopen : IsOpen settings ops
  · have hnobody := hr.countActive.mp hopen.2.2
    have hresolve : resolveActor hashKey decode settings (some ops) req =
        .ok (some (some "local-dev", .admin)) := if_pos hopen
    rw [hresolve]
    constructor
    · intro h
      cases h
      exact .localDev hopen.1 hopen.2.1 hnobody
    · intro h
      cases h with
      | localDev => rfl
      | holder hid => rw [hnobody] at hid; cases hid
      | admin hadmin => simp [IsOpen, AuthSettings.authEnabled, hadmin] at hopen
  · have hclosed (hauth : settings.authEnabled = false) (hsso : settings.ssoEnabled = false)
        (hnobody : ∀ id, roster id = none) : False :=
      hopen ⟨hauth, hsso, hr.countActive.mpr hnobody⟩
    rw [resolveActor_closed hopen, hsession]
    cases htoken : req.token with
    | none =>
      refine iff_of_false (fun h => by cases h) fun h => ?_
      cases h with
      | localDev hauth hsso hnobody => exact hclosed hauth hsso hnobody
      | holder _ h => cases h
      | admin _ _ h => cases h
    | some token =>
      by_cases hheld : ∃ id h, roster id = some h ∧ h.token = token
      · -- rule 3: the token of a holder
        obtain ⟨id, h, hid, rfl⟩ := hheld
        obtain ⟨op, hop, hrow⟩ := hr.activeByHash hid
        have hactor : operatorActor hashKey (some ops) (some h.token) =
            some (some h.label, h.role) := by
          simp [operatorActor, hop, Operator.grants, hrow.label, hrow.role, Role.ofValue_value]
        rw [hactor]
        constructor
        · intro heq
          cases heq
          exact .holder hid rfl
        · intro hentitled
          cases hentitled with
          | localDev hauth hsso hnobody => exact (hclosed hauth hsso hnobody).elim
          | holder hid' heq =>
            obtain ⟨hlabel, hrole⟩ := hr.holder_unique hid hid' (Option.some.inj heq)
            rw [hlabel, hrole]
          | admin _ _ heq hnobody => exact absurd (Option.some.inj heq) (hnobody id h hid)
      · have hnone : ops.activeByHash (hashKey token) = none := by
          cases hop : ops.activeByHash (hashKey token) with
          | none => rfl
          | some op =>
            exact absurd (hr.of_activeByHash (hhash token htoken) hop) hheld
        have hactor : operatorActor hashKey (some ops) (some token) = none := by
          simp [operatorActor, hnone]
        rw [hactor]
        refine adminActor_iff.trans ⟨?_, fun hentitled => ?_⟩
        · rintro ⟨hadmin, hascii, rfl, rfl, rfl⟩
          exact .admin hadmin hascii rfl fun id h hid heq => hheld ⟨id, h, hid, heq⟩
        · cases hentitled with
          | localDev hauth hsso hnobody => exact (hclosed hauth hsso hnobody).elim
          | holder hid heq => exact absurd ⟨_, _, hid, (Option.some.inj heq).symm⟩ hheld
          | admin hadmin hascii heq _ => exact ⟨hadmin, hascii, Option.some.inj heq, rfl, rfl⟩

/-- Somebody who is not entitled comes to rule 4. -/
theorem resolveActor_of_not_entitled (hr : Reflects hashKey tokens ids ops roster)
    (hhash : ∀ token ∈ req.token, ∀ t ∈ tokens, hashKey t = hashKey token → t = token)
    (hsession : sessionActor decode settings req = none)
    (hnone : ∀ actor role, ¬ Entitled settings roster req.token actor role) :
    resolveActor hashKey decode settings (some ops) req = adminActor settings req.token := by
  have hopen : ¬ IsOpen settings ops := fun hopen =>
    hnone _ _ (.localDev hopen.1 hopen.2.1 (hr.countActive.mp hopen.2.2))
  have hactor : operatorActor hashKey (some ops) req.token = none := by
    cases htoken : req.token with
    | none => rfl
    | some token =>
      cases hop : ops.activeByHash (hashKey token) with
      | none => simp [operatorActor, hop]
      | some op =>
        obtain ⟨id, h, hid, heq⟩ := hr.of_activeByHash (hhash token htoken) hop
        exact absurd (.holder hid (by rw [htoken, heq])) (hnone (some h.label) h.role)
  rw [resolveActor_closed hopen, hsession, hactor]

/-- **What a guard does** with a request, by the roster: a caller who is not entitled is unknown, a
401, unless the comparison with the admin token raises, a 500. -/
structure Guards (settings : AuthSettings) (roster : Roster) (token : Option String)
    (minRole : Role) (answer : Except HttpError (Option String × Role)) : Prop where
  passes : ∀ actor role, answer = .ok (actor, role) ↔
    Entitled settings roster token actor role ∧ rank (some minRole) ≤ rank (some role)
  forbids : ∀ role, answer = .error (insufficient role minRole) ↔
    (∃ actor, Entitled settings roster token actor role) ∧ rank (some role) < rank (some minRole)
  rejects : (∀ actor role, ¬ Entitled settings roster token actor role) →
    (answer = .error serverError ∧ Incomparable settings token) ∨
      (answer = .error unauthenticated ∧ ¬ Incomparable settings token)

/-- **Operators over their lifetimes**: after any history of writes a guard lets through the holders
of the tokens, each with the role last given, and nobody else. -/
theorem guards_history (hids : (created calls).Nodup) (htokens : (issued calls).Nodup)
    (hhash : ∀ t ∈ issued calls ++ req.token.toList, ∀ t' ∈ issued calls ++ req.token.toList,
      hashKey t = hashKey t' → t = t')
    (hsession : sessionActor decode settings req = none) (minRole : Role) :
    Guards settings (rosterOf calls) req.token minRole
      (requireRole minRole
        (resolveActor hashKey decode settings (some (operatorsOf hashKey calls)) req)) := by
  have hr : Reflects hashKey (issued calls) (created calls) (operatorsOf hashKey calls)
      (rosterOf calls) := reflects_of hids htokens fun t ht t' ht' =>
    hhash t (List.mem_append_left _ ht) t' (List.mem_append_left _ ht')
  have hiff {actor : Option String} {role : Role} :
      resolveActor hashKey decode settings (some (operatorsOf hashKey calls)) req =
        .ok (some (actor, role)) ↔ Entitled settings (rosterOf calls) req.token actor role :=
    resolveActor_iff hr (fun token htoken t ht => hhash t (List.mem_append_left _ ht) token
      (List.mem_append_right _ (Option.mem_toList.mpr htoken))) hsession
  have hstranger (hnone : ∀ actor role, ¬ Entitled settings (rosterOf calls) req.token actor role) :=
    resolveActor_of_not_entitled hr (fun token htoken t ht => hhash t (List.mem_append_left _ ht)
      token (List.mem_append_right _ (Option.mem_toList.mpr htoken))) hsession hnone
  cases hresolve : resolveActor hashKey decode settings (some (operatorsOf hashKey calls)) req with
  | error e =>
    simp only [hresolve] at hiff hstranger
    refine ⟨fun actor role => iff_of_false (fun h => by cases h) fun h => ?_,
      fun role => iff_of_false (fun h => ?_) fun h => ?_, fun hnone =>
        .inl ⟨rfl, adminActor_error_iff.mp (hstranger hnone).symm⟩⟩
    · cases hiff.mpr h.1
    · cases congrArg HttpError.status (Except.error.inj h)
    · obtain ⟨⟨actor, h⟩, -⟩ := h
      cases hiff.mpr h
  | ok who =>
    simp only [hresolve, Except.ok.injEq] at hiff hstranger
    cases who with
    | none =>
      refine ⟨fun actor role => iff_of_false (fun h => by cases h) fun h => ?_,
        fun role => iff_of_false (fun h => ?_) fun h => ?_, fun hnone => .inr ⟨rfl, fun hraises => ?_⟩⟩
      · cases hiff.mpr h.1
      · cases congrArg HttpError.status (Except.error.inj h)
      · obtain ⟨⟨actor, h⟩, -⟩ := h
        cases hiff.mpr h
      · have herror := adminActor_error_iff (e := .typeError) |>.mpr hraises
        cases (hstranger hnone).trans herror
    | some who =>
      obtain ⟨actor, role⟩ := who
      have hentitled := hiff.mp rfl
      unfold requireRole
      dsimp only
      split_ifs with hlow
      · refine ⟨fun actor' role' => iff_of_false (fun h => by cases h) fun h => ?_, fun role' => ?_,
          fun hnone => absurd hentitled (hnone actor role)⟩
        · obtain ⟨h, hrank⟩ := h
          cases hiff.mpr h
          exact absurd hlow hrank.not_gt
        · constructor
          · intro h
            obtain rfl := insufficient_inj (Except.error.inj h)
            exact ⟨⟨actor, hentitled⟩, hlow⟩
          · rintro ⟨⟨actor', h⟩, -⟩
            cases hiff.mpr h
            rfl
      · refine ⟨fun actor' role' => ?_,
          fun role' => iff_of_false (fun h => by cases h) fun h => ?_,
          fun hnone => absurd hentitled (hnone actor role)⟩
        · constructor
          · intro h
            cases h
            exact ⟨hentitled, not_lt.mp hlow⟩
          · rintro ⟨h, -⟩
            cases hiff.mpr h
            rfl
        · obtain ⟨⟨actor', h⟩, hrank⟩ := h
          cases hiff.mpr h
          exact hlow hrank

/-- An operator is created, promoted and given a new token. -/
def promoted : List OperatorCall :=
  [.create 1 "bob" .viewer "sk-op-1", .setRole 1 .admin, .rotate 1 "sk-op-2"]

/-- Who comes with the old token. -/
def oldToken : Credentials := { xAdminToken := some "sk-op-1" }

theorem guards_history_promoted :
    Guards {} (rosterOf promoted) oldToken.token .viewer
      (requireRole .viewer
        (resolveActor id (fun _ => none) {} (some (operatorsOf id promoted)) oldToken)) :=
  guards_history (by decide) (by decide) (fun _ _ _ _ h => h) rfl .viewer

end Entitled

end Llmops.Auth
