import Llmops.Keys.Gate

/-!
# API keys are isolated from each other

`_hits`, `_quota_cache` and the sum over `request_logs` are keyed by a display name. The schema does
not make the names of keys unique, and the labels of operators, the e-mails of sessions and the
"dashboard" of the admin token are names too.

`Gate.only` throws away everything of a router that is not about one key: the rows, the log rows,
the entries of the caches and the limiter, and the requests. As long as nobody else is let through
under the key's name (`Apart`), what is left moves with the key's own requests only:

* `private_gate`: the router is private to the key, in the sense of `Lib.Private`;
* `isolated`: two runs with the same requests of the key answer them alike, whatever else they do;
* `throttled_by_namesake`: another key of the same name uses up the limit.
-/

namespace Llmops.Keys

open Llmops.Lib Llmops.Auth

/-- What is fixed about a key when it is created. -/
structure KeyId where
  id : Nat
  name : String
  hash : String
  deriving DecidableEq, Repr

section Presenting

variable (hashKey : String → String) (decode : String → Option Session)

/-- The request presents the key: it has no session, and its token is the key's. -/
def Presents (cfg : GateSettings) (K : KeyId) (req : HttpRequest) : Prop :=
  cfg.requireApiKey = true ∧ requestActor decode cfg req = none ∧
    ∃ token, truthy (bearer req) = some token ∧ ¬ (cfg.adminToken ≠ "" ∧ token = cfg.adminToken) ∧
      hashKey token = K.hash

/-- The name of a request that needs no row: that of its session, or of the admin token. -/
def directName (cfg : GateSettings) (req : HttpRequest) : Option String :=
  match requestActor decode cfg req with
  | some (actor, role) => if role = "viewer" then none else some actor
  | none =>
    if cfg.adminToken ≠ "" ∧ truthy (bearer req) = some cfg.adminToken then some "dashboard"
    else none

end Presenting

variable {ι : Type*}

/-- `mine` are the requests that present the key, and the key's row is created under its name. -/
def Labelled (hashKey : String → String) (decode : String → Option Session) (cfg : GateSettings)
    (K : KeyId) (mine : ι → Bool) : GateEvent ι → Prop
  | .arrive i req => mine i = true ↔ Presents hashKey decode cfg K req
  | .create row =>
    (row.id = K.id ↔ row.keyHash = K.hash) ∧ (row.keyHash = K.hash → row.name = K.name)
  | _ => True

/-- Nobody else comes in under the name of the key: no session, not the admin token, no other key
and no operator, and no operator's token is the key. -/
def Apart (decode : String → Option Session) (cfg : GateSettings) (K : KeyId) (mine : ι → Bool)
    (g : Gate ι) : GateEvent ι → Prop
  | .arrive i req =>
    mine i = false → cfg.requireApiKey = true → directName decode cfg req ≠ some K.name
  | .resume i =>
    match g.pc i with
    | .keyRow hash _ => hash ≠ K.hash → ∀ row ∈ g.keys.activeByHash hash, row.name ≠ K.name
    | .operatorRow hash _ => ∀ op ∈ g.operators.activeByHash hash,
      hash ≠ K.hash ∧ (op.role ≠ "viewer" → op.label ≠ K.name)
    | _ => True
  | _ => True

theorem Apart.of_keyRow {decode : String → Option Session} {cfg : GateSettings} {K : KeyId}
    {mine : ι → Bool} {g : Gate ι} {i : ι} {hash : String} {now : Time}
    (hpc : g.pc i = .keyRow hash now)
    (h : hash ≠ K.hash → ∀ row ∈ g.keys.activeByHash hash, row.name ≠ K.name) :
    Apart decode cfg K mine g (.resume i) := by
  unfold Apart
  simp only [hpc]
  exact h

/-- What the key shares with nobody: its requests and their log rows, its row, and time. -/
def GateEvent.sees (K : KeyId) (mine : ι → Bool) : GateEvent ι → Bool
  | .arrive i _ | .resume i | .log i _ => mine i
  | .clock _ _ => true
  | .create row => row.keyHash = K.hash
  | .revoke id => id = K.id
  | .operators _ => false

/-- The rows with one hash. -/
def ApiKeys.only (keys : ApiKeys) (hash : String) : ApiKeys where
  rows := keys.rows.filter fun row => row.keyHash = hash
  ids := keys.ids.sublist (List.filter_sublist.map _)
  hashes := keys.hashes.sublist (List.filter_sublist.map _)

/-- The router with everything erased that is not about the key. -/
def Gate.only (g : Gate ι) (K : KeyId) (mine : ι → Bool) : Gate ι where
  keys := g.keys.only K.hash
  operators := ⟨[], List.nodup_nil, List.nodup_nil⟩
  logs := g.logs.filter fun row => row.apiKeyName = some K.name
  cache hash := if hash = K.hash then g.cache hash else none
  hits name := if name = K.name then g.hits name else []
  quotaCache name := if name = K.name then g.quotaCache name else none
  mono := g.mono
  wall := g.wall
  pc i := if mine i then g.pc i else .idle

/-! ## What is left of the tables -/

namespace ApiKeys

variable {keys keys' : ApiKeys} {row : ApiKey} {id : Nat} {hash : String}

theorem only_rows (keys : ApiKeys) (hash : String) :
    (keys.only hash).rows = keys.rows.filter fun row => row.keyHash = hash := rfl

theorem revoke_rows (keys : ApiKeys) (id : Nat) :
    (keys.revoke id).rows = keys.rows.map (revokeRow id) := rfl

theorem ext_rows (h : keys.rows = keys'.rows) : keys = keys' := by
  cases keys
  cases keys'
  congr

theorem only_activeByHash (keys : ApiKeys) (hash : String) :
    (keys.only hash).activeByHash hash = keys.activeByHash hash := by
  unfold activeByHash
  rw [only_rows, List.find?_filter]
  congr 2
  funext row
  simp

theorem only_revoke (keys : ApiKeys) (id : Nat) (hash : String) :
    (keys.revoke id).only hash = (keys.only hash).revoke id := by
  refine ext_rows ?_
  rw [only_rows, revoke_rows, revoke_rows, only_rows, List.filter_map]
  congr 1
  exact List.filter_congr fun row _ => by simp [revokeRow_keyHash]

/-- Revoking another row leaves the key's as it is. -/
theorem only_revoke_of_ne (h : ∀ row ∈ keys.rows, row.keyHash = hash → row.id ≠ id) :
    (keys.revoke id).only hash = keys.only hash := by
  rw [only_revoke]
  refine ext_rows ((List.map_congr_left fun row hrow => ?_).trans (List.map_id _))
  obtain ⟨hmem, hhash⟩ := List.mem_filter.mp hrow
  exact if_neg (h row hmem (by simpa using hhash))

theorem create_eq_some (h : keys.create row = some keys') : keys'.rows = row :: keys.rows ∧
    row.id ∉ keys.rows.map (·.id) ∧ row.keyHash ∉ keys.rows.map (·.keyHash) := by
  unfold create at h
  split_ifs at h with hnew
  exact ⟨(Option.some.inj h) ▸ rfl, hnew⟩

theorem only_create (h : keys.create row = some keys') :
    (keys.only row.keyHash).create row = some (keys'.only row.keyHash) := by
  obtain ⟨hrows, hid, hhash⟩ := create_eq_some h
  have hsub : (keys.only row.keyHash).rows ⊆ keys.rows := List.filter_sublist.subset
  unfold create
  rw [dif_pos ⟨fun hmem => hid (List.map_subset (·.id) hsub hmem),
    fun hmem => hhash (List.map_subset (·.keyHash) hsub hmem)⟩]
  refine congrArg some (ext_rows ?_)
  rw [only_rows keys', hrows, List.filter_cons_of_pos (by simp)]
  rfl

/-- A new row with another hash. -/
theorem only_create_of_ne (h : keys.create row = some keys') (hne : row.keyHash ≠ hash) :
    keys'.only hash = keys.only hash := by
  refine ext_rows ?_
  rw [only_rows, (create_eq_some h).1, List.filter_cons_of_neg (by simpa using hne), only_rows]

end ApiKeys

/-- The usage of a key is read off its own log rows. -/
theorem tokensUsedByKey_filter (logs : List LogRow) (name : String) (since : Option Time) :
    tokensUsedByKey (logs.filter fun row => row.apiKeyName = some name) name since =
      tokensUsedByKey logs name since := by
  unfold tokensUsedByKey
  rw [List.filter_filter]
  congr 2
  refine List.filter_congr fun row _ => ?_
  by_cases h : row.apiKeyName = some name <;> simp [h]

/-! ## What is left of a step -/

namespace Gate

variable [DecidableEq ι] {g g' : Gate ι} {K : KeyId} {mine : ι → Bool} {i : ι} {pc : Pc}
  {cfg : GateSettings} {name : String} {rpm quota : Option Int} {period : Option String}

theorem only_goto (hi : mine i = true) :
    (g.goto i pc).only K mine = (g.only K mine).goto i pc := by
  unfold only goto
  congr 1
  funext j
  by_cases hj : j = i
  · subst hj
    simp [hi]
  · simp [hj]

theorem only_goto_other (hi : mine i = false) : (g.goto i pc).only K mine = g.only K mine := by
  unfold only goto
  congr 1
  funext j
  by_cases hj : j = i
  · subst hj
    simp [hi]
  · simp [hj]

omit [DecidableEq ι] in
/-- An entry under the key's name or hash. -/
theorem update_only {V : Type*} {f : String → V} {key : String} {v d : V} :
    (fun k => if k = key then Function.update f key v k else d) =
      Function.update (fun k => if k = key then f k else d) key v := by
  funext k
  by_cases hk : k = key
  · subst hk
    simp
  · simp [hk]

omit [DecidableEq ι] in
/-- An entry under another. -/
theorem update_only_other {V : Type*} {f : String → V} {key other : String} {v d : V}
    (h : other ≠ key) : (fun k => if k = key then Function.update f other v k else d) =
      fun k => if k = key then f k else d := by
  funext k
  split_ifs with hk
  · subst hk
    exact Function.update_of_ne h.symm _ _
  · rfl

omit [DecidableEq ι] in
theorem only_hits (hits : List Time) :
    ({ g with hits := Function.update g.hits K.name hits }).only K mine =
      { g.only K mine with hits := Function.update (g.only K mine).hits K.name hits } := by
  unfold only
  congr 1
  exact update_only

omit [DecidableEq ι] in
theorem only_hits_other (hname : name ≠ K.name) (hits : List Time) :
    ({ g with hits := Function.update g.hits name hits }).only K mine = g.only K mine := by
  unfold only
  congr 1
  exact update_only_other hname

omit [DecidableEq ι] in
theorem only_trailing : (g.only K mine).trailing K.name = g.trailing K.name := by
  have hhits : (g.only K mine).hits K.name = g.hits K.name := if_pos rfl
  unfold trailing
  rw [hhits]
  rfl

omit [DecidableEq ι] in
theorem only_checkRate : (g.only K mine).checkRate K.name rpm =
    ((g.checkRate K.name rpm).1.only K mine, (g.checkRate K.name rpm).2) := by
  unfold checkRate
  rw [only_trailing]
  split
  · rfl
  · split_ifs
    · rw [only_hits]
    · rw [only_hits]
      rfl

omit [DecidableEq ι] in
theorem only_checkRate_other (hname : name ≠ K.name) :
    (g.checkRate name rpm).1.only K mine = g.only K mine := by
  unfold checkRate
  split
  · rfl
  · split_ifs
    · exact only_hits_other hname _
    · exact only_hits_other hname _

theorem only_finish (hi : mine i = true) (limit used : Int) :
    (g.finish i name limit period used).only K mine =
      (g.only K mine).finish i name limit period used := by
  unfold finish
  dsimp only
  split_ifs
  · exact only_goto hi
  · exact only_goto hi

theorem only_finish_other (hi : mine i = false) (limit used : Int) :
    (g.finish i name limit period used).only K mine = g.only K mine := by
  unfold finish
  dsimp only
  split_ifs
  · exact only_goto_other hi
  · exact only_goto_other hi

theorem only_checkQuota (hi : mine i = true) :
    (g.checkQuota cfg i K.name quota period).only K mine =
      (g.only K mine).checkQuota cfg i K.name quota period := by
  have hentry : (g.only K mine).quotaCache K.name = g.quotaCache K.name := if_pos rfl
  have hwall : (g.only K mine).wall = g.wall := rfl
  have hmono : (g.only K mine).mono = g.mono := rfl
  unfold checkQuota
  rw [hentry, hwall, hmono]
  split
  · dsimp only
    split
    · exact only_finish hi _ _
    · exact only_goto hi
  · exact only_goto hi

theorem only_checkQuota_other (hi : mine i = false) :
    (g.checkQuota cfg i name quota period).only K mine = g.only K mine := by
  unfold checkQuota
  split
  · dsimp only
    split
    · exact only_finish_other hi _ _
    · exact only_goto_other hi
  · exact only_goto_other hi

theorem only_check (hi : mine i = true) :
    (g.check cfg i K.name rpm quota period).only K mine =
      (g.only K mine).check cfg i K.name rpm quota period := by
  unfold check
  rw [only_checkRate]
  obtain ⟨g', _ | a⟩ := g.checkRate K.name rpm
  · exact only_checkQuota hi
  · exact only_goto hi

theorem only_check_other (hi : mine i = false) (hname : name ≠ K.name) :
    (g.check cfg i name rpm quota period).only K mine = g.only K mine := by
  have hrate : (g.checkRate name rpm).1.only K mine = g.only K mine := only_checkRate_other hname
  unfold check
  generalize g.checkRate name rpm = r at hrate
  obtain ⟨g', _ | a⟩ := r
  · exact (only_checkQuota_other hi).trans hrate
  · exact (only_goto_other hi).trans hrate

omit [DecidableEq ι] in
theorem only_remember (entry : CacheEntry) :
    (g.remember K.hash entry).only K mine = (g.only K mine).remember K.hash entry := by
  unfold only remember
  congr 1
  exact update_only

omit [DecidableEq ι] in
theorem only_remember_other {hash : String} (hhash : hash ≠ K.hash) (entry : CacheEntry) :
    (g.remember hash entry).only K mine = g.only K mine := by
  unfold only remember
  congr 1
  exact update_only_other hhash

omit [DecidableEq ι] in
theorem only_noteUsage (entry : QuotaEntry) :
    (g.noteUsage K.name entry).only K mine = (g.only K mine).noteUsage K.name entry := by
  unfold only noteUsage
  congr 1
  exact update_only

omit [DecidableEq ι] in
theorem only_noteUsage_other (hname : name ≠ K.name) (entry : QuotaEntry) :
    (g.noteUsage name entry).only K mine = g.only K mine := by
  unfold only noteUsage
  congr 1
  exact update_only_other hname

omit [DecidableEq ι] in
theorem only_record {row : LogRow} (hrow : row.apiKeyName = some K.name) :
    (g.record row).only K mine = (g.only K mine).record row := by
  unfold only record
  simp [List.filter_append, hrow]

omit [DecidableEq ι] in
theorem only_record_other {row : LogRow} (hrow : row.apiKeyName ≠ some K.name) :
    (g.record row).only K mine = g.only K mine := by
  unfold only record
  simp [List.filter_append, hrow]

end Gate

/-! ## Who is let through under which name -/

/-- A request that is attributed to the key's name presents the key. -/
def Pc.Named (K : KeyId) (own : Bool) : Pc → Prop
  | .idle => True
  | .keyRow hash _ | .operatorRow hash _ => hash = K.hash ↔ own = true
  | .usage name _ _ _ _ => name = K.name ↔ own = true
  | .answered (.admitted name) | .logged (.admitted name) => name = some K.name ↔ own = true
  | .answered (.refused _ _ _) | .logged (.refused _ _ _) => True

/-- The name belongs to the key: in the table, in the cache, and among the requests. -/
structure Owned (K : KeyId) (mine : ι → Bool) (g : Gate ι) : Prop where
  rows : ∀ row ∈ g.keys.rows,
    (row.id = K.id ↔ row.keyHash = K.hash) ∧ (row.keyHash = K.hash → row.name = K.name)
  cache : ∀ hash entry, g.cache hash = some entry → (entry.name = K.name ↔ hash = K.hash)
  pcs : ∀ i, (g.pc i).Named K (mine i)

section Steps

variable [DecidableEq ι] {hashKey : String → String} {decode : String → Option Session}
  {cfg : GateSettings} {K : KeyId} {mine : ι → Bool} {g g' : Gate ι} {i : ι} {pc : Pc}
  {name : String} {rpm quota : Option Int} {period : Option String}

theorem Pc.named_name {own : Bool} (h : name = K.name ↔ own = true) :
    (Pc.answered (.admitted (some name))).Named K own :=
  ⟨fun hn => h.mp (Option.some.inj hn), fun ho => congrArg some (h.mpr ho)⟩

theorem ApiKeys.mem_of_activeByHash {keys : ApiKeys} {hash : String} {row : ApiKey}
    (h : keys.activeByHash hash = some row) : row ∈ keys.rows ∧ row.keyHash = hash := by
  obtain ⟨hf, -⟩ := Option.filter_eq_some_iff.mp h
  exact ⟨List.mem_of_find?_eq_some hf, by simpa using List.find?_some hf⟩

namespace Owned

theorem goto (h : Owned K mine g) (hpc : pc.Named K (mine i)) : Owned K mine (g.goto i pc) where
  rows := h.rows
  cache := h.cache
  pcs j := by
    have hj : (g.goto i pc).pc j = if j = i then pc else g.pc j := Function.update_apply ..
    rw [hj]
    split_ifs with hji
    · exact hji ▸ hpc
    · exact h.pcs j

omit [DecidableEq ι] in
theorem remember (h : Owned K mine g) {hash : String} {entry : CacheEntry}
    (hentry : entry.name = K.name ↔ hash = K.hash) : Owned K mine (g.remember hash entry) where
  rows := h.rows
  cache k e he := by
    have hk : (g.remember hash entry).cache k = if k = hash then some entry else g.cache k :=
      Function.update_apply ..
    rw [hk] at he
    split_ifs at he with hkey
    · rw [hkey, ← Option.some.inj he]
      exact hentry
    · exact h.cache k e he
  pcs := h.pcs

omit [DecidableEq ι] in
theorem checkRate (h : Owned K mine g) : Owned K mine (g.checkRate name rpm).1 ∧
    ∀ a, (g.checkRate name rpm).2 = some a → (Pc.answered a).Named K (mine i) := by
  unfold Gate.checkRate
  split
  · exact ⟨h, fun _ ha => (by cases ha)⟩
  · split_ifs
    · refine ⟨⟨h.rows, h.cache, h.pcs⟩, fun a ha => ?_⟩
      cases ha
      trivial
    · exact ⟨⟨h.rows, h.cache, h.pcs⟩, fun _ ha => (by cases ha)⟩

theorem finish (h : Owned K mine g) (hname : name = K.name ↔ mine i = true) (limit used : Int) :
    Owned K mine (g.finish i name limit period used) := by
  unfold Gate.finish
  dsimp only
  split_ifs
  · exact h.goto trivial
  · exact h.goto (Pc.named_name hname)

theorem checkQuota (h : Owned K mine g) (hname : name = K.name ↔ mine i = true) :
    Owned K mine (g.checkQuota cfg i name quota period) := by
  unfold Gate.checkQuota
  split
  · dsimp only
    split
    · exact h.finish hname _ _
    · exact h.goto hname
  · exact h.goto (Pc.named_name hname)

/-- A check under the key's name is that of one of its requests. -/
theorem check (h : Owned K mine g) (hname : name = K.name ↔ mine i = true) :
    Owned K mine (g.check cfg i name rpm quota period) := by
  have hrate : Owned K mine (g.checkRate name rpm).1 ∧
    ∀ a, (g.checkRate name rpm).2 = some a → (Pc.answered a).Named K (mine i) := h.checkRate
  unfold Gate.check
  generalize g.checkRate name rpm = r at hrate
  obtain ⟨g', _ | a⟩ := r
  · exact hrate.1.checkQuota hname
  · exact hrate.1.goto (hrate.2 a rfl)

theorem lookup (h : Owned K mine g) {hash : String} (hhash : hash = K.hash ↔ mine i = true) :
    Owned K mine (g.lookup cfg i hash) := by
  unfold Gate.lookup
  split
  case h_1 c hc =>
    have hname := h.cache hash c (Option.filter_eq_some_iff.mp hc).1
    exact h.check (hname.trans hhash)
  case h_2 =>
    split_ifs
    · exact h.goto hhash
    · exact h.goto trivial

end Owned

/-! ## The steps -/

/-- A request that needs no row is answered at once; every other one is looked up by its hash. -/
theorem arrive_cases (hashKey : String → String) (decode : String → Option Session)
    (cfg : GateSettings) (K : KeyId) (g : Gate ι) (i : ι) (req : HttpRequest) :
    (∃ a, g.arrive hashKey decode cfg i req = g.answer i a ∧
      ¬ Presents hashKey decode cfg K req ∧
      ∀ name, a = .admitted (some name) →
        cfg.requireApiKey = true ∧ directName decode cfg req = some name) ∨
    ∃ hash, g.arrive hashKey decode cfg i req = g.lookup cfg i hash ∧
      (hash = K.hash ↔ Presents hashKey decode cfg K req) := by
  unfold Gate.arrive Presents directName
  by_cases hreq : cfg.requireApiKey = false
  · rw [if_pos hreq]
    refine .inl ⟨_, rfl, fun h => ?_, fun name h => ?_⟩
    · rw [hreq] at h
      cases h.1
    · cases h
  rw [if_neg hreq]
  have hreq' := Bool.eq_true_of_not_eq_false hreq
  cases hactor : requestActor decode cfg req with
  | some actor =>
    obtain ⟨actor, role⟩ := actor
    refine .inl ?_
    dsimp only
    by_cases hrole : role = "viewer"
    · rw [if_pos hrole, if_pos hrole]
      refine ⟨_, rfl, fun h => ?_, fun name h => ?_⟩
      · cases h.2.1
      · cases h
    · rw [if_neg hrole, if_neg hrole]
      refine ⟨_, rfl, fun h => ?_, fun name h => ⟨hreq', ?_⟩⟩
      · cases h.2.1
      · cases h
        rfl
  | none =>
    dsimp only
    cases htoken : truthy (bearer req) with
    | none =>
      refine .inl ⟨_, rfl, fun ⟨_, _, token, h, _⟩ => ?_, fun name h => ?_⟩
      · cases h
      · cases h
    | some token =>
      dsimp only
      by_cases hadmin : cfg.adminToken ≠ "" ∧ token = cfg.adminToken
      · rw [if_pos hadmin]
        refine .inl ⟨_, rfl, fun ⟨_, _, token', h, hnot, _⟩ => ?_, fun name h => ⟨hreq', ?_⟩⟩
        · cases h
          exact hnot hadmin
        · cases h
          exact if_pos ⟨hadmin.1, congrArg some hadmin.2⟩
      · rw [if_neg hadmin]
        refine .inr ⟨hashKey token, rfl, fun h => ⟨hreq', rfl, token, rfl, hadmin, h⟩, ?_⟩
        rintro ⟨_, _, token', h, _, hhash⟩
        cases h
        exact hhash

theorem Owned.only_lookup (h : Owned K mine g) (hi : mine i = true) :
    (g.lookup cfg i K.hash).only K mine = (g.only K mine).lookup cfg i K.hash := by
  have hcache : (g.only K mine).cache K.hash = g.cache K.hash := if_pos rfl
  have hmono : (g.only K mine).mono = g.mono := rfl
  unfold Gate.lookup
  rw [hcache, hmono]
  split
  case h_1 c hc =>
    rw [(h.cache K.hash c (Option.filter_eq_some_iff.mp hc).1).mpr rfl]
    exact Gate.only_check hi
  case h_2 =>
    split_ifs
    · exact Gate.only_goto hi
    · exact Gate.only_goto hi

theorem Owned.only_lookup_other (h : Owned K mine g) (hi : mine i = false) {hash : String}
    (hhash : hash ≠ K.hash) : (g.lookup cfg i hash).only K mine = g.only K mine := by
  unfold Gate.lookup
  split
  case h_1 c hc =>
    have hname := h.cache hash c (Option.filter_eq_some_iff.mp hc).1
    exact Gate.only_check_other hi fun hn => hhash (hname.mp hn)
  case h_2 =>
    split_ifs
    · exact Gate.only_goto_other hi
    · exact Gate.only_goto_other hi

omit [DecidableEq ι] in
/-- The row that a request finds has the key's name exactly if it is the key's row. -/
theorem Owned.row_name (h : Owned K mine g) {hash : String} {now : Time} {row : ApiKey}
    (hpc : g.pc i = .keyRow hash now) (hA : Apart decode cfg K mine g (.resume i))
    (hrow : g.keys.activeByHash hash = some row) : row.name = K.name ↔ hash = K.hash := by
  obtain ⟨hmem, rfl⟩ := ApiKeys.mem_of_activeByHash hrow
  unfold Apart at hA
  simp only [hpc] at hA
  refine ⟨fun hname => ?_, (h.rows row hmem).2⟩
  by_contra hne
  exact hA hne row hrow hname

theorem Owned.resume (h : Owned K mine g) (hA : Apart decode cfg K mine g (.resume i))
    (he : g.resume cfg i = some g') : Owned K mine g' := by
  have hnamed := h.pcs i
  unfold Gate.resume at he
  cases hpc : g.pc i with
  | keyRow hash now =>
    simp only [hpc] at he hnamed
    cases hrow : g.keys.activeByHash hash with
    | some row =>
      simp only [hrow, Option.some.injEq] at he
      subst he
      have hname := h.row_name hpc hA hrow
      refine Owned.check ?_ (hname.trans hnamed)
      exact h.remember hname
    | none =>
      simp only [hrow, Option.some.injEq] at he
      subst he
      exact h.goto hnamed
  | operatorRow hash now =>
    simp only [hpc] at he hnamed
    cases hop : g.operators.activeByHash hash with
    | some op =>
      unfold Apart at hA
      simp only [hpc] at hA
      obtain ⟨hhash, hlabel⟩ := hA op hop
      simp only [hop] at he
      split_ifs at he with hrole <;> cases he
      · exact h.goto trivial
      · have hi : ¬ mine i = true := fun hi => hhash (hnamed.mpr hi)
        refine Owned.goto ?_ (Pc.named_name (iff_of_false (hlabel hrole) hi))
        exact h.remember (iff_of_false (hlabel hrole) hhash)
    | none =>
      simp only [hop, Option.some.injEq] at he
      subst he
      exact h.goto trivial
  | usage name quota period start now =>
    simp only [hpc, Option.some.injEq] at he hnamed
    subst he
    refine Owned.finish ?_ hnamed _ _
    exact ⟨h.rows, h.cache, h.pcs⟩
  | idle => simp only [hpc, reduceCtorEq] at he
  | answered a => simp only [hpc, reduceCtorEq] at he
  | logged a => simp only [hpc, reduceCtorEq] at he

theorem Owned.arrive (h : Owned K mine g) {req : HttpRequest}
    (hL : mine i = true ↔ Presents hashKey decode cfg K req)
    (hA : Apart decode cfg K mine g (.arrive i req)) :
    Owned K mine (g.arrive hashKey decode cfg i req) := by
  obtain ⟨a, he, hnot, hname⟩ | ⟨hash, he, hhash⟩ :=
    arrive_cases hashKey decode cfg K g i req <;> rw [he]
  · have hi : mine i = false := Bool.eq_false_iff.mpr fun hi => hnot (hL.mp hi)
    refine h.goto ?_
    obtain (_ | name) | _ := a
    · exact iff_of_false (Option.some_ne_none _).symm (by simp [hi])
    · obtain ⟨hreq, hdirect⟩ := hname name rfl
      exact iff_of_false (hdirect ▸ hA hi hreq) (by simp [hi])
    · trivial
  · exact h.lookup (hhash.trans hL.symm)

theorem Owned.log (h : Owned K mine g) {tokens : Option Int} (he : g.log i tokens = some g') :
    Owned K mine g' := by
  have hnamed := h.pcs i
  unfold Gate.log at he
  split at he
  case h_1 name hpc =>
    cases he
    rw [hpc] at hnamed
    have hgoto : Owned K mine (g.goto i (.logged (.admitted name))) := h.goto hnamed
    exact ⟨hgoto.rows, hgoto.cache, hgoto.pcs⟩
  case h_2 => cases he

omit [DecidableEq ι] in
theorem Owned.create (h : Owned K mine g) {row : ApiKey} {keys : ApiKeys}
    (hL : Labelled hashKey decode cfg K mine (.create row)) (hkeys : g.keys.create row = some keys) :
    Owned K mine { g with keys := keys } where
  rows r hr := by
    rw [(ApiKeys.create_eq_some hkeys).1] at hr
    obtain rfl | hr := List.mem_cons.mp hr
    · exact hL
    · exact h.rows r hr
  cache := h.cache
  pcs := h.pcs

omit [DecidableEq ι] in
theorem Owned.revoke (h : Owned K mine g) (id : Nat) :
    Owned K mine { g with keys := g.keys.revoke id } where
  rows r hr := by
    obtain ⟨row, hrow, rfl⟩ := List.mem_map.mp hr
    rw [ApiKeys.revokeRow_id, ApiKeys.revokeRow_keyHash, ApiKeys.revokeRow_name]
    exact h.rows row hrow
  cache := h.cache
  pcs := h.pcs

/-- The names stay the key's own. -/
theorem Owned.step {e : GateEvent ι} (h : Owned K mine g)
    (hL : Labelled hashKey decode cfg K mine e) (hA : Apart decode cfg K mine g e)
    (he : g.step hashKey decode cfg e = some g') : Owned K mine g' := by
  cases e with
  | arrive i req =>
    cases hpc : g.pc i <;> simp only [Gate.step, hpc] at he <;> cases he
    exact h.arrive hL hA
  | resume i => exact h.resume hA he
  | log i tokens => exact h.log he
  | clock mono wall =>
    dsimp only [Gate.step] at he
    split_ifs at he
    cases he
    exact ⟨h.rows, h.cache, h.pcs⟩
  | create row =>
    obtain ⟨keys, hkeys, rfl⟩ := Option.map_eq_some_iff.mp he
    exact h.create hL hkeys
  | revoke id =>
    cases he
    exact h.revoke id
  | operators ops =>
    cases he
    exact ⟨h.rows, h.cache, h.pcs⟩

/-! ## What is left moves with the key's own requests -/

omit [DecidableEq ι] in
theorem only_pc (hi : mine i = true) : (g.only K mine).pc i = g.pc i := if_pos hi

theorem Owned.seen_resume (h : Owned K mine g) (hi : mine i = true)
    (hA : Apart decode cfg K mine g (.resume i)) (he : g.resume cfg i = some g') :
    (g.only K mine).resume cfg i = some (g'.only K mine) := by
  have hnamed := h.pcs i
  unfold Gate.resume at he ⊢
  rw [only_pc hi]
  cases hpc : g.pc i with
  | keyRow hash now =>
    simp only [hpc] at he hnamed ⊢
    obtain rfl := hnamed.mpr hi
    rw [show (g.only K mine).keys.activeByHash K.hash = g.keys.activeByHash K.hash from
      g.keys.only_activeByHash K.hash]
    cases hrow : g.keys.activeByHash K.hash with
    | some row =>
      simp only [hrow, Option.some.injEq] at he ⊢
      subst he
      rw [(h.row_name hpc hA hrow).mpr rfl, Gate.only_check hi, Gate.only_remember]
    | none =>
      simp only [hrow, Option.some.injEq] at he ⊢
      subst he
      exact (Gate.only_goto hi).symm
  | operatorRow hash now =>
    simp only [hpc] at he hnamed ⊢
    unfold Apart at hA
    simp only [hpc] at hA
    obtain rfl := hnamed.mpr hi
    cases hop : g.operators.activeByHash K.hash with
    | some op => exact absurd rfl (hA op hop).1
    | none =>
      simp only [hop, Option.some.injEq] at he
      subst he
      exact congrArg some (Gate.only_goto hi).symm
  | usage name quota period start now =>
    simp only [hpc, Option.some.injEq] at he hnamed ⊢
    obtain rfl := hnamed.mpr hi
    subst he
    have hused := tokensUsedByKey_filter g.logs K.name (if start = 0 then none else some start)
    rw [show (g.only K mine).logs = g.logs.filter fun row => row.apiKeyName = some K.name from rfl,
      hused, Gate.only_finish hi, Gate.only_noteUsage]
  | idle => simp only [hpc, reduceCtorEq] at he
  | answered a => simp only [hpc, reduceCtorEq] at he
  | logged a => simp only [hpc, reduceCtorEq] at he

theorem Owned.unseen_resume (h : Owned K mine g) (hi : mine i = false)
    (hA : Apart decode cfg K mine g (.resume i)) (he : g.resume cfg i = some g') :
    g'.only K mine = g.only K mine := by
  have hnamed := h.pcs i
  have hi' : ¬ mine i = true := Bool.eq_false_iff.mp hi
  unfold Gate.resume at he
  cases hpc : g.pc i with
  | keyRow hash now =>
    simp only [hpc] at he hnamed
    have hhash : hash ≠ K.hash := fun hh => hi' (hnamed.mp hh)
    cases hrow : g.keys.activeByHash hash with
    | some row =>
      simp only [hrow, Option.some.injEq] at he
      subst he
      rw [Gate.only_check_other hi fun hn => hhash ((h.row_name hpc hA hrow).mp hn),
        Gate.only_remember_other hhash]
    | none =>
      simp only [hrow, Option.some.injEq] at he
      subst he
      exact Gate.only_goto_other hi
  | operatorRow hash now =>
    simp only [hpc] at he hnamed
    have hhash : hash ≠ K.hash := fun hh => hi' (hnamed.mp hh)
    cases hop : g.operators.activeByHash hash with
    | some op =>
      simp only [hop] at he
      split_ifs at he <;> cases he
      · exact Gate.only_goto_other hi
      · exact (Gate.only_goto_other hi).trans (Gate.only_remember_other hhash _)
    | none =>
      simp only [hop, Option.some.injEq] at he
      subst he
      exact Gate.only_goto_other hi
  | usage name quota period start now =>
    simp only [hpc, Option.some.injEq] at he hnamed
    subst he
    rw [Gate.only_finish_other hi, Gate.only_noteUsage_other fun hn => hi' (hnamed.mp hn)]
  | idle => simp only [hpc, reduceCtorEq] at he
  | answered a => simp only [hpc, reduceCtorEq] at he
  | logged a => simp only [hpc, reduceCtorEq] at he

/-- A request of the key needs its row. -/
theorem Owned.seen_arrive (h : Owned K mine g) (hi : mine i = true) {req : HttpRequest}
    (hp : Presents hashKey decode cfg K req) :
    (g.arrive hashKey decode cfg i req).only K mine =
      (g.only K mine).arrive hashKey decode cfg i req := by
  have hlookup (g : Gate ι) : g.arrive hashKey decode cfg i req = g.lookup cfg i K.hash := by
    obtain ⟨_, _, hnot, _⟩ | ⟨hash, he, hhash⟩ := arrive_cases hashKey decode cfg K g i req
    · exact absurd hp hnot
    · rw [he, hhash.mpr hp]
  rw [hlookup, hlookup, h.only_lookup hi]

theorem Owned.unseen_arrive (h : Owned K mine g) (hi : mine i = false) {req : HttpRequest}
    (hp : ¬ Presents hashKey decode cfg K req) :
    (g.arrive hashKey decode cfg i req).only K mine = g.only K mine := by
  obtain ⟨a, he, _⟩ | ⟨hash, he, hhash⟩ := arrive_cases hashKey decode cfg K g i req <;> rw [he]
  · exact Gate.only_goto_other hi
  · exact h.only_lookup_other hi fun hh => hp (hhash.mp hh)

/-- A log row under the key's name is one of its requests'. -/
theorem Owned.seen_log (h : Owned K mine g) (hi : mine i = true) {tokens : Option Int}
    (he : g.log i tokens = some g') : (g.only K mine).log i tokens = some (g'.only K mine) := by
  have hnamed := h.pcs i
  unfold Gate.log at he ⊢
  rw [only_pc hi]
  split at he
  case h_1 name hpc =>
    cases he
    rw [hpc] at hnamed
    obtain rfl := hnamed.mpr hi
    rw [Gate.only_record rfl, Gate.only_goto hi]
    rfl
  case h_2 => cases he

theorem Owned.unseen_log (h : Owned K mine g) (hi : mine i = false) {tokens : Option Int}
    (he : g.log i tokens = some g') : g'.only K mine = g.only K mine := by
  have hnamed := h.pcs i
  unfold Gate.log at he
  split at he
  case h_1 name hpc =>
    cases he
    rw [hpc] at hnamed
    have hname : name ≠ some K.name := fun hn => Bool.eq_false_iff.mp hi (hnamed.mp hn)
    rw [Gate.only_record_other hname, Gate.only_goto_other hi]
  case h_2 => cases he

/-- **The router is private to the key**: erased to what is about the key, it moves with the key's
own requests, its row and time, and with nothing else. -/
theorem private_gate (hashKey : String → String) (decode : String → Option Session)
    (cfg : GateSettings) (K : KeyId) (mine : ι → Bool) :
    Private (Gate.step hashKey decode cfg) (Gate.step hashKey decode cfg)
      (fun g e => Labelled hashKey decode cfg K mine e ∧ Apart decode cfg K mine g e)
      (Owned K mine) (GateEvent.sees K mine) (fun g : Gate ι => g.only K mine) where
  inv h hG he := h.step hG.1 hG.2 he
  seen {g e g'} h hG hsees he := by
    obtain ⟨hL, hA⟩ := hG
    cases e with
    | arrive i req =>
      have hi : mine i = true := hsees
      have hpc := only_pc (g := g) (K := K) hi
      cases hidle : g.pc i <;> simp only [Gate.step, hidle] at he <;> cases he
      rw [h.seen_arrive hi (hL.mp hi)]
      simp only [Gate.step, hpc, hidle]
    | resume i => exact h.seen_resume hsees hA he
    | log i tokens => exact h.seen_log hsees he
    | clock mono wall =>
      dsimp only [Gate.step] at he
      split_ifs at he with hmono
      cases he
      exact if_pos hmono
    | create row =>
      obtain ⟨keys, hkeys, rfl⟩ := Option.map_eq_some_iff.mp he
      have hhash : row.keyHash = K.hash := of_decide_eq_true hsees
      have honly := ApiKeys.only_create hkeys
      rw [hhash] at honly
      exact Option.map_eq_some_iff.mpr ⟨_, honly, rfl⟩
    | revoke id =>
      cases he
      unfold Gate.step Gate.only
      dsimp only
      rw [ApiKeys.only_revoke]
    | operators ops => cases hsees
  unseen {g e g'} h hG hsees he := by
    obtain ⟨hL, hA⟩ := hG
    cases e with
    | arrive i req =>
      have hi : mine i = false := hsees
      cases hidle : g.pc i <;> simp only [Gate.step, hidle] at he <;> cases he
      exact h.unseen_arrive hi fun hp => Bool.eq_false_iff.mp hi (hL.mpr hp)
    | resume i => exact h.unseen_resume hsees hA he
    | log i tokens => exact h.unseen_log hsees he
    | clock mono wall => cases hsees
    | create row =>
      obtain ⟨keys, hkeys, rfl⟩ := Option.map_eq_some_iff.mp he
      unfold Gate.only
      dsimp only
      rw [ApiKeys.only_create_of_ne hkeys (of_decide_eq_false hsees)]
    | revoke id =>
      cases he
      have hid : id ≠ K.id := of_decide_eq_false hsees
      unfold Gate.only
      dsimp only
      rw [ApiKeys.only_revoke_of_ne]
      exact fun row hrow hhash hne => hid (hne ▸ (h.rows row hrow).1.mpr hhash)
    | operators ops =>
      cases he
      rfl

/-- A router that has just started: nothing is cached, nothing is counted, nobody is waiting. -/
structure Starts (K : KeyId) (g : Gate ι) : Prop where
  rows : ∀ row ∈ g.keys.rows,
    (row.id = K.id ↔ row.keyHash = K.hash) ∧ (row.keyHash = K.hash → row.name = K.name)
  cache : ∀ hash, g.cache hash = none
  hits : ∀ name, g.hits name = []
  quotaCache : ∀ name, g.quotaCache name = none
  idle : ∀ i, g.pc i = .idle

omit [DecidableEq ι] in
theorem Starts.owned (h : Starts K g) : Owned K mine g where
  rows := h.rows
  cache hash entry he := by
    rw [h.cache hash] at he
    cases he
  pcs i := by
    rw [h.idle i]
    trivial

/-- **API keys are isolated**: two runs that start with the same row and log rows of the key, and
have the same requests, log rows and revocation of the key and the same clock, bring its requests to
the same points and answers, if nobody else comes in under its name. -/
theorem isolated {es es' : List (GateEvent ι)} {s s' t t' : Gate ι} (hs : Starts K s)
    (hs' : Starts K s') (hstart : s.only K mine = s'.only K mine)
    (hes : Along (Gate.step hashKey decode cfg)
      (fun g e => Labelled hashKey decode cfg K mine e ∧ Apart decode cfg K mine g e) s es)
    (hes' : Along (Gate.step hashKey decode cfg)
      (fun g e => Labelled hashKey decode cfg K mine e ∧ Apart decode cfg K mine g e) s' es')
    (hrun : run (Gate.step hashKey decode cfg) s es = some t)
    (hrun' : run (Gate.step hashKey decode cfg) s' es' = some t')
    (hsame : es.filter (GateEvent.sees K mine) = es'.filter (GateEvent.sees K mine)) :
    ∀ i, mine i = true → t.pc i = t'.pc i := by
  have honly : t.only K mine = t'.only K mine :=
    (private_gate hashKey decode cfg K mine).run_eq hs.owned hs'.owned hes hes' hrun hrun' hstart
      hsame
  intro i hi
  rw [← only_pc (g := t) (K := K) hi, honly, only_pc hi]

end Steps

/-! ## A key and its namesake -/

/-- The key "ci" with a limit of one request a minute. -/
def ciKey : KeyId := ⟨1, "ci", "a"⟩

/-- A router with this key and another one. -/
def gateWith (other : String) : Gate Nat where
  keys :=
    { rows := [{ id := 1, name := "ci", keyHash := "a", rpmLimit := some 1 },
        { id := 2, name := other, keyHash := "b", rpmLimit := some 5 }]
      ids := by simp
      hashes := by simp }
  operators := ⟨[], List.nodup_nil, List.nodup_nil⟩

/-- Tokens are their own hashes, and nobody is signed in. -/
abbrev gateStep : Gate Nat → GateEvent Nat → Option (Gate Nat) := Gate.step id (fun _ => none) {}

/-- Request 0 presents the key. -/
def first (i : Nat) : Bool := i = 0

def ciRequest : List (GateEvent Nat) := [.arrive 0 ⟨"Bearer a", none⟩, .resume 0]

def otherRequest : List (GateEvent Nat) := [.arrive 1 ⟨"Bearer b", none⟩, .resume 1]

theorem labelled_first {e : GateEvent Nat} (he : e ∈ otherRequest ++ ciRequest) :
    Labelled id (fun _ => none) {} ciKey first e := by
  simp only [otherRequest, ciRequest, List.cons_append, List.nil_append, List.mem_cons,
    List.not_mem_nil, or_false] at he
  obtain rfl | rfl | rfl | rfl := he
  · refine iff_of_false (by decide) ?_
    rintro ⟨-, -, token, htoken, -, rfl⟩
    exact absurd htoken (by decide)
  · trivial
  · exact iff_of_true rfl ⟨rfl, rfl, "a", by decide, by decide, rfl⟩
  · trivial

theorem starts_gateWith {other : String} : Starts ciKey (gateWith other) where
  rows row hrow := by
    obtain rfl | rfl := List.mem_pair.mp hrow
    · exact ⟨iff_of_true rfl rfl, fun _ => rfl⟩
    · exact ⟨iff_of_false (by simp [ciKey]) (by simp [ciKey]), fun h => absurd h (by simp [ciKey])⟩
  cache _ := rfl
  hits _ := rfl
  quotaCache _ := rfl
  idle _ := rfl

/-- A request of another key before it makes no difference to the key. -/
theorem isolated_ci : ∃ t t',
    run gateStep (gateWith "dev") (otherRequest ++ ciRequest) = some t ∧
    run gateStep (gateWith "dev") ciRequest = some t' ∧
    t'.pc 0 = .answered (.admitted (some "ci")) ∧ ∀ i, first i = true → t.pc i = t'.pc i := by
  have hany : (run gateStep (gateWith "dev") (otherRequest ++ ciRequest)).isSome = true := by
    decide +kernel
  have hany' : (run gateStep (gateWith "dev") ciRequest).any
      (fun t => t.pc 0 = .answered (.admitted (some "ci"))) = true := by decide +kernel
  obtain ⟨t, ht⟩ := Option.isSome_iff_exists.mp hany
  obtain ⟨t', ht', hpc⟩ := (Option.any_eq_true _ _).mp hany'
  have hother : ((gateWith "dev").arrive id (fun _ => none) {} 1 ⟨"Bearer b", none⟩).pc 1 =
      .keyRow "b" 0 := by decide +kernel
  have hci : (run gateStep (gateWith "dev") (otherRequest ++ [.arrive 0 ⟨"Bearer a", none⟩])).all
      (fun s => s.pc 0 = .keyRow "a" 0) = true := by decide +kernel
  have hci' : ((gateWith "dev").arrive id (fun _ => none) {} 0 ⟨"Bearer a", none⟩).pc 0 =
      .keyRow "a" 0 := by decide +kernel
  have hlabel {e : GateEvent Nat} (he : e ∈ otherRequest ++ ciRequest) := labelled_first he
  have hes' : Along gateStep (fun g e => Labelled id (fun _ => none) {} ciKey first e ∧
      Apart (fun _ => none) {} ciKey first g e) (gateWith "dev") ciRequest := by
    refine ⟨⟨hlabel (by simp [ciRequest]), fun h => (by cases h)⟩, fun s₁ h₁ =>
      ⟨⟨hlabel (by simp [ciRequest]), ?_⟩, fun _ _ => trivial⟩⟩
    obtain rfl := Option.some.inj h₁
    exact .of_keyRow hci' fun h => absurd rfl h
  have hes : Along gateStep (fun g e => Labelled id (fun _ => none) {} ciKey first e ∧
      Apart (fun _ => none) {} ciKey first g e) (gateWith "dev") (otherRequest ++ ciRequest) := by
    refine ⟨⟨hlabel (by simp [otherRequest]), fun _ _ => by decide⟩, fun s₁ h₁ =>
      ⟨⟨hlabel (by simp [otherRequest]), ?_⟩, fun s₂ h₂ =>
        ⟨⟨hlabel (by simp [ciRequest]), fun h => (by cases h)⟩, fun s₃ h₃ =>
          ⟨⟨hlabel (by simp [ciRequest]), ?_⟩, fun _ _ => trivial⟩⟩⟩⟩
    · obtain rfl := Option.some.inj h₁
      refine .of_keyRow hother fun _ row hrow => ?_
      obtain ⟨hmem, hhash⟩ := ApiKeys.mem_of_activeByHash hrow
      obtain rfl | rfl := List.mem_pair.mp hmem
      · exact absurd hhash (by decide)
      · decide
    · have hrun : run gateStep (gateWith "dev")
          (otherRequest ++ [.arrive 0 ⟨"Bearer a", none⟩]) = some s₃ := by
        simp only [otherRequest, List.cons_append, List.nil_append, run, h₁, h₂, h₃,
          Option.bind_some]
      rw [hrun] at hci
      have hpc₃ : s₃.pc 0 = .keyRow "a" 0 := of_decide_eq_true hci
      exact .of_keyRow hpc₃ fun h => absurd rfl h
  exact ⟨t, t', ht, ht', of_decide_eq_true hpc,
    isolated starts_gateWith starts_gateWith rfl hes hes' ht ht' rfl⟩

/-- **A namesake uses up the limit.** The same request of the key is let through on its own, and
refused after a request of another key of that name. -/
theorem throttled_by_namesake : ∃ t t',
    run gateStep (gateWith "ci") (otherRequest ++ ciRequest) = some t ∧
    run gateStep (gateWith "ci") ciRequest = some t' ∧
    t.pc 0 = .answered (.tooMany "rate limit exceeded for key 'ci' (1/min)") ∧
    t'.pc 0 = .answered (.admitted (some "ci")) ∧
    (∀ e ∈ otherRequest ++ ciRequest, Labelled id (fun _ => none) {} ciKey first e) ∧
    (otherRequest ++ ciRequest).filter (GateEvent.sees ciKey first) =
      ciRequest.filter (GateEvent.sees ciKey first) := by
  have hany : (run gateStep (gateWith "ci") (otherRequest ++ ciRequest)).any (fun t =>
      t.pc 0 = .answered (.tooMany "rate limit exceeded for key 'ci' (1/min)")) = true := by
    decide +kernel
  have hany' : (run gateStep (gateWith "ci") ciRequest).any
      (fun t => t.pc 0 = .answered (.admitted (some "ci"))) = true := by decide +kernel
  obtain ⟨t, ht, hpc⟩ := (Option.any_eq_true _ _).mp hany
  obtain ⟨t', ht', hpc'⟩ := (Option.any_eq_true _ _).mp hany'
  exact ⟨t, t', ht, ht', of_decide_eq_true hpc, of_decide_eq_true hpc',
    fun e he => labelled_first he, rfl⟩

end Llmops.Keys
