import Llmops.Auth.Revoke
import Llmops.Keys.Gate
import Llmops.Lib.Run

/-!
# How stale an accepted credential can be

A cache entry of `authenticate` skips the row checks for as long as it lives. Beside a router
(`Audited`) is noted when each request arrived, and every lookup with what the store held then.

* `Backed`: every entry of the cache stands for a lookup that found its name, and expires 30 seconds
  after the clock reading of the request that made it; the clock is read before the lookups;
* `stale_bound`: so whoever is let in with a token was looked up, and held a row of that name, for a
  request that came less than 30 seconds before, or for this one.
-/

namespace Llmops.Keys

open Llmops.Lib Llmops.Auth

variable {ι : Type*}

/-- A lookup: the request that made it, its clock reading, the hash, and what the store held. -/
structure Lookup (ι : Type*) where
  reader : ι
  hash : String
  now : Time
  keys : ApiKeys
  operators : Operators

/-- The store held a key, or an operator that may run inference, under this name. -/
def Lookup.Holds (l : Lookup ι) (name : String) : Prop :=
  (∃ row ∈ l.keys.rows, row.keyHash = l.hash ∧ row.revoked = false ∧ row.name = name) ∨
    ∃ op ∈ l.operators.rows, op.tokenHash = l.hash ∧ op.revoked = false ∧ op.role ≠ "viewer" ∧
      op.label = name

/-- A router, when its requests arrived with what, and its lookups. -/
structure Audited (ι : Type*) where
  gate : Gate ι
  arrived : ι → Option (HttpRequest × Time) := fun _ => none
  lookups : List (Lookup ι) := []

/-- The lookup of a step. -/
def Gate.reads (g : Gate ι) : GateEvent ι → List (Lookup ι)
  | .resume i =>
    match g.pc i with
    | .keyRow hash now | .operatorRow hash now => [⟨i, hash, now, g.keys, g.operators⟩]
    | _ => []
  | _ => []

section Presented

variable (hashKey : String → String) (decode : String → Option Session) (cfg : GateSettings)

/-- The hash of the token of a request that has no session, and not the admin token. -/
def presentedHash (req : HttpRequest) : Option String :=
  if requestActor decode cfg req = none ∧
      ¬ (cfg.adminToken ≠ "" ∧ truthy (bearer req) = some cfg.adminToken) then
    (truthy (bearer req)).map hashKey
  else none

variable [DecidableEq ι]

/-- One step, with what it notes. -/
def Audited.step (a : Audited ι) (e : GateEvent ι) : Option (Audited ι) :=
  (a.gate.step hashKey decode cfg e).map fun g =>
    { gate := g
      arrived :=
        match e with
        | .arrive i req => Function.update a.arrived i (some (req, a.gate.mono))
        | _ => a.arrived
      lookups := a.lookups ++ a.gate.reads e }

end Presented

/-- A lookup of this hash, for a request that came less than 30 seconds before `t`, found the name. -/
def Vouched (lookups : List (Lookup ι)) (hash : String) (t : Time) (name : String) : Prop :=
  ∃ l ∈ lookups, l.hash = hash ∧ t - 30 < l.now ∧ l.now ≤ t ∧ l.Holds name

/-- What is known of a request at an await, and of the one that was let in. -/
def Pc.Backed (hashOf : HttpRequest → Option String) (lookups : List (Lookup ι)) (mono : Time)
    (arrival : Option (HttpRequest × Time)) : Pc → Prop
  | .idle => arrival = none
  | .keyRow hash now | .operatorRow hash now =>
    now ≤ mono ∧ ∃ req, arrival = some (req, now) ∧ hashOf req = some hash
  | .usage name _ _ _ _ => ∃ req t hash, arrival = some (req, t) ∧ hashOf req = some hash ∧
      Vouched lookups hash t name
  | .answered (.admitted name) | .logged (.admitted name) => ∀ req t hash,
      arrival = some (req, t) → hashOf req = some hash →
        ∃ n, name = some n ∧ Vouched lookups hash t n
  | .answered (.refused _ _ _) | .logged (.refused _ _ _) => True

/-- **The invariant.** -/
structure Audited.Backed (hashOf : HttpRequest → Option String) (a : Audited ι) : Prop where
  reads : ∀ l ∈ a.lookups, l.now ≤ a.gate.mono ∧ ∃ req, a.arrived l.reader = some (req, l.now)
  cache : ∀ hash entry, a.gate.cache hash = some entry →
    ∃ l ∈ a.lookups, l.hash = hash ∧ entry.expiresAt = l.now + 30 ∧ l.Holds entry.name
  pcs : ∀ i, (a.gate.pc i).Backed hashOf a.lookups a.gate.mono (a.arrived i)

section Lookups

variable {g : Gate ι} {l : Lookup ι} {lookups ls : List (Lookup ι)} {hash name : String}
  {t mono mono' : Time} {hashOf : HttpRequest → Option String}
  {arrival : Option (HttpRequest × Time)} {pc : Pc}

theorem Vouched.append (h : Vouched lookups hash t name) : Vouched (lookups ++ ls) hash t name := by
  obtain ⟨l, hl, hrest⟩ := h
  exact ⟨l, List.mem_append_left _ hl, hrest⟩

theorem Pc.Backed.later (h : pc.Backed hashOf lookups mono arrival) (hle : mono ≤ mono') :
    pc.Backed hashOf (lookups ++ ls) mono' arrival := by
  cases pc with
  | idle => exact h
  | keyRow hash now => exact ⟨h.1.trans hle, h.2⟩
  | operatorRow hash now => exact ⟨h.1.trans hle, h.2⟩
  | usage name quota period periodStart now =>
    obtain ⟨req, t, hash, harrival, hhash, hvouched⟩ := h
    exact ⟨req, t, hash, harrival, hhash, hvouched.append⟩
  | answered answer | logged answer =>
    cases answer with
    | refused => trivial
    | admitted name =>
      intro req t hash harrival hhash
      obtain ⟨n, hn, hvouched⟩ := h req t hash harrival hhash
      exact ⟨n, hn, hvouched.append⟩

theorem Lookup.holds_key {row : ApiKey} (h : l.keys.activeByHash l.hash = some row) :
    l.Holds row.name := by
  obtain ⟨hfound, hactive⟩ := Option.filter_eq_some_iff.mp h
  exact .inl ⟨row, List.mem_of_find?_eq_some hfound, by simpa using List.find?_some hfound,
    by simpa using hactive, rfl⟩

theorem Lookup.holds_operator {op : Operator} (h : l.operators.activeByHash l.hash = some op)
    (hrole : op.role ≠ "viewer") : l.Holds op.label := by
  obtain ⟨hmem, hhash, hactive⟩ := Operators.mem_of_activeByHash h
  exact .inr ⟨op, hmem, hhash, hactive, hrole, rfl⟩

end Lookups

/-! ## What `authenticate` does to a request -/

/-- The request goes on under a name, or is refused. -/
def Pc.Under (name : String) : Pc → Prop
  | .usage n _ _ _ _ => n = name
  | .answered (.admitted n) => n = some name
  | .answered (.refused _ _ _) => True
  | _ => False

section Moves

variable {cfg : GateSettings} {g : Gate ι} {i : ι} {name hash : String} {rpm quota : Option Int}
  {period : Option String}

/-- `_check_rate` changes the limiter only, and its exception refuses. -/
theorem checkRate_frame : (g.checkRate name rpm).1.cache = g.cache ∧
    (g.checkRate name rpm).1.mono = g.mono ∧ (g.checkRate name rpm).1.pc = g.pc ∧
    ∀ a, (g.checkRate name rpm).2 = some a → Pc.Under name (.answered a) := by
  unfold Gate.checkRate
  cases rpm.filter (· ≠ 0) with
  | none => exact ⟨rfl, rfl, rfl, by rintro a ⟨⟩⟩
  | some limit =>
    dsimp only
    split_ifs
    · refine ⟨rfl, rfl, rfl, fun a ha => ?_⟩
      obtain rfl := Option.some.inj ha
      trivial
    · exact ⟨rfl, rfl, rfl, by rintro a ⟨⟩⟩

variable [DecidableEq ι]

/-- The gate but for the limiter, the quota cache and one request. -/
def Gate.Moves (g g' : Gate ι) (i : ι) (P : Pc → Prop) : Prop :=
  g'.cache = g.cache ∧ g'.mono = g.mono ∧ (∀ j, j ≠ i → g'.pc j = g.pc j) ∧ P (g'.pc i)

theorem Gate.Moves.goto {P : Pc → Prop} {pc : Pc} (hpc : P pc) : g.Moves (g.goto i pc) i P :=
  ⟨rfl, rfl, fun _ hj => Function.update_of_ne hj _ _, by simpa [Gate.goto] using hpc⟩

theorem moves_finish (period : Option String) (limit used : Int) (g : Gate ι) (i : ι)
    (name : String) : g.Moves (g.finish i name limit period used) i (Pc.Under name) := by
  unfold Gate.finish
  dsimp only
  split_ifs
  · exact .goto trivial
  · exact .goto rfl

theorem moves_checkQuota :
    g.Moves (g.checkQuota cfg i name quota period) i (Pc.Under name) := by
  unfold Gate.checkQuota
  split
  · dsimp only
    split
    · exact moves_finish period _ _ g i name
    · exact .goto rfl
  · exact .goto rfl

/-- **The two checks of a key leave the request under its name.** -/
theorem moves_check : g.Moves (g.check cfg i name rpm quota period) i (Pc.Under name) := by
  obtain ⟨hcache, hmono, hpc, hrefused⟩ := @checkRate_frame ι g name rpm
  unfold Gate.check Gate.Moves
  rw [← hcache, ← hmono, ← hpc]
  split
  · next g' a heq =>
    rw [heq] at hrefused ⊢
    exact Gate.Moves.goto (hrefused a rfl)
  · next g' heq =>
    rw [heq]
    exact moves_checkQuota

/-- A token is looked up in the cache first. -/
theorem lookup_cases (cfg : GateSettings) (g : Gate ι) (i : ι) (hash : String) :
    (∃ entry, g.cache hash = some entry ∧ g.mono < entry.expiresAt ∧
      g.Moves (g.lookup cfg i hash) i (Pc.Under entry.name)) ∨
    g.Moves (g.lookup cfg i hash) i fun pc => pc = .keyRow hash g.mono ∨
      ∃ status detail header, pc = .answered (.refused status detail header) := by
  unfold Gate.lookup
  cases hentry : (g.cache hash).filter (g.mono < ·.expiresAt) with
  | some entry =>
    obtain ⟨hcache, hlives⟩ := Option.filter_eq_some_iff.mp hentry
    exact .inl ⟨entry, hcache, of_decide_eq_true hlives, moves_check⟩
  | none =>
    right
    dsimp only
    split_ifs
    · exact .goto (.inl rfl)
    · exact .goto (.inr ⟨_, _, _, rfl⟩)

/-- With enforcement on, a request is looked up by the hash it presents; one that presents none is
answered at once. -/
theorem arrive_presented (hashKey : String → String) (decode : String → Option Session)
    (hon : cfg.requireApiKey = true) (req : HttpRequest) :
    (∃ hash, presentedHash hashKey decode cfg req = some hash ∧
      g.arrive hashKey decode cfg i req = g.lookup cfg i hash) ∨
    presentedHash hashKey decode cfg req = none ∧
      ∃ a, g.arrive hashKey decode cfg i req = g.answer i a := by
  have hreq : ¬ cfg.requireApiKey = false := by simp [hon]
  unfold Gate.arrive presentedHash
  rw [if_neg hreq]
  cases hactor : requestActor decode cfg req with
  | some actor =>
    have hnone : ¬ (some actor = none ∧
        ¬ (cfg.adminToken ≠ "" ∧ truthy (bearer req) = some cfg.adminToken)) := by simp
    rw [if_neg hnone]
    dsimp only
    split_ifs <;> exact .inr ⟨rfl, _, rfl⟩
  | none =>
    cases htoken : truthy (bearer req) with
    | none =>
      right
      exact ⟨ite_self _, _, rfl⟩
    | some token =>
      dsimp only
      by_cases hadmin : cfg.adminToken ≠ "" ∧ token = cfg.adminToken
      · have hnot : ¬ ((none : Option (String × String)) = none ∧
            ¬ (cfg.adminToken ≠ "" ∧ some token = some cfg.adminToken)) := by simpa using hadmin
        rw [if_pos hadmin, if_neg hnot]
        exact .inr ⟨rfl, _, rfl⟩
      · have hyes : (none : Option (String × String)) = none ∧
            ¬ (cfg.adminToken ≠ "" ∧ some token = some cfg.adminToken) := by simpa using hadmin
        rw [if_neg hadmin, if_pos hyes]
        exact .inl ⟨_, rfl, rfl⟩

end Moves

/-! ## The steps -/

namespace Audited.Backed

variable {a a' : Audited ι} {hashOf : HttpRequest → Option String} {i : ι}
  {ls : List (Lookup ι)} {name hash : String} {t : Time} {req : HttpRequest} {pc : Pc}

theorem of_under (hpc : pc.Under name) {arrival : Option (HttpRequest × Time)} {mono : Time}
    (harrival : arrival = some (req, t)) (hhash : hashOf req = some hash)
    (hvouched : Vouched ls hash t name) : pc.Backed hashOf ls mono arrival := by
  cases pc with
  | idle | keyRow hash now | operatorRow hash now | logged answer => exact hpc.elim
  | usage n quota period periodStart now =>
    obtain rfl : n = name := hpc
    exact ⟨req, t, hash, harrival, hhash, hvouched⟩
  | answered answer =>
    cases answer with
    | refused => trivial
    | admitted n =>
      obtain rfl : n = some name := hpc
      intro req' t' hash' harrival' hhash'
      rw [harrival] at harrival'
      cases harrival'
      rw [hhash] at hhash'
      cases hhash'
      exact ⟨name, rfl, hvouched⟩

/-- **A step of one request.** -/
theorem move (h : a.Backed hashOf) (hmono : a'.gate.mono = a.gate.mono)
    (hlookups : a'.lookups = a.lookups ++ ls) (harrived : ∀ j, j ≠ i → a'.arrived j = a.arrived j)
    (hkept : a.arrived i = none ∨ a'.arrived i = a.arrived i)
    (hpcs : ∀ j, j ≠ i → a'.gate.pc j = a.gate.pc j)
    (hreads : ∀ l ∈ ls, l.now ≤ a.gate.mono ∧ l.reader = i ∧ ∃ req, a'.arrived i = some (req, l.now))
    (hcache : ∀ hash entry, a'.gate.cache hash = some entry → a.gate.cache hash = some entry ∨
      ∃ l ∈ ls, l.hash = hash ∧ entry.expiresAt = l.now + 30 ∧ l.Holds entry.name)
    (hpc : (a'.gate.pc i).Backed hashOf a'.lookups a.gate.mono (a'.arrived i)) :
    a'.Backed hashOf where
  reads l hl := by
    rw [hlookups] at hl
    rw [hmono]
    rcases List.mem_append.mp hl with hl | hl
    · obtain ⟨hnow, req, hreader⟩ := h.reads l hl
      refine ⟨hnow, req, ?_⟩
      by_cases hi : l.reader = i
      · rw [hi] at hreader ⊢
        rcases hkept with hnone | hkept
        · rw [hnone] at hreader
          cases hreader
        · rw [hkept, hreader]
      · rw [harrived _ hi, hreader]
    · obtain ⟨hnow, hreader, hreq⟩ := hreads l hl
      rw [hreader]
      exact ⟨hnow, hreq⟩
  cache hash entry hentry := by
    rw [hlookups]
    rcases hcache hash entry hentry with hentry | ⟨l, hl, hrest⟩
    · obtain ⟨l, hl, hrest⟩ := h.cache hash entry hentry
      exact ⟨l, List.mem_append_left _ hl, hrest⟩
    · exact ⟨l, List.mem_append_right _ hl, hrest⟩
  pcs j := by
    rw [hmono]
    by_cases hj : j = i
    · rw [hj]
      exact hpc
    · rw [hpcs j hj, harrived j hj, hlookups]
      exact (h.pcs j).later le_rfl

variable {cfg : GateSettings} {g' : Gate ι} {now : Time}

/-- A lookup that finds its row: it is remembered, and the request goes on under its name. -/
theorem found (h : a.Backed hashOf) (entry : CacheEntry) (hnow : now ≤ a.gate.mono)
    (harrived : a.arrived i = some (req, now)) (hhash : hashOf req = some hash)
    (hholds : Lookup.Holds ⟨i, hash, now, a.gate.keys, a.gate.operators⟩ entry.name)
    (hexpires : entry.expiresAt = now + 30)
    (hmoves : (a.gate.remember hash entry).Moves g' i (Pc.Under entry.name)) :
    Audited.Backed hashOf ⟨g', a.arrived,
      a.lookups ++ [⟨i, hash, now, a.gate.keys, a.gate.operators⟩]⟩ := by
  obtain ⟨hcache, hmono, hpcs, hpc⟩ := hmoves
  have hvouched : Vouched (a.lookups ++ [⟨i, hash, now, a.gate.keys, a.gate.operators⟩]) hash now
      entry.name :=
    ⟨_, List.mem_append_right _ List.mem_cons_self, rfl, by simp, le_rfl, hholds⟩
  refine h.move hmono rfl (fun _ _ => rfl) (.inr rfl) hpcs ?_ ?_
    (of_under hpc harrived hhash hvouched)
  · intro l hl
    obtain rfl := List.mem_singleton.mp hl
    exact ⟨hnow, rfl, req, harrived⟩
  · intro hash' entry' hentry
    have hcache : g'.cache = Function.update a.gate.cache hash (some entry) := hcache
    rw [hcache] at hentry
    by_cases heq : hash' = hash
    · subst heq
      rw [Function.update_self] at hentry
      obtain rfl := Option.some.inj hentry
      exact .inr ⟨_, List.mem_cons_self, rfl, hexpires, hholds⟩
    · rw [Function.update_of_ne heq] at hentry
      exact .inl hentry

/-- Time goes on, or the backend writes its tables. -/
theorem frame (h : a.Backed hashOf) (hcache : g'.cache = a.gate.cache)
    (hmono : a.gate.mono ≤ g'.mono) (hpc : g'.pc = a.gate.pc) :
    Audited.Backed hashOf ⟨g', a.arrived, a.lookups ++ []⟩ where
  reads l hl := by
    rw [List.append_nil] at hl
    obtain ⟨hnow, hreader⟩ := h.reads l hl
    exact ⟨hnow.trans hmono, hreader⟩
  cache hash entry hentry := by
    rw [List.append_nil]
    exact h.cache hash entry (hcache ▸ hentry)
  pcs i := by
    show (g'.pc i).Backed hashOf _ g'.mono _
    rw [hpc]
    exact (h.pcs i).later hmono

variable [DecidableEq ι]

/-- A lookup that finds nothing to remember. -/
theorem missed (h : a.Backed hashOf) (pc : Pc) (hnow : now ≤ a.gate.mono)
    (harrived : a.arrived i = some (req, now))
    (hpc : pc.Backed hashOf (a.lookups ++ [⟨i, hash, now, a.gate.keys, a.gate.operators⟩])
      a.gate.mono (a.arrived i)) :
    Audited.Backed hashOf ⟨a.gate.goto i pc, a.arrived,
      a.lookups ++ [⟨i, hash, now, a.gate.keys, a.gate.operators⟩]⟩ := by
  refine h.move rfl rfl (fun _ _ => rfl) (.inr rfl) (fun j hj => Function.update_of_ne hj _ _) ?_
    (fun _ _ hentry => .inl hentry) ?_
  · intro l hl
    obtain rfl := List.mem_singleton.mp hl
    exact ⟨hnow, rfl, req, harrived⟩
  · simpa [Gate.goto] using hpc

theorem resume (h : a.Backed hashOf) (he : a.gate.resume cfg i = some g') :
    Audited.Backed hashOf ⟨g', a.arrived, a.lookups ++ a.gate.reads (.resume i)⟩ := by
  have hi := h.pcs i
  unfold Gate.resume at he
  cases hpc : a.gate.pc i with
  | idle | answered answer | logged answer =>
    rw [hpc] at he
    cases he
  | keyRow hash now =>
    rw [hpc] at he hi
    obtain ⟨hnow, req, harrived, hhash⟩ := hi
    dsimp only at he
    simp only [Gate.reads, hpc]
    cases hrow : a.gate.keys.activeByHash hash with
    | some row =>
      rw [hrow] at he
      obtain rfl := Option.some.inj he
      exact h.found ⟨some row.id, row.name, row.rpmLimit, row.tokenQuota, row.quotaPeriod, now + 30⟩
        hnow harrived hhash (Lookup.holds_key hrow) rfl moves_check
    | none =>
      rw [hrow] at he
      obtain rfl := Option.some.inj he
      exact h.missed (.operatorRow hash now) hnow harrived ⟨hnow, req, harrived, hhash⟩
  | operatorRow hash now =>
    rw [hpc] at he hi
    obtain ⟨hnow, req, harrived, hhash⟩ := hi
    dsimp only at he
    simp only [Gate.reads, hpc]
    cases hop : a.gate.operators.activeByHash hash with
    | some op =>
      rw [hop] at he
      dsimp only at he
      split_ifs at he with hrole
      · obtain rfl := Option.some.inj he
        exact h.missed (.answered (.refused _ _ _)) hnow harrived trivial
      · obtain rfl := Option.some.inj he
        exact h.found ⟨none, op.label, none, none, none, now + 30⟩ hnow harrived hhash
          (Lookup.holds_operator hop hrole) rfl (.goto rfl)
    | none =>
      rw [hop] at he
      obtain rfl := Option.some.inj he
      exact h.missed (.answered (.refused _ _ _)) hnow harrived trivial
  | usage name quota period periodStart now =>
    rw [hpc] at he hi
    obtain ⟨req, t, hash, harrived, hhash, hvouched⟩ := hi
    obtain rfl := Option.some.inj he
    simp only [Gate.reads, hpc]
    set used := tokensUsedByKey a.gate.logs name (if periodStart = 0 then none else some periodStart)
    obtain ⟨hcache, hmono, hpcs, hunder⟩ := moves_finish period quota used
      (a.gate.noteUsage name ⟨used, periodStart, now + 15⟩) i name
    exact h.move hmono rfl (fun _ _ => rfl) (.inr rfl) hpcs (by simp)
      (fun _ _ hentry => .inl (hcache ▸ hentry)) (of_under hunder harrived hhash hvouched.append)

theorem arrive {hashKey : String → String} {decode : String → Option Session}
    (hon : cfg.requireApiKey = true) (h : a.Backed (presentedHash hashKey decode cfg))
    (hidle : a.gate.pc i = .idle) (req : HttpRequest) :
    Audited.Backed (presentedHash hashKey decode cfg)
      ⟨a.gate.arrive hashKey decode cfg i req, Function.update a.arrived i (some (req, a.gate.mono)),
        a.lookups ++ []⟩ := by
  have hnone : a.arrived i = none := by
    have hi := h.pcs i
    rwa [hidle] at hi
  have hmove {P : Pc → Prop} {g' : Gate ι} (hmoves : a.gate.Moves g' i P)
      (hP : ∀ pc, P pc → pc.Backed (presentedHash hashKey decode cfg) (a.lookups ++ []) a.gate.mono
        (some (req, a.gate.mono))) :
      Audited.Backed (presentedHash hashKey decode cfg)
        ⟨g', Function.update a.arrived i (some (req, a.gate.mono)), a.lookups ++ []⟩ := by
    obtain ⟨hcache, hmono, hpcs, hpc⟩ := hmoves
    refine h.move hmono rfl (fun j hj => Function.update_of_ne hj _ _) (.inl hnone) hpcs (by simp)
      (fun _ _ hentry => .inl (hcache ▸ hentry)) ?_
    simpa using hP _ hpc
  have hcases := @arrive_presented ι cfg a.gate i _ hashKey decode hon req
  rcases hcases with ⟨hash, hhash, hlookup⟩ | ⟨hhash, answer, hanswer⟩
  · rw [hlookup]
    rcases lookup_cases cfg a.gate i hash with ⟨entry, hentry, hlives, hmoves⟩ | hmoves
    · obtain ⟨l, hl, hlhash, hexpires, hholds⟩ := h.cache hash entry hentry
      obtain ⟨hlnow, -⟩ := h.reads l hl
      have hvouched : Vouched (a.lookups ++ []) hash a.gate.mono entry.name :=
        ⟨l, List.mem_append_left _ hl, hlhash, by linarith, hlnow, hholds⟩
      exact hmove hmoves fun pc hpc => of_under hpc rfl hhash hvouched
    · refine hmove hmoves fun pc hpc => ?_
      rcases hpc with rfl | ⟨status, detail, header, rfl⟩
      · exact ⟨le_rfl, req, rfl, hhash⟩
      · trivial
  · rw [hanswer]
    have hmoves : a.gate.Moves (a.gate.answer i answer) i (· = .answered answer) := .goto rfl
    refine hmove hmoves fun pc hpc => ?_
    subst hpc
    cases answer with
    | refused => trivial
    | admitted name =>
      rintro req' t hash harrival hpresented
      cases harrival
      rw [hhash] at hpresented
      cases hpresented

theorem log (h : a.Backed hashOf) {tokens : Option Int} (he : a.gate.log i tokens = some g') :
    Audited.Backed hashOf ⟨g', a.arrived, a.lookups ++ []⟩ := by
  have hi := h.pcs i
  unfold Gate.log at he
  cases hpc : a.gate.pc i with
  | answered answer =>
    rw [hpc] at he hi
    cases answer with
    | refused => cases he
    | admitted name =>
      obtain rfl := Option.some.inj he
      refine h.move rfl rfl (fun _ _ => rfl) (.inr rfl) (fun j hj => Function.update_of_ne hj _ _)
        (by simp) (fun _ _ hentry => .inl hentry) ?_
      simpa [Gate.goto, Gate.record, Pc.Backed] using hi
  | _ =>
    rw [hpc] at he
    cases he

/-- **One step keeps the invariant.** -/
theorem step {hashKey : String → String} {decode : String → Option Session}
    (hon : cfg.requireApiKey = true) (h : a.Backed (presentedHash hashKey decode cfg))
    {e : GateEvent ι} (hstep : a.step hashKey decode cfg e = some a') :
    a'.Backed (presentedHash hashKey decode cfg) := by
  obtain ⟨g', he, rfl⟩ := Option.map_eq_some_iff.mp hstep
  cases e with
  | arrive i req =>
    cases hpc : a.gate.pc i with
    | idle =>
      simp only [Gate.step, hpc, Option.some.injEq] at he
      obtain rfl := he
      exact arrive hon h hpc req
    | _ => simp [Gate.step, hpc] at he
  | resume i => exact h.resume he
  | log i tokens => exact h.log he
  | clock mono wall =>
    simp only [Gate.step] at he
    split_ifs at he with hle
    obtain rfl := Option.some.inj he
    exact h.frame rfl hle rfl
  | create row =>
    obtain ⟨keys, -, rfl⟩ := Option.map_eq_some_iff.mp he
    exact h.frame rfl le_rfl rfl
  | revoke id =>
    obtain rfl := Option.some.inj he
    exact h.frame rfl le_rfl rfl
  | operators ops =>
    obtain rfl := Option.some.inj he
    exact h.frame rfl le_rfl rfl

end Audited.Backed

/-! ## Every run -/

section Runs

variable [DecidableEq ι]

/-- The record beside it changes nothing about the router. -/
theorem Audited.gate_run {hashKey : String → String} {decode : String → Option Session}
    {cfg : GateSettings} {a a' : Audited ι} {es : List (GateEvent ι)}
    (h : run (Audited.step hashKey decode cfg) a es = some a') :
    run (Gate.step hashKey decode cfg) a.gate es = some a'.gate := by
  refine run_project (fun {v e v'} he => ?_) h
  obtain ⟨g, hg, rfl⟩ := Option.map_eq_some_iff.mp he
  exact hg

/-- A router that just started: its cache is empty, and no request has come. -/
structure Gate.Fresh (g : Gate ι) : Prop where
  cache : ∀ hash, g.cache hash = none
  idle : ∀ i, g.pc i = .idle

theorem backed_of_reach {hashKey : String → String} {decode : String → Option Session}
    {cfg : GateSettings} {g : Gate ι} {a : Audited ι} (hfresh : g.Fresh)
    (hon : cfg.requireApiKey = true)
    (hreach : Reach (Audited.step hashKey decode cfg) anyEvent ⟨g, fun _ => none, []⟩ a) :
    a.Backed (presentedHash hashKey decode cfg) := by
  have hstart : Audited.Backed (presentedHash hashKey decode cfg)
      (⟨g, fun _ => none, []⟩ : Audited ι) := by
    refine ⟨by simp, fun hash entry hentry => ?_, fun i => ?_⟩
    · rw [hfresh.cache] at hentry
      cases hentry
    · rw [hfresh.idle]
      rfl
  exact hreach.invariant hstart fun ha _ he => ha.step hon he

/-- **Bounded staleness.** With enforcement on, in every run: a request at clock reading `t` without
a session, whose token is not the admin token, is let in under a name only if the store held a row of
that name for the token, not revoked and not a viewer's, at a lookup that this process made for a
request whose own reading lies in `(t - 30, t]`. -/
theorem stale_bound (hashKey : String → String) (decode : String → Option Session)
    (cfg : GateSettings) (g : Gate ι) (hfresh : g.Fresh) (hon : cfg.requireApiKey = true)
    (a : Audited ι)
    (hreach : Reach (Audited.step hashKey decode cfg) anyEvent ⟨g, fun _ => none, []⟩ a)
    (i : ι) (req : HttpRequest) (t : Time) (harrived : a.arrived i = some (req, t))
    (hsession : requestActor decode cfg req = none) (token : String)
    (htoken : truthy (bearer req) = some token)
    (hadmin : ¬ (cfg.adminToken ≠ "" ∧ token = cfg.adminToken)) (name : Option String)
    (haccepted : a.gate.pc i = .answered (.admitted name) ∨ a.gate.pc i = .logged (.admitted name)) :
    ∃ n, name = some n ∧ ∃ l ∈ a.lookups, l.hash = hashKey token ∧
      (∃ req', a.arrived l.reader = some (req', l.now)) ∧ t - 30 < l.now ∧ l.now ≤ t ∧ l.Holds n := by
  have hbacked := backed_of_reach hfresh hon hreach
  have hhash : presentedHash hashKey decode cfg req = some (hashKey token) := by
    unfold presentedHash
    rw [htoken, if_pos ⟨hsession, by simpa using hadmin⟩]
    rfl
  have hi := hbacked.pcs i
  have hvouched : ∃ n, name = some n ∧ Vouched a.lookups (hashKey token) t n := by
    rcases haccepted with hpc | hpc
    · rw [hpc] at hi
      exact hi req t (hashKey token) harrived hhash
    · rw [hpc] at hi
      exact hi req t (hashKey token) harrived hhash
  obtain ⟨n, hname, l, hl, hlhash, hlast, hle, hholds⟩ := hvouched
  exact ⟨n, hname, l, hl, hlhash, (hbacked.reads l hl).2, hlast, hle, hholds⟩

end Runs

/-! ### An operator who was just revoked -/

deriving instance DecidableEq for HttpRequest

/-- The operator "alice", active or revoked. -/
def alice (revoked : Bool) : Operators where
  rows := [{ id := 1, label := "alice", tokenHash := "a", role := "operator", revoked := revoked }]
  ids := by simp
  hashes := by simp

def aliceGate : Gate Nat where
  keys := ⟨[], List.nodup_nil, List.nodup_nil⟩
  operators := alice false

/-- She is let in, revoked, and comes again 29 seconds after. -/
def aliceReturns : List (GateEvent Nat) :=
  [.arrive 0 ⟨"Bearer a", none⟩, .resume 0, .resume 0, .operators (alice true), .clock 29 29,
    .arrive 1 ⟨"Bearer a", none⟩]

/-- The lookup of her first request lets the second one in. -/
theorem stale_bound_alice : ∃ a : Audited Nat, a.gate.pc 1 = .answered (.admitted (some "alice")) ∧
    a.gate.operators.activeByHash "a" = none ∧
    ∃ l ∈ a.lookups, l.hash = "a" ∧ (29 : Time) - 30 < l.now ∧ l.Holds "alice" := by
  have hrun : (run (Audited.step id (fun _ => none) {}) ⟨aliceGate, fun _ => none, []⟩
      aliceReturns).any (fun a => a.gate.pc 1 = .answered (.admitted (some "alice")) ∧
        a.gate.operators.activeByHash "a" = none ∧
        a.arrived 1 = some (⟨"Bearer a", none⟩, 29)) = true := by decide +kernel
  obtain ⟨a, ha, hstate⟩ := (Option.any_eq_true _ _).mp hrun
  obtain ⟨hpc, hrevoked, harrived⟩ := of_decide_eq_true hstate
  obtain ⟨n, hn, l, hl, hhash, -, hlast, -, hholds⟩ := stale_bound id (fun _ => none) {} aliceGate
    ⟨fun _ => rfl, fun _ => rfl⟩ rfl a (Reach.of_run ha) 1 ⟨"Bearer a", none⟩ 29 harrived rfl "a"
    (by decide +kernel) (by decide) (some "alice") (.inl hpc)
  obtain rfl := Option.some.inj hn
  exact ⟨a, hpc, hrevoked, l, hl, hhash, hlast, hholds⟩

end Llmops.Keys
