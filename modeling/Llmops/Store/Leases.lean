import Llmops.Lib.Conversion
import Llmops.Lib.Lapse

/-!
# The lease tables of the store

`instances_live`, `nodes` and `instance_observed` (`llmops_store.py:799-918, 948-996`). Each method
is one statement that is committed, so the calls of all nodes stand in one order, each with the time
that its clock reads. A `SELECT` without `ORDER BY` promises its rows and not their order (the tests
compare them as sets): two answers are the same if they have the same rows.

`τ` stands for Python's floats as a clock reads them and as `ts + ttl` rounds them: any type with an
order and an addition, of which nothing is assumed. `json.loads` of a stored view is a parameter.

* `exact_answer`: a read returns the rows whose latest write expires after the time of the read;
* `same_answers`: no read tells whether there were prunes before it;
* `prune_invisible`: both, of every sequence of calls whose clock readings never go back.
-/

namespace Llmops.Store

open Lib

/-! ## The rows -/

/-- A row of `instances_live`. -/
structure InstanceLive (τ : Type) where
  key : String
  groupKey : String
  instanceId : String
  nodeId : Option String
  host : String
  port : Int
  state : Option String
  expiresAt : τ

/-- A row of `nodes`. -/
structure NodeRow (τ : Type) where
  nodeId : String
  hostname : Option String
  capacity : Option String
  engines : Option String
  apiUrl : Option String
  expiresAt : τ

/-- A row of `instance_observed`. -/
structure InstanceObserved (τ : Type) where
  key : String
  nodeId : Option String
  state : Option String
  view : String
  expiresAt : τ

/-- What `list_instance_observed` makes of a row; `none` where the text is no JSON object, on which
it raises. -/
def InstanceObserved.observed {τ : Type} (loads : String → Option Json) (row : InstanceObserved τ) :
    Option (Dict Json) := do
  let view ← (← loads row.view).asObj
  return view.set "node_id" (.ofOption .str row.nodeId)

/-- The three tables. -/
structure Tables (τ : Type) where
  instancesLive : List (InstanceLive τ) := []
  nodes : List (NodeRow τ) := []
  instanceObserved : List (InstanceObserved τ) := []

/-! ## The methods -/

section Methods

variable {τ : Type} [LinearOrder τ] [Add τ]

namespace Tables

variable (t : Tables τ)

/-- `upsert_instance_live`. -/
def upsertInstanceLive (key groupKey instanceId host : String) (port : Int) (ttl : τ)
    (nodeId state : Option String) (now : τ) : Tables τ :=
  let row : InstanceLive τ := ⟨key, groupKey, instanceId, nodeId, host, port, state, now + ttl⟩
  { t with instancesLive := Lapse.upsert InstanceLive.key t.instancesLive row }

/-- `remove_instance_live`. -/
def removeInstanceLive (key : String) : Tables τ :=
  { t with instancesLive := Lapse.remove InstanceLive.key t.instancesLive key }

/-- `prune_instances_live`, with the number deleted. -/
def pruneInstancesLive (now : τ) : Nat × Tables τ :=
  (Lapse.pruned InstanceLive.expiresAt t.instancesLive now,
    { t with instancesLive := Lapse.prune InstanceLive.expiresAt t.instancesLive now })

/-- `list_instances_live`. -/
def listInstancesLive (now : τ) : List (InstanceLive τ) :=
  Lapse.live InstanceLive.expiresAt t.instancesLive now

/-- `upsert_node`. -/
def upsertNode (nodeId : String) (hostname capacity : Option String) (ttl now : τ)
    (engines apiUrl : Option String) : Tables τ :=
  let row : NodeRow τ := ⟨nodeId, hostname, capacity, engines, apiUrl, now + ttl⟩
  { t with nodes := Lapse.upsert NodeRow.nodeId t.nodes row }

/-- `list_nodes`. -/
def listNodes (now : τ) : List (NodeRow τ) := Lapse.live NodeRow.expiresAt t.nodes now

/-- `prune_nodes`, with the number deleted. -/
def pruneNodes (now : τ) : Nat × Tables τ :=
  (Lapse.pruned NodeRow.expiresAt t.nodes now,
    { t with nodes := Lapse.prune NodeRow.expiresAt t.nodes now })

/-- `upsert_instance_observed`. -/
def upsertInstanceObserved (key : String) (nodeId state : Option String) (view : String)
    (ttl now : τ) : Tables τ :=
  let row : InstanceObserved τ := ⟨key, nodeId, state, view, now + ttl⟩
  { t with instanceObserved := Lapse.upsert InstanceObserved.key t.instanceObserved row }

/-- `remove_instance_observed`. -/
def removeInstanceObserved (key : String) : Tables τ :=
  { t with instanceObserved := Lapse.remove InstanceObserved.key t.instanceObserved key }

/-- `list_instance_observed`; `none` when it raises. -/
def listInstanceObserved (loads : String → Option Json) (now : τ) : Option (List (Dict Json)) :=
  (Lapse.live InstanceObserved.expiresAt t.instanceObserved now).mapM (·.observed loads)

/-- `prune_instance_observed`, with the number deleted. -/
def pruneInstanceObserved (now : τ) : Nat × Tables τ :=
  (Lapse.pruned InstanceObserved.expiresAt t.instanceObserved now,
    { t with instanceObserved := Lapse.prune InstanceObserved.expiresAt t.instanceObserved now })

end Tables

end Methods

/-! ## Calls -/

/-- A call of a method, by any node, with the time that its clock reads. -/
inductive Call (τ : Type) where
  | upsertInstanceLive (key groupKey instanceId host : String) (port : Int) (ttl : τ)
      (nodeId state : Option String) (now : τ)
  | removeInstanceLive (key : String)
  | pruneInstancesLive (now : τ)
  | listInstancesLive (now : τ)
  | upsertNode (nodeId : String) (hostname capacity : Option String) (ttl now : τ)
      (engines apiUrl : Option String)
  | listNodes (now : τ)
  | pruneNodes (now : τ)
  | upsertInstanceObserved (key : String) (nodeId state : Option String) (view : String)
      (ttl now : τ)
  | removeInstanceObserved (key : String)
  | listInstanceObserved (now : τ)
  | pruneInstanceObserved (now : τ)

/-- What a read returns. -/
inductive Answer (τ : Type) where
  | instancesLive (rows : List (InstanceLive τ))
  | nodes (rows : List (NodeRow τ))
  | instanceObserved (views : Option (List (Dict Json)))

namespace Call

variable {τ : Type}

/-- What the clock reads at a call. A removal looks at no clock. -/
def clock : Call τ → Option τ
  | .upsertInstanceLive _ _ _ _ _ _ _ _ now | .pruneInstancesLive now | .listInstancesLive now
  | .upsertNode _ _ _ _ now _ _ | .listNodes now | .pruneNodes now
  | .upsertInstanceObserved _ _ _ _ _ now | .listInstanceObserved now
  | .pruneInstanceObserved now => some now
  | .removeInstanceLive _ | .removeInstanceObserved _ => none

/-- A prune. -/
def isPrune : Call τ → Bool
  | .pruneInstancesLive _ | .pruneNodes _ | .pruneInstanceObserved _ => true
  | _ => false

variable [Add τ]

/-- What a call writes to `instances_live`. -/
def writesLive : Call τ → Option (Lapse.Write (InstanceLive τ) String τ)
  | .upsertInstanceLive key groupKey instanceId host port ttl nodeId state now =>
    some (.upsert ⟨key, groupKey, instanceId, nodeId, host, port, state, now + ttl⟩)
  | .removeInstanceLive key => some (.remove key)
  | .pruneInstancesLive now => some (.prune now)
  | _ => none

/-- What a call writes to `nodes`. -/
def writesNode : Call τ → Option (Lapse.Write (NodeRow τ) String τ)
  | .upsertNode nodeId hostname capacity ttl now engines apiUrl =>
    some (.upsert ⟨nodeId, hostname, capacity, engines, apiUrl, now + ttl⟩)
  | .pruneNodes now => some (.prune now)
  | _ => none

/-- What a call writes to `instance_observed`. -/
def writesObserved : Call τ → Option (Lapse.Write (InstanceObserved τ) String τ)
  | .upsertInstanceObserved key nodeId state view ttl now =>
    some (.upsert ⟨key, nodeId, state, view, now + ttl⟩)
  | .removeInstanceObserved key => some (.remove key)
  | .pruneInstanceObserved now => some (.prune now)
  | _ => none

end Call

section Runs

variable {τ : Type} [LinearOrder τ] [Add τ]

/-- The tables after a call. -/
def Tables.next (t : Tables τ) : Call τ → Tables τ
  | .upsertInstanceLive key groupKey instanceId host port ttl nodeId state now =>
    t.upsertInstanceLive key groupKey instanceId host port ttl nodeId state now
  | .removeInstanceLive key => t.removeInstanceLive key
  | .pruneInstancesLive now => (t.pruneInstancesLive now).2
  | .upsertNode nodeId hostname capacity ttl now engines apiUrl =>
    t.upsertNode nodeId hostname capacity ttl now engines apiUrl
  | .pruneNodes now => (t.pruneNodes now).2
  | .upsertInstanceObserved key nodeId state view ttl now =>
    t.upsertInstanceObserved key nodeId state view ttl now
  | .removeInstanceObserved key => t.removeInstanceObserved key
  | .pruneInstanceObserved now => (t.pruneInstanceObserved now).2
  | .listInstancesLive _ | .listNodes _ | .listInstanceObserved _ => t

/-- The tables after these calls, of a store that began with none of the rows. -/
def tables (calls : List (Call τ)) : Tables τ := calls.foldl Tables.next {}

variable (loads : String → Option Json)

/-- What a call that reads returns. -/
def Tables.answer (t : Tables τ) : Call τ → Option (Answer τ)
  | .listInstancesLive now => some (.instancesLive (t.listInstancesLive now))
  | .listNodes now => some (.nodes (t.listNodes now))
  | .listInstanceObserved now => some (.instanceObserved (t.listInstanceObserved loads now))
  | _ => none

/-- What the reads among the calls return, from tables `t` on. -/
def answersFrom (t : Tables τ) : List (Call τ) → List (Answer τ)
  | [] => []
  | c :: calls => (t.answer loads c).toList ++ answersFrom (t.next c) calls

/-- The same, from empty tables. -/
def answers (calls : List (Call τ)) : List (Answer τ) := answersFrom loads {} calls

end Runs

/-! ## Each table by itself -/

section Each

variable {τ : Type} [LinearOrder τ] [Add τ]

/-- One of the tables, with what each call writes to it. -/
structure LeaseTable (τ ρ : Type) [LinearOrder τ] [Add τ] where
  rows : Tables τ → List ρ
  key : ρ → String
  expiresAt : ρ → τ
  writes : Call τ → Option (Lapse.Write ρ String τ)
  rows_empty : rows {} = []
  rows_next : ∀ t c, rows (t.next c) =
    ((writes c).map (Lapse.Write.next key expiresAt (rows t))).getD (rows t)
  lasts : ∀ c w, writes c = some w → w.lasts = !c.isPrune
  clock : ∀ c now, writes c = some (.prune now) → c.clock = some now

/-- `instances_live`. -/
def liveTable : LeaseTable τ (InstanceLive τ) where
  rows := Tables.instancesLive
  key := InstanceLive.key
  expiresAt := InstanceLive.expiresAt
  writes := Call.writesLive
  rows_empty := rfl
  rows_next := by intro t c; cases c <;> rfl
  lasts := by intro c w h; cases c <;> cases h <;> rfl
  clock := by intro c now h; cases c <;> cases h; rfl

/-- `nodes`. -/
def nodeTable : LeaseTable τ (NodeRow τ) where
  rows := Tables.nodes
  key := NodeRow.nodeId
  expiresAt := NodeRow.expiresAt
  writes := Call.writesNode
  rows_empty := rfl
  rows_next := by intro t c; cases c <;> rfl
  lasts := by intro c w h; cases c <;> cases h <;> rfl
  clock := by intro c now h; cases c <;> cases h; rfl

/-- `instance_observed`. -/
def observedTable : LeaseTable τ (InstanceObserved τ) where
  rows := Tables.instanceObserved
  key := InstanceObserved.key
  expiresAt := InstanceObserved.expiresAt
  writes := Call.writesObserved
  rows_empty := rfl
  rows_next := by intro t c; cases c <;> rfl
  lasts := by intro c w h; cases c <;> cases h <;> rfl
  clock := by intro c now h; cases c <;> cases h; rfl

/-- The calls without the prunes. -/
def unpruned (calls : List (Call τ)) : List (Call τ) := calls.filter fun c => !c.isPrune

/-- The clock readings never go back. -/
def NeverBack (calls : List (Call τ)) : Prop := (calls.filterMap Call.clock).Pairwise (· ≤ ·)

/-- The prunes among the calls were made at no later time. -/
def PrunedBy (now : τ) (calls : List (Call τ)) : Prop :=
  ∀ c ∈ calls, ∀ t, c.isPrune = true → c.clock = some t → t ≤ now

omit [Add τ] in
/-- What is pruned before a call is pruned at no later time than the call. -/
theorem NeverBack.prunedBy {before calls : List (Call τ)} {c : Call τ} {now : τ}
    (h : NeverBack (before ++ c :: calls)) (hc : c.clock = some now) : PrunedBy now before := by
  intro b hb t _ ht
  unfold NeverBack at h
  rw [List.filterMap_append, List.pairwise_append] at h
  exact h.2.2 t (List.mem_filterMap.mpr ⟨b, hb, ht⟩) now
    (List.mem_filterMap.mpr ⟨c, List.mem_cons_self, hc⟩)

namespace LeaseTable

variable {ρ : Type} (T : LeaseTable τ ρ) {calls : List (Call τ)} {now : τ}

/-- The rows that each key was last given by the calls. -/
def latest (calls : List (Call τ)) : String → Option ρ :=
  Lapse.written T.key (calls.filterMap T.writes)

/-- What a `SELECT` at `now` finds. -/
def select (now : τ) (t : Tables τ) : List ρ := Lapse.live T.expiresAt (T.rows t) now

/-- The table has what was written to it, whatever is done to the others. -/
theorem rows_tables : T.rows (tables calls) =
    Lapse.table T.key T.expiresAt (calls.filterMap T.writes) := by
  induction calls using List.reverseRecOn with
  | nil => exact T.rows_empty
  | append_singleton calls c ih =>
    rw [tables, List.foldl_concat, T.rows_next, List.filterMap_append]
    unfold tables at ih
    cases hc : T.writes c with
    | none =>
      rw [List.filterMap_cons_none hc, List.filterMap_nil, List.append_nil]
      exact ih
    | some w =>
      rw [List.filterMap_cons_some hc, List.filterMap_nil, Lapse.table, List.foldl_concat, ih]
      rfl

/-- Without the prunes of a history, the table was written the same but for the prunes. -/
theorem filterMap_unpruned : (unpruned calls).filterMap T.writes =
    (calls.filterMap T.writes).filter Lapse.Write.lasts := by
  unfold unpruned
  rw [List.filterMap_filter, List.filter_filterMap]
  refine List.filterMap_congr fun c _ => ?_
  cases hc : T.writes c with
  | none => split_ifs <;> rfl
  | some w =>
    rw [Option.filter_some, T.lasts c w hc]

/-- **What a read finds**: the last rows, those of them that have not expired. -/
theorem returns_select (h : PrunedBy now calls) :
    Lapse.Returns T.key T.expiresAt now (T.latest calls) (T.select now (tables calls)) := by
  unfold select latest
  rw [rows_tables]
  refine Lapse.returns_live fun t ht => ?_
  obtain ⟨c, hc, hw⟩ := List.mem_filterMap.mp ht
  have hprune := T.lasts c _ hw
  exact h c hc t (by simpa [Lapse.Write.lasts] using hprune) (T.clock c t hw)

/-- **What a read would have found** without the prunes: the same. -/
theorem returns_select_unpruned : Lapse.Returns T.key T.expiresAt now (T.latest calls)
    (T.select now (tables (unpruned calls))) := by
  unfold select latest
  rw [rows_tables, filterMap_unpruned]
  exact Lapse.returns_live_filter_lasts

theorem select_perm (h : PrunedBy now calls) :
    (T.select now (tables calls)).Perm (T.select now (tables (unpruned calls))) :=
  (T.returns_select h).perm T.returns_select_unpruned

end LeaseTable

end Each

/-! ## All reads of a sequence of calls -/

section Reads

variable {τ : Type} [LinearOrder τ] [Add τ] (loads : String → Option Json)

/-- Two answers with the same rows. -/
inductive Answer.Same : Answer τ → Answer τ → Prop
  | instancesLive {rows rows'} (h : rows.Perm rows') : Same (.instancesLive rows) (.instancesLive rows')
  | nodes {rows rows'} (h : rows.Perm rows') : Same (.nodes rows) (.nodes rows')
  | raises : Same (.instanceObserved none) (.instanceObserved none)
  | instanceObserved {views views'} (h : views.Perm views') :
    Same (.instanceObserved (some views)) (.instanceObserved (some views'))

/-- The answer to a read that is due after the calls `before`: the rows whose latest write expires
after the time of the read, each once. -/
def Answer.Exact (before : List (Call τ)) : Call τ → Answer τ → Prop
  | .listInstancesLive now, .instancesLive rows =>
    Lapse.Returns InstanceLive.key InstanceLive.expiresAt now (liveTable.latest before) rows
  | .listNodes now, .nodes rows =>
    Lapse.Returns NodeRow.nodeId NodeRow.expiresAt now (nodeTable.latest before) rows
  | .listInstanceObserved now, .instanceObserved views => ∃ rows,
    Lapse.Returns InstanceObserved.key InstanceObserved.expiresAt now (observedTable.latest before)
      rows ∧ views = rows.mapM (·.observed loads)
  | _, _ => False

variable {loads} {before calls : List (Call τ)} {c : Call τ} {answer : Answer τ}

/-- **A read returns** the rows whose latest write expires after it. -/
theorem exact_answer (h : NeverBack (before ++ c :: calls))
    (hanswer : (tables before).answer loads c = some answer) : answer.Exact loads before c := by
  unfold Tables.answer at hanswer
  split at hanswer
  · obtain rfl := Option.some.inj hanswer
    exact liveTable.returns_select (h.prunedBy rfl)
  · obtain rfl := Option.some.inj hanswer
    exact nodeTable.returns_select (h.prunedBy rfl)
  · obtain rfl := Option.some.inj hanswer
    exact ⟨_, observedTable.returns_select (h.prunedBy rfl), rfl⟩
  · cases hanswer

omit [LinearOrder τ] [Add τ] in
/-- Views of the same rows: if one of them is no JSON object, both reads raise. -/
theorem Answer.same_of_perm {rows rows' : List (InstanceObserved τ)} (h : rows.Perm rows') :
    @Same τ (.instanceObserved (rows.mapM (·.observed loads)))
      (.instanceObserved (rows'.mapM (·.observed loads))) := by
  cases hviews : rows.mapM (·.observed loads) with
  | some views =>
    obtain ⟨views', hviews', hperm⟩ := mapM_perm hviews h
    rw [hviews']
    exact .instanceObserved hperm
  | none =>
    have hnone : rows'.mapM (·.observed loads) = none := by
      by_contra hcon
      obtain ⟨views', hviews'⟩ := Option.ne_none_iff_exists'.mp hcon
      obtain ⟨views, hsome, -⟩ := mapM_perm hviews' h.symm
      rw [hviews] at hsome
      cases hsome
    rw [hnone]
    exact .raises

/-- One call returns the same with and without the prunes before it. -/
theorem same_answer (h : NeverBack (before ++ c :: calls)) : List.Forall₂ Answer.Same
    ((tables before).answer loads c).toList
    ((tables (unpruned before)).answer loads c).toList := by
  cases c with
  | listInstancesLive now =>
    exact .cons (.instancesLive (liveTable.select_perm (h.prunedBy rfl))) .nil
  | listNodes now => exact .cons (.nodes (nodeTable.select_perm (h.prunedBy rfl))) .nil
  | listInstanceObserved now =>
    exact .cons (Answer.same_of_perm (observedTable.select_perm (h.prunedBy rfl))) .nil
  | upsertInstanceLive => exact .nil
  | removeInstanceLive => exact .nil
  | pruneInstancesLive => exact .nil
  | upsertNode => exact .nil
  | pruneNodes => exact .nil
  | upsertInstanceObserved => exact .nil
  | removeInstanceObserved => exact .nil
  | pruneInstanceObserved => exact .nil

omit [Add τ] in
/-- A prune returns no rows. -/
theorem answer_of_isPrune {t : Tables τ} (h : c.isPrune = true) : t.answer loads c = none := by
  cases c with
  | pruneInstancesLive => rfl
  | pruneNodes => rfl
  | pruneInstanceObserved => rfl
  | _ => cases h

/-- **The reads of the rest of a sequence**, when some of it has been called. -/
theorem same_answersFrom (h : NeverBack (before ++ calls)) : List.Forall₂ Answer.Same
    (answersFrom loads (tables before) calls)
    (answersFrom loads (tables (unpruned before)) (unpruned calls)) := by
  induction calls generalizing before with
  | nil => exact .nil
  | cons c calls ih =>
    have hnext : tables (before ++ [c]) = (tables before).next c := List.foldl_concat ..
    have hrest := @ih (before ++ [c]) (by rwa [List.append_assoc])
    rw [answersFrom, ← hnext]
    unfold unpruned at hrest ⊢
    rw [List.filter_append] at hrest
    by_cases hprune : c.isPrune = true
    · rw [List.filter_cons_of_neg (by simp [hprune]), answer_of_isPrune hprune]
      rw [List.filter_cons_of_neg (by simp [hprune]), List.filter_nil, List.append_nil] at hrest
      exact hrest
    · rw [List.filter_cons_of_pos (by simp [hprune]), answersFrom]
      rw [List.filter_cons_of_pos (by simp [hprune]), List.filter_nil] at hrest
      have hnext' : tables (unpruned before ++ [c]) = (tables (unpruned before)).next c :=
        List.foldl_concat ..
      unfold unpruned at hnext'
      rw [hnext'] at hrest
      exact List.rel_append (same_answer h) hrest

/-- **Pruning is invisible**: in every sequence of calls whose clock readings never go back, every
read returns the same rows as in the sequence without its prunes, and these are exactly the rows
whose latest write expires after the time of the read. -/
theorem prune_invisible (h : NeverBack calls) :
    List.Forall₂ Answer.Same (answers loads calls) (answers loads (unpruned calls)) ∧
      ∀ before c after, calls = before ++ c :: after → ∀ answer,
        (tables before).answer loads c = some answer → answer.Exact loads before c := by
  refine ⟨@same_answersFrom _ _ _ loads [] calls h, fun before c after hcalls answer hanswer => ?_⟩
  subst hcalls
  exact exact_answer h hanswer

end Reads

/-- Two nodes, of which the first lapses, is pruned by the second, and registers anew: it comes last
then, where without the prune it would have kept its place. -/
def lapsedNode : List (Call Int) :=
  [.upsertNode "n1" (some "host1") none 10 1000 none none,
    .upsertNode "n2" none (some "[]") 100 1000 none none, .pruneNodes 1010, .listNodes 1010,
    .upsertNode "n1" (some "host1") none (-5) 1011 none none,
    .upsertNode "n1" (some "host1") none 10 1012 none none, .listNodes 1012]

theorem prune_invisible_lapsed :
    List.Forall₂ Answer.Same (answers (fun _ => none) lapsedNode)
        (answers (fun _ => none) (unpruned lapsedNode)) ∧
      ∀ before c after, lapsedNode = before ++ c :: after → ∀ answer,
        (tables before).answer (fun _ => none) c = some answer →
          answer.Exact (fun _ => none) before c :=
  prune_invisible (by
    unfold NeverBack
    decide)

end Llmops.Store
