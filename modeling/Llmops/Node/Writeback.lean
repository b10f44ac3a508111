import Llmops.Node.Site

/-!
# Who may write an instance's rows

`_backfill_node_state` (`reconciler.py:202-262`) on any number of nodes that share the tables
`instances_live` and `instance_observed`. It makes its store calls one after the other: the rows of
captured transitions are withdrawn, then every instance that is not foreign is published, then
expired rows are pruned. Between the calls anything may happen: calls of other nodes, time,
assignments, heartbeats, other changes of the node's records. The transitions and the foreign set of
a pass are arbitrary. A call of the store may fail; its clock reading and its execution are one step.
No other code writes the two tables.

* `respects_iff`: the calls of a run respect ownership exactly if none withdraws an unexpired row of
  a foreign key, and the foreign set still has the keys whose rows their alive owners wrote;
* `owner_withdrawn`: the local copy of a foreign key leaves READY, and its owner's row is deleted;
* `backfill_run`: without interference the live rows are those of `Site.backfill`.
-/

namespace Llmops.Node

open Llmops.Lib

/-- A row of `instance_observed`; `view` is the record that `observed_dict` is made from. -/
structure ObservedRow (N : Type*) where
  nodeId : N
  state : ModelState
  view : ModelInstance
  expiresAt : Time

/-- Where the writeback of a node is: at a transition, at an instance, between the two rows of an
instance that is not foreign, or at one of the prunes. -/
inductive WritePc where
  | idle
  | withdrawing (foreign : String → Bool) (trs : List (String × Transition))
  | publishing (foreign : String → Bool) (keys : List String)
  | observing (foreign : String → Bool) (key : String) (own : foreign key = false)
      (keys : List String)
  | pruningLive (foreign : String → Bool)
  | pruningObserved (foreign : String → Bool)

/-- The foreign set of the pass. -/
def WritePc.foreign : WritePc → Option (String → Bool)
  | .idle => none
  | .withdrawing foreign _ | .publishing foreign _ | .observing foreign _ _ _
  | .pruningLive foreign | .pruningObserved foreign => some foreign

/-- A node: its settings, its registry, and its writeback. -/
structure WriteNode where
  cfg : SiteSettings := {}
  keys : List String := []
  inst : String → ModelInstance
  pc : WritePc := .idle

/-- The clock, the two tables, the assignments and heartbeats, and the nodes. -/
structure Writeback (N : Type*) where
  now : Time
  live : String → Option (LiveRow N) := fun _ => none
  observed : String → Option (ObservedRow N) := fun _ => none
  assignment : String → Option N := fun _ => none
  heartbeat : N → Option Time := fun _ => none
  node : N → WriteNode

/-- Time; an assignment, a heartbeat, a change of a node's records; a pass comes to its writeback;
the next step of one. -/
inductive WriteEvent (N : Type*) where
  | pass (t : Time)
  | assign (key : String) (owner : Option N)
  | beat (n : N) (expires : Option Time)
  | records (n : N) (keys : List String) (inst : String → ModelInstance)
  | reconcile (n : N) (trs : List (String × Transition)) (foreign : String → Bool)
  | store (n : N) (answered : Bool)

/-- A row that has not expired. -/
def unexpired {R : Type*} (expires : R → Time) (now : Time) (row : Option R) : Option R :=
  row.filter fun r => now < expires r

/-- The live row that the next call of a node writes or removes. -/
def WriteNode.touchesLive (v : WriteNode) : Option String :=
  match v.pc with
  | .withdrawing _ ((key, tr) :: _) => if tr.1 = .ready ∧ tr.2 ≠ .ready then some key else none
  | .publishing foreign (key :: _) =>
    if foreign key = false ∧ (v.inst key).state = .ready then some key else none
  | _ => none

/-- The observed row that it writes. -/
def WriteNode.touchesObserved (v : WriteNode) : Option String :=
  match v.pc with
  | .observing _ key _ _ => some key
  | _ => none

/-- The next step of the writeback, after the call of this one. -/
def WriteNode.next (v : WriteNode) : Option WritePc :=
  match v.pc with
  | .idle => none
  | .withdrawing foreign [] => some (.publishing foreign v.keys)
  | .withdrawing foreign (_ :: trs) => some (.withdrawing foreign trs)
  | .publishing foreign [] => some (.pruningLive foreign)
  | .publishing foreign (key :: keys) =>
    if h : foreign key = true then some (.publishing foreign keys)
    else some (.observing foreign key (Bool.eq_false_iff.mpr h) keys)
  | .observing foreign _ _ keys => some (.publishing foreign keys)
  | .pruningLive foreign => some (.pruningObserved foreign)
  | .pruningObserved _ => some .idle

section Steps

variable {N : Type*}

/-- The row of a READY instance. -/
def WriteNode.liveRow (v : WriteNode) (n : N) (key : String) (now : Time) : LiveRow N :=
  let id := partition key "::"
  ⟨id.1, id.2, n, Site.routable v.cfg (v.inst key), (v.inst key).port, (v.inst key).state,
    now + v.cfg.liveTtl⟩

/-- The observed row of an instance. -/
def WriteNode.observedRow (v : WriteNode) (n : N) (key : String) (now : Time) : ObservedRow N :=
  ⟨n, (v.inst key).state, v.inst key, now + v.cfg.liveTtl⟩

/-- `instances_live` after the next call of node `n`. -/
def Writeback.liveAfter (s : Writeback N) (n : N) : String → Option (LiveRow N) :=
  let v := s.node n
  match v.pc with
  | .withdrawing _ _ =>
    match v.touchesLive with
    | some key => Function.update s.live key none
    | none => s.live
  | .publishing _ _ =>
    match v.touchesLive with
    | some key => Function.update s.live key (some (v.liveRow n key s.now))
    | none => s.live
  | .pruningLive _ => fun key => unexpired LiveRow.expiresAt s.now (s.live key)
  | _ => s.live

/-- `instance_observed` after it. -/
def Writeback.observedAfter (s : Writeback N) (n : N) : String → Option (ObservedRow N) :=
  let v := s.node n
  match v.pc with
  | .observing _ key _ _ => Function.update s.observed key (some (v.observedRow n key s.now))
  | .pruningObserved _ => fun key => unexpired ObservedRow.expiresAt s.now (s.observed key)
  | _ => s.observed

variable [DecidableEq N]

/-- One event. A call that fails is logged, and the pass goes on. -/
def Writeback.step (s : Writeback N) : WriteEvent N → Option (Writeback N)
  | .pass t => some { s with now := max s.now t }
  | .assign key owner => some { s with assignment := Function.update s.assignment key owner }
  | .beat n expires => some { s with heartbeat := Function.update s.heartbeat n expires }
  | .records n keys inst =>
    some { s with node := Function.update s.node n { s.node n with keys := keys, inst := inst } }
  | .reconcile n trs foreign =>
    match (s.node n).pc with
    | .idle =>
      some { s with
        node := Function.update s.node n { s.node n with pc := .withdrawing foreign trs } }
    | _ => none
  | .store n answered =>
    (s.node n).next.map fun pc => { s with
      live := if answered then s.liveAfter n else s.live
      observed := if answered then s.observedAfter n else s.observed
      node := Function.update s.node n { s.node n with pc := pc } }

end Steps

/-! ## Ownership -/

section Ownership

variable {N : Type*}

/-- The key is assigned to this node, and the node is alive. -/
def Writeback.Owns (s : Writeback N) (key : String) (m : N) : Prop :=
  s.assignment key = some m ∧ ∃ t, s.heartbeat m = some t ∧ s.now < t

/-- `foreign_assignments`. -/
def Writeback.foreignAssignments [DecidableEq N] (s : Writeback N) (n : N) (key : String) : Bool :=
  (s.assignment key).any fun m => m ≠ n && (s.heartbeat m).any (s.now < ·)

/-- What has not expired under a foreign key is as it was. -/
structure Writeback.KeepsForeign (s s' : Writeback N) (foreign : String → Bool) : Prop where
  live : ∀ key, foreign key = true →
    unexpired LiveRow.expiresAt s.now (s'.live key) = unexpired LiveRow.expiresAt s.now (s.live key)
  observed : ∀ key, foreign key = true →
    unexpired ObservedRow.expiresAt s.now (s'.observed key) =
      unexpired ObservedRow.expiresAt s.now (s.observed key)

/-- An unexpired row that the owner of the key wrote, another node that is alive, is as it was. -/
structure Writeback.KeepsOwners (s s' : Writeback N) (n : N) : Prop where
  live : ∀ key m row, m ≠ n → s.Owns key m → s.live key = some row → row.nodeId = m →
    s.now < row.expiresAt → s'.live key = some row
  observed : ∀ key m row, m ≠ n → s.Owns key m → s.observed key = some row → row.nodeId = m →
    s.now < row.expiresAt → s'.observed key = some row

/-- A step of a writeback **respects ownership**. -/
def Writeback.Respects [DecidableEq N] (s : Writeback N) (e : WriteEvent N) : Prop :=
  match e with
  | .store n _ => ∀ s', s.step e = some s' →
      (∀ foreign, (s.node n).pc.foreign = some foreign → s.KeepsForeign s' foreign) ∧
      s.KeepsOwners s' n
  | _ => True

/-- The condition: a call of a node may touch the row of a key. A live row under a foreign key has
expired, and if the owner of the key has an unexpired row the key is in the foreign set. -/
def Writeback.Owned (s : Writeback N) (e : WriteEvent N) : Prop :=
  match e with
  | .store n true => ∀ foreign, (s.node n).pc.foreign = some foreign →
      (∀ key, (s.node n).touchesLive = some key →
        (foreign key = true → unexpired LiveRow.expiresAt s.now (s.live key) = none) ∧
        ∀ m row, m ≠ n → s.Owns key m → s.live key = some row → row.nodeId = m →
          s.now < row.expiresAt → foreign key = true) ∧
      ∀ key, (s.node n).touchesObserved = some key →
        ∀ m row, m ≠ n → s.Owns key m → s.observed key = some row → row.nodeId = m →
          s.now < row.expiresAt → foreign key = true
  | _ => True

end Ownership

/-! ## What a call leaves as it was -/

section Table

variable {N R : Type*} {expires : R → Time} {now : Time}

theorem unexpired_eq_some {row : Option R} {r : R} :
    unexpired expires now row = some r ↔ row = some r ∧ now < expires r := by
  simp [unexpired, Option.filter_eq_some_iff]

theorem unexpired_unexpired (row : Option R) :
    unexpired expires now (unexpired expires now row) = unexpired expires now row := by
  simp [unexpired, Option.filter_filter]

/-- A table in which at most the row at `touched` changes: removed if the key is foreign, else of
this node. It is changed with respect for ownership exactly if the unexpired row there, if any, is
neither foreign nor the owner's. -/
theorem table_respected_iff (nodeId : R → N) (owns : String → N → Prop) {t t' : String → Option R}
    {touched : Option String} {foreign : String → Bool} {n : N}
    (hframe : ∀ key, touched ≠ some key →
      unexpired expires now (t' key) = unexpired expires now (t key))
    (hforeign : ∀ key, touched = some key → foreign key = true → t' key = none)
    (hown : ∀ key row, touched = some key → t' key = some row → nodeId row = n) :
    ((∀ key, foreign key = true →
        unexpired expires now (t' key) = unexpired expires now (t key)) ∧
      ∀ key m row, m ≠ n → owns key m → t key = some row → nodeId row = m → now < expires row →
        t' key = some row) ↔
    ∀ key, touched = some key →
      (foreign key = true → unexpired expires now (t key) = none) ∧
      ∀ m row, m ≠ n → owns key m → t key = some row → nodeId row = m → now < expires row →
        foreign key = true := by
  constructor
  · rintro ⟨hkeep, howners⟩ key htouched
    refine ⟨fun hkey => ?_, fun m row hm ho hrow hnode hnow => ?_⟩
    · rw [← hkeep key hkey, hforeign key htouched hkey]
      rfl
    · have hrow' := howners key m row hm ho hrow hnode hnow
      exact absurd (hnode.symm.trans (hown key row htouched hrow')) hm
  · intro h
    refine ⟨fun key hkey => ?_, fun key m row hm ho hrow hnode hnow => ?_⟩
    · by_cases htouched : touched = some key
      · rw [(h key htouched).1 hkey, hforeign key htouched hkey]
        rfl
      · exact hframe key htouched
    · by_cases htouched : touched = some key
      · -- The key is foreign, and then its row has expired.
        have hkey := (h key htouched).2 m row hm ho hrow hnode hnow
        have hnone := (h key htouched).1 hkey
        rw [unexpired_eq_some.mpr ⟨hrow, hnow⟩] at hnone
        cases hnone
      · have hsome := unexpired_eq_some.mpr ⟨hrow, hnow⟩
        rw [← hframe key htouched] at hsome
        exact (unexpired_eq_some.mp hsome).1

end Table

section Calls

variable {N : Type*} {s : Writeback N} {n : N} {key : String} {foreign : String → Bool}

/-- A call writes or removes one live row, or prunes. -/
theorem liveAfter_frame (h : (s.node n).touchesLive ≠ some key) :
    unexpired LiveRow.expiresAt s.now (s.liveAfter n key) =
      unexpired LiveRow.expiresAt s.now (s.live key) := by
  unfold Writeback.liveAfter
  cases hpc : (s.node n).pc with
  | withdrawing foreign trs =>
    cases htouched : (s.node n).touchesLive with
    | none => rfl
    | some key' =>
      have hne : key ≠ key' := fun heq => h (htouched.trans (congrArg some heq.symm))
      simp only [Function.update_of_ne hne]
  | publishing foreign keys =>
    cases htouched : (s.node n).touchesLive with
    | none => rfl
    | some key' =>
      have hne : key ≠ key' := fun heq => h (htouched.trans (congrArg some heq.symm))
      simp only [Function.update_of_ne hne]
  | pruningLive foreign => exact unexpired_unexpired (s.live key)
  | idle | observing | pruningObserved => rfl

theorem observedAfter_frame (h : (s.node n).touchesObserved ≠ some key) :
    unexpired ObservedRow.expiresAt s.now (s.observedAfter n key) =
      unexpired ObservedRow.expiresAt s.now (s.observed key) := by
  unfold Writeback.observedAfter
  unfold WriteNode.touchesObserved at h
  cases hpc : (s.node n).pc with
  | observing foreign key' own keys =>
    have hne : key ≠ key' := by
      rintro rfl
      simp [hpc] at h
    simp only [Function.update_of_ne hne]
  | pruningObserved foreign => exact unexpired_unexpired (s.observed key)
  | idle | withdrawing | publishing | pruningLive => rfl

/-- The row of a foreign key is only ever removed: by a transition. -/
theorem liveAfter_foreign (htouched : (s.node n).touchesLive = some key)
    (hforeign : (s.node n).pc.foreign = some foreign) (hkey : foreign key = true) :
    s.liveAfter n key = none := by
  unfold Writeback.liveAfter
  cases hpc : (s.node n).pc with
  | withdrawing foreign' trs => simp only [htouched, Function.update_self]
  | publishing foreign' keys =>
    rw [hpc] at hforeign
    cases hforeign
    cases keys with
    | nil => simp [WriteNode.touchesLive, hpc] at htouched
    | cons key' keys =>
      simp only [WriteNode.touchesLive, hpc] at htouched
      split at htouched
      · next hown =>
        cases htouched
        rw [hkey] at hown
        cases hown.1
      · cases htouched
  | idle | observing | pruningLive | pruningObserved =>
    simp [WriteNode.touchesLive, hpc] at htouched

theorem liveAfter_nodeId {row : LiveRow N} (htouched : (s.node n).touchesLive = some key)
    (hrow : s.liveAfter n key = some row) : row.nodeId = n := by
  unfold Writeback.liveAfter at hrow
  cases hpc : (s.node n).pc with
  | withdrawing foreign trs =>
    simp only [hpc, htouched, Function.update_self] at hrow
    cases hrow
  | publishing foreign keys =>
    simp only [hpc, htouched, Function.update_self] at hrow
    cases hrow
    rfl
  | idle | observing | pruningLive | pruningObserved =>
    simp [WriteNode.touchesLive, hpc] at htouched

theorem touchesObserved_own (htouched : (s.node n).touchesObserved = some key)
    (hforeign : (s.node n).pc.foreign = some foreign) : foreign key = false := by
  cases hpc : (s.node n).pc with
  | observing foreign' key' own keys =>
    rw [hpc] at hforeign
    cases hforeign
    simp only [WriteNode.touchesObserved, hpc] at htouched
    cases htouched
    exact own
  | idle | withdrawing | publishing | pruningLive | pruningObserved =>
    simp [WriteNode.touchesObserved, hpc] at htouched

theorem observedAfter_nodeId {row : ObservedRow N}
    (htouched : (s.node n).touchesObserved = some key)
    (hrow : s.observedAfter n key = some row) : row.nodeId = n := by
  cases hpc : (s.node n).pc with
  | observing foreign key' own keys =>
    simp only [WriteNode.touchesObserved, hpc] at htouched
    cases htouched
    simp only [Writeback.observedAfter, hpc, Function.update_self] at hrow
    cases hrow
    rfl
  | idle | withdrawing | publishing | pruningLive | pruningObserved =>
    simp [WriteNode.touchesObserved, hpc] at htouched

/-- A step of a writeback that is under way has a foreign set. -/
theorem foreign_of_next {pc : WritePc} (h : (s.node n).next = some pc) :
    ∃ foreign, (s.node n).pc.foreign = some foreign := by
  cases hpc : (s.node n).pc with
  | idle => simp [WriteNode.next, hpc] at h
  | withdrawing | publishing | observing | pruningLive | pruningObserved => exact ⟨_, rfl⟩

theorem next_of_foreign (h : (s.node n).pc.foreign = some foreign) :
    ∃ pc, (s.node n).next = some pc := by
  unfold WriteNode.next
  cases hpc : (s.node n).pc with
  | idle =>
    rw [hpc] at h
    cases h
  | withdrawing foreign trs => cases trs <;> exact ⟨_, rfl⟩
  | publishing foreign keys =>
    cases keys with
    | nil => exact ⟨_, rfl⟩
    | cons key keys => by_cases hkey : foreign key = true <;> simp [hkey]
  | observing | pruningLive | pruningObserved => exact ⟨_, rfl⟩

end Calls

/-! ## Ownership is respected exactly if the condition holds -/

section Respected

variable {N : Type*} [DecidableEq N]

/-- A call that failed. -/
theorem respects_failed (s : Writeback N) (n : N) : s.Respects (.store n false) := by
  intro s' hstep
  obtain ⟨pc, -, rfl⟩ := Option.map_eq_some_iff.mp hstep
  exact ⟨fun _ _ => ⟨fun _ _ => rfl, fun _ _ => rfl⟩,
    ⟨fun _ _ _ _ _ hrow _ _ => hrow, fun _ _ _ _ _ hrow _ _ => hrow⟩⟩

theorem respects_answered_iff (s : Writeback N) (n : N) :
    s.Respects (.store n true) ↔ s.Owned (.store n true) := by
  cases hnext : (s.node n).next with
  | none =>
    -- The writeback is not under way.
    refine iff_of_true (fun s' hstep => ?_) fun foreign hforeign => ?_
    · simp [Writeback.step, hnext] at hstep
    · obtain ⟨pc, hpc⟩ := next_of_foreign hforeign
      rw [hnext] at hpc
      cases hpc
  | some pc =>
    obtain ⟨foreign, hforeign⟩ := foreign_of_next hnext
    have hown : ∀ {key}, (s.node n).touchesObserved = some key → foreign key ≠ true :=
      fun htouched => Bool.eq_false_iff.mp (touchesObserved_own htouched hforeign)
    have hlive := table_respected_iff LiveRow.nodeId s.Owns (fun key => liveAfter_frame)
      (fun key htouched => liveAfter_foreign htouched hforeign)
      (fun key row htouched => liveAfter_nodeId htouched)
    have hobserved := table_respected_iff ObservedRow.nodeId s.Owns
      (fun key => observedAfter_frame (s := s) (n := n))
      (fun key htouched hkey => absurd hkey (hown htouched))
      (fun key row htouched => observedAfter_nodeId htouched)
    simp only [Writeback.Respects, Writeback.step, hnext, Option.map_some, Option.some.injEq,
      forall_eq', Writeback.Owned, hforeign, if_true]
    constructor
    · rintro ⟨⟨hl, ho⟩, hl', ho'⟩
      refine ⟨hlive.mp ⟨hl, hl'⟩, fun key htouched => ?_⟩
      exact (hobserved.mp ⟨ho, ho'⟩ key htouched).2
    · rintro ⟨hl, ho⟩
      obtain ⟨hl, hl'⟩ := hlive.mpr hl
      obtain ⟨ho, ho'⟩ := hobserved.mpr fun key htouched =>
        ⟨fun hkey => absurd hkey (hown htouched), ho key htouched⟩
      exact ⟨⟨hl, ho⟩, hl', ho'⟩

theorem respects_step_iff (s : Writeback N) (e : WriteEvent N) : s.Respects e ↔ s.Owned e := by
  cases e with
  | store n answered =>
    cases answered with
    | true => exact respects_answered_iff s n
    | false => exact iff_of_true (respects_failed s n) trivial
  | pass | assign | beat | records | reconcile => exact Iff.rfl

/-- **The writebacks of a run respect ownership exactly if** no call withdraws an unexpired live row
of a foreign key, and none touches the unexpired row of an owner whose key its pass does not yet
know to be foreign. -/
theorem respects_iff (s : Writeback N) (es : List (WriteEvent N)) :
    Along Writeback.step Writeback.Respects s es ↔ Along Writeback.step Writeback.Owned s es :=
  along_congr respects_step_iff

end Respected

/-- The local copy of a key of `node-b` fails on `node-a`, which knows that the key is foreign: it
withdraws the address that `node-b` published. -/
theorem owner_withdrawn :
    let row : LiveRow String := ⟨"qwen", "one", "node-b", "10.0.0.2", 8001, .ready, 130⟩
    let s : Writeback String :=
      { now := 100
        live := Function.update (fun _ => none) "qwen::one" (some row)
        assignment := Function.update (fun _ => none) "qwen::one" (some "node-b")
        heartbeat := fun _ => some 115
        node := fun _ =>
          { keys := ["qwen::one"]
            inst := fun key => .ofSpec ⟨key, .llm, [], [], "", "10.0.0.1", 8001, "", "vllm", [],
              none, false⟩ } }
    let es : List (WriteEvent String) :=
      [.reconcile "node-a" [("qwen::one", .ready, .failed)] (s.foreignAssignments "node-a"),
        .store "node-a" true]
    s.foreignAssignments "node-a" "qwen::one" = true ∧
      (run Writeback.step s es).any (fun t => (t.live "qwen::one").isNone) = true ∧
      ¬ Along Writeback.step Writeback.Respects s es := by
  intro row s es
  refine ⟨by decide +kernel, by decide +kernel, fun h => ?_⟩
  obtain ⟨-, h⟩ := h
  obtain ⟨h, -⟩ := h _ rfl
  have hkeeps := congrArg Option.isSome (((h _ rfl).1 _ rfl).live "qwen::one" (by decide +kernel))
  exact absurd hkeeps (by decide +kernel)

/-! ## An uninterrupted writeback -/

section Alone

variable {N : Type*}

/-- Only this node calls the store, and every call is answered. -/
def Alone (n : N) (_ : Writeback N) (e : WriteEvent N) : Prop := e = .store n true

/-- The table once the transitions are withdrawn. -/
def withdrawn (trs : List (String × Transition)) (live : String → Option (LiveRow N)) :
    String → Option (LiveRow N) := fun key =>
  if trs.any fun t => t.1 = key ∧ t.2.1 = .ready ∧ t.2.2 ≠ .ready then none else live key

/-- The table once these instances are published. -/
def Writeback.published (s : Writeback N) (n : N) (foreign : String → Bool) (keys : List String)
    (live : String → Option (LiveRow N)) : String → Option (LiveRow N) := fun key =>
  if key ∈ keys ∧ foreign key = false ∧ ((s.node n).inst key).state = .ready then
    some ((s.node n).liveRow n key s.now)
  else live key

variable {s : Writeback N} {n : N} {foreign : String → Bool}
  {live : String → Option (LiveRow N)} {observed : String → Option (ObservedRow N)}

@[simp] theorem withdrawn_nil : withdrawn [] live = live := by
  funext key
  simp [withdrawn]

theorem withdrawn_cons (key : String) (tr : Transition) (trs : List (String × Transition)) :
    withdrawn ((key, tr) :: trs) live = withdrawn trs
      (if tr.1 = .ready ∧ tr.2 ≠ .ready then Function.update live key none else live) := by
  funext key'
  unfold withdrawn
  by_cases hleft : tr.1 = .ready ∧ tr.2 ≠ .ready
  · by_cases hkey : key' = key
    · subst hkey
      simp [hleft]
    · have hkey' : key ≠ key' := Ne.symm hkey
      simp only [List.any_cons, hkey', false_and, decide_false, Bool.false_or, if_pos hleft,
        Function.update_of_ne hkey]
  · simp only [List.any_cons, hleft, and_false, decide_false, Bool.false_or, if_false]

@[simp] theorem published_nil : s.published n foreign [] live = live := by
  funext key
  simp [Writeback.published]

theorem published_cons (key : String) (keys : List String) :
    s.published n foreign (key :: keys) live = s.published n foreign keys
      (if foreign key = false ∧ ((s.node n).inst key).state = .ready then
        Function.update live key (some ((s.node n).liveRow n key s.now)) else live) := by
  funext key'
  unfold Writeback.published
  by_cases hkey : key' = key
  · subst hkey
    by_cases hown : foreign key' = false ∧ ((s.node n).inst key').state = .ready <;> simp [hown]
  · by_cases hown : foreign key = false ∧ ((s.node n).inst key).state = .ready <;>
      simp [hown, hkey]

variable [DecidableEq N]

/-- Node `n` is at `pc`, with these tables. -/
def Writeback.put (s : Writeback N) (n : N) (pc : WritePc) (live : String → Option (LiveRow N))
    (observed : String → Option (ObservedRow N)) : Writeback N :=
  { s with
    live := live
    observed := observed
    node := Function.update s.node n { s.node n with pc := pc } }

/-- The next step of a writeback from `put`. -/
theorem put_next {pc pc' : WritePc} {live' : String → Option (LiveRow N)}
    {observed' : String → Option (ObservedRow N)}
    (hnext : WriteNode.next { s.node n with pc := pc } = some pc')
    (hlive : (s.put n pc live observed).liveAfter n = live')
    (hobserved : (s.put n pc live observed).observedAfter n = observed') :
    Reach Writeback.step (Alone n) (s.put n pc live observed) (s.put n pc' live' observed') := by
  refine Reach.refl.tail rfl ?_
  simp only [Writeback.step, if_true, hlive, hobserved]
  simp [Writeback.put, hnext]

theorem withdraw_run (foreign : String → Bool) (trs : List (String × Transition))
    (live : String → Option (LiveRow N)) (observed : String → Option (ObservedRow N)) :
    Reach Writeback.step (Alone n) (s.put n (.withdrawing foreign trs) live observed)
      (s.put n (.publishing foreign (s.node n).keys) (withdrawn trs live) observed) := by
  induction trs generalizing live with
  | nil =>
    refine put_next rfl ?_ ?_
    · simp [Writeback.liveAfter, WriteNode.touchesLive, Writeback.put]
    · simp [Writeback.observedAfter, Writeback.put]
  | cons head trs ih =>
    obtain ⟨key, tr⟩ := head
    rw [withdrawn_cons]
    refine (put_next rfl ?_ ?_).trans (ih _)
    · by_cases hleft : tr.1 = .ready ∧ tr.2 ≠ .ready <;>
        simp [Writeback.liveAfter, WriteNode.touchesLive, Writeback.put, hleft]
    · simp [Writeback.observedAfter, Writeback.put]

theorem observe_run {key : String} (keys : List String) (hown : foreign key = false)
    (live : String → Option (LiveRow N)) (observed : String → Option (ObservedRow N)) :
    ∃ observed', Reach Writeback.step (Alone n)
      (s.put n (.observing foreign key hown keys) live observed)
      (s.put n (.publishing foreign keys) live observed') := by
  refine ⟨_, put_next rfl ?_ rfl⟩
  simp [Writeback.liveAfter, Writeback.put]

theorem publish_run (foreign : String → Bool) (keys : List String)
    (live : String → Option (LiveRow N)) (observed : String → Option (ObservedRow N)) : ∃ observed',
    Reach Writeback.step (Alone n) (s.put n (.publishing foreign keys) live observed)
      (s.put n (.pruningLive foreign) (s.published n foreign keys live) observed') := by
  induction keys generalizing live observed with
  | nil =>
    refine ⟨observed, put_next rfl ?_ ?_⟩
    · simp [Writeback.liveAfter, WriteNode.touchesLive, Writeback.put]
    · simp [Writeback.observedAfter, Writeback.put]
  | cons key keys ih =>
    rw [published_cons]
    by_cases hkey : foreign key = true
    · obtain ⟨observed', h⟩ := ih live observed
      simp only [hkey, Bool.true_eq_false, false_and, if_false]
      refine ⟨observed', (put_next (by simp [WriteNode.next, hkey]) ?_ ?_).trans h⟩
      · simp [Writeback.liveAfter, WriteNode.touchesLive, Writeback.put, hkey]
      · simp [Writeback.observedAfter, Writeback.put]
    · -- The live row, if the instance is READY, then the observed row.
      have hown := Bool.eq_false_iff.mpr hkey
      simp only [hown, true_and]
      have hlive : Reach Writeback.step (Alone n)
          (s.put n (.publishing foreign (key :: keys)) live observed)
          (s.put n (.observing foreign key hown keys)
            (if ((s.node n).inst key).state = .ready then
              Function.update live key (some ((s.node n).liveRow n key s.now)) else live)
            observed) := by
        refine put_next (by simp [WriteNode.next, hkey]) ?_ ?_
        · by_cases hready : ((s.node n).inst key).state = .ready <;>
            simp [Writeback.liveAfter, WriteNode.touchesLive, Writeback.put, hown, hready,
              WriteNode.liveRow]
        · simp [Writeback.observedAfter, Writeback.put]
      obtain ⟨observed', hobserved⟩ := observe_run keys hown _ observed
      obtain ⟨observed'', h⟩ := ih _ observed'
      exact ⟨observed'', hlive.trans (hobserved.trans h)⟩

theorem prune_run (foreign : String → Bool) (live : String → Option (LiveRow N))
    (observed : String → Option (ObservedRow N)) : ∃ observed',
    Reach Writeback.step (Alone n) (s.put n (.pruningLive foreign) live observed)
      (s.put n .idle (fun key => unexpired LiveRow.expiresAt s.now (live key)) observed') := by
  have hlive : Reach Writeback.step (Alone n) (s.put n (.pruningLive foreign) live observed)
      (s.put n (.pruningObserved foreign)
        (fun key => unexpired LiveRow.expiresAt s.now (live key)) observed) := by
    refine put_next rfl ?_ ?_
    · simp [Writeback.liveAfter, Writeback.put]
    · simp [Writeback.observedAfter, Writeback.put]
  refine ⟨_, hlive.trans (put_next rfl ?_ rfl)⟩
  simp [Writeback.liveAfter, Writeback.put]

/-- **Without interference the writeback is `Site.backfill`**: node `n` alone, every call answered,
comes to the end of its pass, and the table is then the one that the site's step gives. -/
theorem backfill_run {trs : List (String × Transition)} {site : Site N}
    (hpc : (s.node n).pc = .withdrawing foreign trs) (hkeys : site.keys = (s.node n).keys)
    (hinst : site.inst = (s.node n).inst) (hclock : site.clock = s.now)
    (hlive : site.live = s.live) (hforeign : site.foreign n = foreign) :
    ∃ t, Reach Writeback.step (Alone n) s t ∧ (t.node n).pc = .idle ∧
      t.live = (site.backfill (s.node n).cfg n trs).live := by
  have hstart : s.put n (.withdrawing foreign trs) s.live s.observed = s := by
    simp [Writeback.put, ← hpc]
  have hwithdraw := withdraw_run (s := s) (n := n) foreign trs s.live s.observed
  obtain ⟨observed, hpublish⟩ := publish_run (s := s) (n := n) foreign (s.node n).keys
    (withdrawn trs s.live) s.observed
  obtain ⟨observed', hprune⟩ := prune_run (s := s) (n := n) foreign
    (s.published n foreign (s.node n).keys (withdrawn trs s.live)) observed
  rw [hstart] at hwithdraw
  refine ⟨_, (hwithdraw.trans hpublish).trans hprune, ?_, ?_⟩
  · simp [Writeback.put]
  · funext key
    have hrow : site.liveRow (s.node n).cfg n key = (s.node n).liveRow n key s.now := by
      simp only [Site.liveRow, WriteNode.liveRow, hinst, hclock]
    simp only [Writeback.put, Writeback.published, withdrawn, Site.backfill, hkeys, hinst, hclock,
      hlive, hforeign, hrow, unexpired]
    split_ifs <;> rfl

end Alone

end Llmops.Node
