import Llmops.Node.Site

/-!
# What a node publishes follows what is READY

A node publishes its READY instances twice: as unexpired rows of `instances_live`, which the routers
of other hosts read, and as entries of the Prometheus targets file. `Published` says that both are
right. Each operation keeps them right by a path of its own:

* the reconciler removes a row and rewrites the file for the transitions that it captured itself;
* `sleep` and `wake` rewrite the file; a row appears with the next pass, and `sleep` leaves it;
* `stop` touches neither, and no pass sees the transition.

`published_of_reach`: whenever a pass is over, both views are right, in every run in which no stop
and no sleep takes an instance out of the ready pool under a row or an entry (`Withdrawn`).
`still_listed`: a stopped instance that both views still list after the next pass.
-/

namespace Llmops.Node

open Llmops.Lib

variable {N : Type*}

/-- When the pass that is under way wrote its rows. -/
def Phase.since : Phase → Option Time
  | .between => none
  | .restarting since _ _ | .converging since _ _ _ => some since

namespace Site

/-- A key of the registry whose instance is READY. -/
def Ready (s : Site N) (key : String) : Prop := key ∈ s.keys ∧ (s.inst key).state = .ready

/-- The entry of an instance. -/
def entry (cfg : SiteSettings) (s : Site N) (key : String) : Target :=
  let id := partition (s.inst key).key "::"
  ⟨s!"{routable cfg (s.inst key)}:{(s.inst key).port}", id.1, id.2,
    (s.tag (s.inst key).key).getD "", (s.inst key).engine⟩

/-- **Publication follows readiness**: the unexpired rows that this node wrote are those of its
READY instances, and the file has one entry for every READY LLM instance. -/
structure Published [DecidableEq N] (cfg : SiteSettings) (me : N) (s : Site N) : Prop where
  rows : ∀ key host port,
    (∃ row, s.live key = some row ∧ row.nodeId = me ∧ s.clock < row.expiresAt ∧ row.host = host ∧
      row.port = port) ↔
    s.Ready key ∧ s.foreign me key = false ∧ host = routable cfg (s.inst key) ∧
      port = (s.inst key).port
  file : s.file.Perm ((s.keys.filter fun k =>
    (s.inst k).kind = .llm ∧ (s.inst k).state = .ready).map (s.entry cfg))

/-- No unexpired row of this node for the key. -/
def Unpublished (me : N) (s : Site N) (key : String) : Prop :=
  ∀ row, s.live key = some row → row.nodeId = me → row.expiresAt ≤ s.clock

/-- A stop or a sleep that takes the instance out of the ready pool has nothing to withdraw. -/
def Harmless (cfg : SiteSettings) (me : N) (s : Site N) (key : String) (answered : Bool) : Op → Prop
  | .stop => s.Ready key → cfg.nodeCanRun (s.inst key).engine = true →
      (s.inst key).managed = true → (s.inst key).kind ≠ .llm ∧ s.Unpublished me key
  | .sleep => s.Ready key → cfg.nodeCanRun (s.inst key).engine = true →
      (s.inst key).spec.sleepEnabled = true → answered = true → s.Unpublished me key
  | _ => True

/-- The call that the next step of a pass makes. -/
def pending (s : Site N) : Option (String × Op) :=
  match s.phase with
  | .restarting _ _ (key :: _) => some (key, .start)
  | .converging _ foreign states ((key, want) :: _) => (action foreign states key want).map (key, ·)
  | _ => none

/-- The state of a node that has just booted. What it adopted may be READY; it has no rows yet. -/
structure Boots (cfg : SiteSettings) (me : N) (s : Site N) : Prop where
  between : s.phase = .between
  rows : ∀ key row, s.live key = some row → row.nodeId ≠ me
  file : s.file = s.buildTargets cfg
  awake : ∀ key ∈ s.keys, (s.inst key).state ≠ .sleeping
  unique : s.desired.Unique

end Site

open Site

/-- No stop and no sleep takes an instance out of the ready pool while it is published, and a pass
ends before the rows that it wrote expire. -/
def Withdrawn (cfg : SiteSettings) (me : N) (s : Site N) : SiteEvent → Prop
  | .call op key inp => s.Harmless cfg me key inp.answered op
  | .next inp => ∀ key op, s.pending = some (key, op) → s.Harmless cfg me key inp.answered op
  | .reconcile _ => 0 < cfg.liveTtl
  | .clock now => ∀ since, s.phase.since = some since → now < since + cfg.liveTtl
  | .exit _ => True

namespace Site

/-! ## The targets -/

theorem target_eq (cfg : SiteSettings) (s : Site N) (key : String) :
    target cfg s.tag (s.inst key) =
      if (s.inst key).kind = .llm ∧ (s.inst key).state = .ready then some (s.entry cfg key)
      else none := by
  unfold target entry
  by_cases h : (s.inst key).kind = .llm ∧ (s.inst key).state = .ready
  · rw [if_pos h, if_neg]
    rw [not_or, not_not, not_not]
    exact h
  · rw [if_neg h, if_pos]
    rwa [← not_and_or]

/-- The file as it is built has one entry for every READY LLM instance. -/
theorem buildTargets_perm (cfg : SiteSettings) (s : Site N) :
    (s.buildTargets cfg).Perm ((s.keys.filter fun k =>
      (s.inst k).kind = .llm ∧ (s.inst k).state = .ready).map (s.entry cfg)) := by
  refine (List.perm_insertionSort _ _).trans (List.Perm.of_eq ?_)
  simp only [target_eq]
  induction s.keys with
  | nil => rfl
  | cons k keys ih =>
    by_cases h : (s.inst k).kind = .llm ∧ (s.inst k).state = .ready
    · rw [List.filterMap_cons, List.filter_cons, if_pos h, if_pos (decide_eq_true h), ih]
      rfl
    · rw [List.filterMap_cons, List.filter_cons, if_neg h, if_neg (by simpa using h)]
      exact ih

/-- The file depends on the records only through their targets. -/
theorem buildTargets_congr {cfg : SiteSettings} {s s' : Site N} (hkeys : s'.keys = s.keys)
    (h : ∀ k ∈ s.keys, target cfg s'.tag (s'.inst k) = target cfg s.tag (s.inst k)) :
    s'.buildTargets cfg = s.buildTargets cfg := by
  unfold buildTargets
  rw [hkeys, List.filterMap_congr h]

/-! ## What an operation leaves alone -/

/-- The fields of a record that no operation and no pass changes. -/
structure SameId (inst inst' : ModelInstance) : Prop where
  key : inst'.key = inst.key
  kind : inst'.kind = inst.kind
  host : inst'.host = inst.host
  port : inst'.port = inst.port
  engine : inst'.engine = inst.engine

theorem SameId.refl (inst : ModelInstance) : SameId inst inst := ⟨rfl, rfl, rfl, rfl, rfl⟩

theorem SameId.trans {a b c : ModelInstance} (h : SameId a b) (h' : SameId b c) : SameId a c :=
  ⟨h'.key.trans h.key, h'.kind.trans h.kind, h'.host.trans h.host, h'.port.trans h.port,
    h'.engine.trans h.engine⟩

theorem SameId.routable {a b : ModelInstance} (h : SameId a b) (cfg : SiteSettings) :
    routable cfg b = routable cfg a := by
  unfold Site.routable
  rw [h.host]

/-- What an admitted start has in its hands. -/
theorem SameId.of_startSection {a b : ModelInstance} {spec : LaunchSpec} {reset : Bool} {now : Time}
    (h : startSection a spec reset now = .ok b) :
    SameId a b ∧ a.state ≠ .ready ∧ b.state = .starting := by
  obtain ⟨_, hready, rfl⟩ := startSection_eq_ok h
  exact ⟨⟨rfl, rfl, rfl, rfl, rfl⟩, hready, rfl⟩

/-- An operation writes what the user asked for, the state and the process. -/
theorem SameId.set (inst : ModelInstance) (desired : Desired) (state : ModelState)
    (proc : Option Pid) :
    SameId inst { inst with desired := desired, state := state, proc := proc } :=
  ⟨rfl, rfl, rfl, rfl, rfl⟩

theorem SameId.startStore {a b : ModelInstance} (h : SameId a b) (proc : Pid) :
    SameId a (startStoreSection b proc) := h.trans ⟨rfl, rfl, rfl, rfl, rfl⟩

theorem SameId.startFail {a b : ModelInstance} (h : SameId a b) : SameId a (startFailSection b) :=
  h.trans ⟨rfl, rfl, rfl, rfl, rfl⟩

/-- The target of an instance that is as READY as before. -/
theorem SameId.target {a b : ModelInstance} (h : SameId a b) (cfg : SiteSettings)
    (tag : String → Option String)
    (hstate : a.kind = .llm → (b.state = .ready ↔ a.state = .ready)) :
    target cfg tag b = target cfg tag a := by
  unfold Site.target
  rw [h.kind, h.key, h.port, h.engine, h.routable]
  by_cases hk : a.kind = .llm
  · simp only [hk, ne_eq, not_true_eq_false, false_or, hstate hk]
  · simp only [hk, ne_eq, not_false_eq_true, true_or, if_true]

variable [DecidableEq N]

/-- Whether a key is foreign depends on its assignment and the nodes. -/
theorem foreign_congr {me : N} {s s' : Site N} {key : String}
    (h : s'.assignment key = s.assignment key) (hn : s'.nodes = s.nodes) :
    s'.foreign me key = s.foreign me key := by
  unfold foreign
  rw [h, hn]

omit [DecidableEq N] in
theorem assignment_ite_ne {s : Site N} {key k : String} {owner : Option N} {desired : Desired}
    (hk : k ≠ key) : (if desired = .stopped then s.assignment
      else Function.update s.assignment key owner) k = s.assignment k := by
  split_ifs
  · rfl
  · exact Function.update_of_ne hk _ _

/-- What one operation on a key leaves as it is. -/
structure Frame (me : N) (s s' : Site N) (key : String) : Prop where
  keys : s'.keys = s.keys
  tag : s'.tag = s.tag
  live : s'.live = s.live
  clock : s'.clock = s.clock
  phase : s'.phase = s.phase
  inst_ne : ∀ k, k ≠ key → s'.inst k = s.inst k
  sameId : SameId (s.inst key) (s'.inst key)
  desired_ne : ∀ k, k ≠ key → s'.desired.get k = s.desired.get k
  unique : s.desired.Unique → s'.desired.Unique
  foreign_ne : ∀ k, k ≠ key → s'.foreign me k = s.foreign me k
  foreign_self : s'.foreign me key = true → s.foreign me key = true

namespace Frame

variable {me : N} {s s' s'' : Site N} {key : String} {inst : ModelInstance}

theorem refl : Frame me s s key :=
  ⟨rfl, rfl, rfl, rfl, rfl, fun _ _ => rfl, .refl _, fun _ _ => rfl, id, fun _ _ => rfl, id⟩

theorem trans (h : Frame me s s' key) (h' : Frame me s' s'' key) : Frame me s s'' key where
  keys := h'.keys.trans h.keys
  tag := h'.tag.trans h.tag
  live := h'.live.trans h.live
  clock := h'.clock.trans h.clock
  phase := h'.phase.trans h.phase
  inst_ne k hk := (h'.inst_ne k hk).trans (h.inst_ne k hk)
  sameId := h.sameId.trans h'.sameId
  desired_ne k hk := (h'.desired_ne k hk).trans (h.desired_ne k hk)
  unique hu := h'.unique (h.unique hu)
  foreign_ne k hk := (h'.foreign_ne k hk).trans (h.foreign_ne k hk)
  foreign_self hk := h.foreign_self (h'.foreign_self hk)

theorem setInst (h : SameId (s.inst key) inst) : Frame me s (s.setInst key inst) key where
  keys := rfl
  tag := rfl
  live := rfl
  clock := rfl
  phase := rfl
  inst_ne k hk := Function.update_of_ne hk _ _
  sameId := by simpa [Site.setInst] using h
  desired_ne _ _ := rfl
  unique := id
  foreign_ne _ _ := rfl
  foreign_self := id

/-- A row that makes this node the owner, or that leaves the owner as it is. -/
theorem persist (desired : Desired) : Frame me s (s.persist me key desired) key where
  keys := rfl
  tag := rfl
  live := rfl
  clock := rfl
  phase := rfl
  inst_ne _ _ := rfl
  sameId := .refl _
  desired_ne k hk := Dict.get_set_ne hk
  unique hu := hu.set
  foreign_ne k hk := foreign_congr (assignment_ite_ne hk) rfl
  foreign_self hk := by
    unfold Site.foreign Site.persist at *
    dsimp only at hk
    split_ifs at hk
    · exact hk
    · simp at hk

theorem defer (desired : Desired) : Frame me s (s.defer key desired) key where
  keys := rfl
  tag := rfl
  live := rfl
  clock := rfl
  phase := rfl
  inst_ne k hk := Function.update_of_ne hk _ _
  sameId := by
    have h : (s.defer key desired).inst key = deferSection (s.inst key) desired :=
      Function.update_self _ _ _
    rw [h]
    exact ⟨rfl, rfl, rfl, rfl, rfl⟩
  desired_ne k hk := Dict.get_set_ne hk
  unique hu := hu.set
  foreign_ne k hk := foreign_congr (assignment_ite_ne hk) rfl
  foreign_self hk := by
    unfold Site.foreign Site.defer Site.setInst at *
    dsimp only at hk
    split_ifs at hk
    · exact hk
    · simp at hk

theorem writeTargets (cfg : SiteSettings) : Frame me s (s.writeTargets cfg) key :=
  ⟨rfl, rfl, rfl, rfl, rfl, fun _ _ => rfl, .refl _, fun _ _ => rfl, id, fun _ _ => rfl, id⟩

theorem procs (alive : Pid → Bool) (nextPid : Pid) :
    Frame me s { s with alive := alive, nextPid := nextPid } key :=
  ⟨rfl, rfl, rfl, rfl, rfl, fun _ _ => rfl, .refl _, fun _ _ => rfl, id, fun _ _ => rfl, id⟩

end Frame

/-- What an operation does to the readiness of its key, and to the file. -/
structure Served (cfg : SiteSettings) (me : N) (s s' : Site N) (key : String) (op : Op)
    (answered : Bool) : Prop extends Frame me s s' key where
  leaves : (s.inst key).state = .ready → (s'.inst key).state = .ready ∨
    cfg.nodeCanRun (s.inst key).engine = true ∧ (op = .stop ∧ (s.inst key).managed = true ∨
      op = .sleep ∧ (s.inst key).spec.sleepEnabled = true ∧ answered = true)
  joins : (s'.inst key).state = .ready → (s.inst key).state = .ready ∨ op = .wake
  file : s'.file = s'.buildTargets cfg ∨ s'.file = s.file ∧
    (((s'.inst key).state = .ready ↔ (s.inst key).state = .ready) ∨ op = .stop)
  asleep : (s'.inst key).state = .sleeping →
    (s.inst key).state = .sleeping ∧
      (s'.desired = s.desired ∨ cfg.nodeCanRun (s.inst key).engine = false) ∨
    cfg.nodeCanRun (s.inst key).engine = true ∧ s'.desired.get key = some .asleep

section Operations

variable {cfg : SiteSettings} {me : N} {s s' : Site N} {key : String} {op : Op} {answered : Bool}

namespace Served

/-- The state stays as it is. -/
theorem of_state (h : Frame me s s' key) (hstate : (s'.inst key).state = (s.inst key).state)
    (hfile : s'.file = s.file)
    (hrow : s'.desired = s.desired ∨ cfg.nodeCanRun (s.inst key).engine = false) :
    Served cfg me s s' key op answered where
  toFrame := h
  leaves hs := .inl (hstate.trans hs)
  joins hs := .inl (hstate.symm.trans hs)
  file := .inr ⟨hfile, .inl (by rw [hstate])⟩
  asleep hs := .inl ⟨hstate.symm.trans hs, hrow⟩

/-- The instance is as READY as before, and not asleep. -/
theorem of_awake (h : Frame me s s' key) (hfile : s'.file = s.file)
    (hready : (s'.inst key).state = .ready ↔ (s.inst key).state = .ready)
    (hawake : (s'.inst key).state ≠ .sleeping) : Served cfg me s s' key op answered where
  toFrame := h
  leaves hs := .inl (hready.mpr hs)
  joins hs := .inl (hready.mp hs)
  file := .inr ⟨hfile, .inl hready⟩
  asleep hs := absurd hs hawake

/-- A stop to its end. -/
theorem of_stopped (h : Frame me s s' key) (hfile : s'.file = s.file)
    (hrun : cfg.nodeCanRun (s.inst key).engine = true)
    (hmanaged : (s.inst key).state = .ready → (s.inst key).managed = true)
    (hstate : (s'.inst key).state = .stopped) : Served cfg me s s' key .stop answered where
  toFrame := h
  leaves hs := .inr ⟨hrun, .inl ⟨rfl, hmanaged hs⟩⟩
  joins hs := by
    rw [hstate] at hs
    cases hs
  file := .inr ⟨hfile, .inr rfl⟩
  asleep hs := by
    rw [hstate] at hs
    cases hs

theorem defer (desired : Desired) (hrun : cfg.nodeCanRun (s.inst key).engine = false) :
    Served cfg me s (s.defer key desired) key op answered := by
  refine of_state (.defer desired) ?_ rfl (.inr hrun)
  have h : (s.defer key desired).inst key = deferSection (s.inst key) desired :=
    Function.update_self _ _ _
  rw [h]
  rfl

theorem refl : Served cfg me s s key op answered := of_state .refl rfl rfl (.inl rfl)

end Served

omit [DecidableEq N] in
theorem setInst_inst (s : Site N) (key : String) (inst : ModelInstance) :
    (s.setInst key inst).inst key = inst := Function.update_self _ _ _

theorem start_served (reset : Bool) (inp : OpInput) :
    Served cfg me s (s.start cfg me key reset inp) key .start answered := by
  unfold Site.start
  by_cases hrun : cfg.nodeCanRun (s.inst key).engine = false
  · rw [if_pos hrun]
    exact .defer _ hrun
  rw [if_neg hrun]
  split
  case h_2 => exact .refl
  case h_1 spec _ _ =>
    split
    case h_1 => exact .refl
    case h_2 inst hstart =>
      obtain ⟨hsame, hready, hstarting⟩ := SameId.of_startSection hstart
      split_ifs
      · refine .of_awake (((Frame.setInst (hsame.startStore _)).trans (.procs _ _)).trans
          (.persist _)) rfl ?_ ?_
        · simp [Site.persist, setInst_inst, startStoreSection, hready, hstarting]
        · simp [Site.persist, setInst_inst, startStoreSection, hstarting]
      · refine .of_awake (.setInst hsame.startFail) rfl ?_ ?_
        · simp [setInst_inst, startFailSection, hready]
        · simp [setInst_inst, startFailSection]

theorem stop_served : Served cfg me s (s.stop cfg me key) key .stop answered := by
  unfold Site.stop
  by_cases hrun : cfg.nodeCanRun (s.inst key).engine = false
  · rw [if_pos hrun]
    exact .defer _ hrun
  rw [if_neg hrun]
  have hrun' := Bool.eq_true_of_not_eq_false hrun
  obtain ⟨proc, hm, hp, hstop⟩ | ⟨⟨hm, hs⟩, hstop⟩ | ⟨_, hs, hstop⟩ :=
    stopSection_cases (s.inst key) <;> simp only [hstop]
  · have hsame := SameId.set (s.inst key) .stopped .stopped none
    refine .of_stopped (((Frame.setInst hsame).trans (.procs _ _)).trans (.persist _)) rfl hrun'
      (fun _ => hm) ?_
    simp [Site.persist, setInst_inst, stopFinalSection]
  · have hsame := SameId.set (s.inst key) .stopped (s.inst key).state (s.inst key).proc
    refine .of_awake ((Frame.setInst hsame).trans (.persist _)) rfl ?_ ?_
    · simp [Site.persist, setInst_inst]
    · simp [Site.persist, setInst_inst, hs]
  · have hsame := SameId.set (s.inst key) .stopped .stopped none
    refine .of_stopped ((Frame.setInst hsame).trans (.persist _)) rfl hrun' ?_ ?_
    · exact fun hready => Bool.eq_true_of_not_eq_false fun hm => hs ⟨hm, hready⟩
    · simp [Site.persist, setInst_inst]

theorem sleep_served : Served cfg me s (s.sleep cfg me key answered) key .sleep answered := by
  unfold Site.sleep
  by_cases hrun : cfg.nodeCanRun (s.inst key).engine = false
  · rw [if_pos hrun]
    exact .defer _ hrun
  rw [if_neg hrun]
  have hrun' := Bool.eq_true_of_not_eq_false hrun
  by_cases hen : (s.inst key).spec.sleepEnabled = false
  · rw [if_pos hen]
    exact .refl
  rw [if_neg hen]
  split
  case h_1 => exact .refl
  case h_2 inst hsleep =>
    obtain ⟨hs, rfl⟩ := sleepSection_eq_ok hsleep
    by_cases ha : answered = true
    · rw [if_pos ha]
      have hsame := SameId.set (s.inst key) .asleep .sleeping (s.inst key).proc
      exact {
        toFrame := ((Frame.setInst hsame).trans (.persist _)).trans (.writeTargets cfg)
        leaves := fun _ => .inr ⟨hrun', .inr ⟨rfl, Bool.eq_true_of_not_eq_false hen, ha⟩⟩
        joins := fun _ => .inl hs
        file := .inl rfl
        asleep := fun _ => .inr ⟨hrun', Dict.get_set_self⟩ }
    · rw [if_neg ha]
      refine .of_awake (.setInst ⟨rfl, rfl, rfl, rfl, rfl⟩) rfl ?_ ?_
      · simp [setInst_inst, sleepFailed]
      · simp [setInst_inst, sleepFailed, hs]

theorem wake_served : Served cfg me s (s.wake cfg me key answered) key .wake answered := by
  unfold Site.wake
  by_cases hrun : cfg.nodeCanRun (s.inst key).engine = false
  · rw [if_pos hrun]
    exact .defer _ hrun
  rw [if_neg hrun]
  split
  case h_1 => exact .refl
  case h_2 inst hwake =>
    obtain ⟨hs, rfl⟩ := wakeSection_eq_ok hwake
    split_ifs
    · have hsame : SameId (s.inst key) (emitTransition cfg.toSettings
          (wakeDone { s.inst key with desired := .running }) .ready).1 := ⟨rfl, rfl, rfl, rfl, rfl⟩
      refine {
        toFrame := ((Frame.setInst hsame).trans (.persist _)).trans (.writeTargets cfg)
        leaves := fun h => ?_
        joins := fun _ => .inr rfl
        file := .inl rfl
        asleep := fun h => ?_ }
      · rw [hs] at h
        cases h
      · simp [Site.writeTargets, Site.persist, setInst_inst, emitTransition, wakeDone] at h
    · refine .of_state (.setInst ⟨rfl, rfl, rfl, rfl, rfl⟩) ?_ rfl (.inl rfl)
      simp [setInst_inst, wakeFailed]

/-- One operation, whatever the key. -/
theorem run_served (cfg : SiteSettings) (me : N) (s : Site N) (op : Op) (key : String) (reset : Bool)
    (inp : OpInput) :
    Served cfg me s (s.run cfg me op key reset inp) key op inp.answered := by
  unfold Site.run
  by_cases hkey : key ∈ s.keys
  · rw [if_pos hkey]
    cases op with
    | start => exact start_served reset inp
    | stop => exact stop_served
    | sleep => exact sleep_served
    | wake => exact wake_served
  · rw [if_neg hkey]
    exact .refl

end Operations

/-! ## What holds between the steps -/

/-- No unexpired row of this node is wrong, and neither is the file. A sleeping instance is wanted
asleep, so that no pass wakes one. -/
structure Honest (cfg : SiteSettings) (me : N) (s : Site N) : Prop where
  stale : ∀ key row, s.live key = some row → row.nodeId = me → s.clock < row.expiresAt →
    s.Ready key ∧ s.foreign me key = false ∧ row.host = routable cfg (s.inst key) ∧
      row.port = (s.inst key).port
  file : s.file = s.buildTargets cfg
  asleep : ∀ key ∈ s.keys, (s.inst key).state = .sleeping →
    cfg.nodeCanRun (s.inst key).engine = true ∧ s.desired.get key = some .asleep
  unique : s.desired.Unique

/-- During a pass every READY instance of the node has the row that the pass wrote. -/
structure Covered (cfg : SiteSettings) (me : N) (s : Site N) (since : Time)
    (foreign : String → Bool) : Prop where
  inTime : s.clock < since + cfg.liveTtl
  fixed : s.foreign me = foreign
  rows : ∀ key, s.Ready key → foreign key = false →
    ∃ row, s.live key = some row ∧ row.nodeId = me ∧ row.expiresAt = since + cfg.liveTtl

/-- What a pass has in its hands: restarts of its own keys, and rows under which it wakes nobody. -/
def Passing (cfg : SiteSettings) (me : N) (s : Site N) : Prop :=
  match s.phase with
  | .between => True
  | .restarting since foreign due => s.Covered cfg me since foreign ∧ ∀ k ∈ due, foreign k = false
  | .converging since foreign states todo => s.Covered cfg me since foreign ∧
      ∀ p ∈ todo, states p.1 = some .sleeping → p.2 = .asleep

section Views

variable {cfg : SiteSettings} {me : N} {s s' : Site N} {key : String} {op : Op} {answered : Bool}

theorem Honest.published {since : Time} {foreign : String → Bool} (h : s.Honest cfg me)
    (hc : s.Covered cfg me since foreign) : s.Published cfg me where
  rows k host port := by
    constructor
    · rintro ⟨row, hlive, hme, hexp, rfl, rfl⟩
      exact h.stale k row hlive hme hexp
    · rintro ⟨hready, hf, rfl, rfl⟩
      obtain ⟨row, hlive, hme, hexp⟩ := hc.rows k hready (hc.fixed ▸ hf)
      have hunexpired : s.clock < row.expiresAt := hexp ▸ hc.inTime
      obtain ⟨_, _, hhost, hport⟩ := h.stale k row hlive hme hunexpired
      exact ⟨row, hlive, hme, hunexpired, hhost, hport⟩
  file := h.file ▸ s.buildTargets_perm cfg

/-- An operation that has nothing to withdraw keeps the views right. -/
theorem Honest.served (h : s.Honest cfg me) (hs : Served cfg me s s' key op answered)
    (hG : s.Harmless cfg me key answered op) : s'.Honest cfg me where
  stale k row hlive hme hexp := by
    rw [hs.live] at hlive
    rw [hs.clock] at hexp
    obtain ⟨hready, hf, hhost, hport⟩ := h.stale k row hlive hme hexp
    by_cases hk : k = key
    · subst hk
      have hready' : (s'.inst k).state = .ready := by
        refine (hs.leaves hready.2).resolve_right fun ⟨hrun, hop⟩ => ?_
        have hunpublished : s.Unpublished me k := by
          obtain ⟨rfl, hm⟩ | ⟨rfl, hen, ha⟩ := hop
          · exact (hG hready hrun hm).2
          · exact hG hready hrun hen ha
        exact absurd hexp (not_lt.mpr (hunpublished row hlive hme))
      refine ⟨⟨hs.keys ▸ hready.1, hready'⟩, ?_, ?_, ?_⟩
      · exact Bool.eq_false_iff.mpr fun hf' => Bool.eq_false_iff.mp hf (hs.foreign_self hf')
      · rw [hhost, hs.sameId.routable]
      · rw [hport, hs.sameId.port]
    · unfold Ready
      rw [hs.keys, hs.inst_ne k hk, hs.foreign_ne k hk]
      exact ⟨hready, hf, hhost, hport⟩
  file := by
    obtain hfile | ⟨hfile, hready⟩ := hs.file
    · exact hfile
    rw [hfile, h.file]
    refine (buildTargets_congr hs.keys fun k hkeys => ?_).symm
    rw [hs.tag]
    by_cases hk : k = key
    · subst hk
      refine hs.sameId.target cfg s.tag fun hkind => ?_
      obtain hiff | rfl := hready
      · exact hiff
      constructor
      · intro hs'
        refine (hs.joins hs').resolve_right fun hop => ?_
        cases hop
      · intro hr
        refine (hs.leaves hr).resolve_right fun ⟨hrun, hop⟩ => ?_
        obtain ⟨-, hm⟩ | ⟨hop, -⟩ := hop
        · exact (hG ⟨hkeys, hr⟩ hrun hm).1 hkind
        · cases hop
    · rw [hs.inst_ne k hk]
  asleep k hkeys hsleeping := by
    rw [hs.keys] at hkeys
    by_cases hk : k = key
    · subst hk
      rw [hs.sameId.engine]
      obtain ⟨hs₀, hrow⟩ | hrow := hs.asleep hsleeping
      · obtain ⟨hrun, hrow₀⟩ := h.asleep k hkeys hs₀
        obtain hd | hno := hrow
        · exact ⟨hrun, hd ▸ hrow₀⟩
        · rw [hno] at hrun
          cases hrun
      · exact hrow
    · rw [hs.inst_ne k hk] at hsleeping ⊢
      rw [hs.desired_ne k hk]
      exact h.asleep k hkeys hsleeping
  unique := hs.unique h.unique

/-- Within a pass no operation adds a READY instance, and each is on a key of this node. -/
theorem Covered.served {since : Time} {foreign : String → Bool} (h : s.Covered cfg me since foreign)
    (hs : Served cfg me s s' key op answered) (hop : op ≠ .wake) (hf : foreign key = false) :
    s'.Covered cfg me since foreign where
  inTime := hs.clock ▸ h.inTime
  fixed := by
    funext k
    by_cases hk : k = key
    · subst hk
      rw [hf]
      have hf₀ : s.foreign me k = false := by rw [h.fixed, hf]
      exact Bool.eq_false_iff.mpr fun hf' => Bool.eq_false_iff.mp hf₀ (hs.foreign_self hf')
    · rw [hs.foreign_ne k hk, h.fixed]
  rows k hready hfk := by
    rw [hs.live]
    refine h.rows k ⟨hs.keys ▸ hready.1, ?_⟩ hfk
    by_cases hk : k = key
    · subst hk
      exact (hs.joins hready.2).resolve_right hop
    · exact hs.inst_ne k hk ▸ hready.2

/-! ## A pass up to its restarts -/

omit [DecidableEq N] in
/-- What a pass makes of one record: its state changes only by a transition that is captured. -/
theorem emitted_look (s : Site N) (probes : Probes) (key : String) :
    SameId (s.inst key) (emitted cfg (s.look cfg probes key)) ∧
      ((emitted cfg (s.look cfg probes key)).state = (s.inst key).state ∨
        (s.look cfg probes key).2 =
          some ((s.inst key).state, (emitted cfg (s.look cfg probes key)).state) ∧
        (emitted cfg (s.look cfg probes key)).state ≠ .sleeping) := by
  unfold look
  cases hexit : reconcileExit cfg.toSettings s.alive s.clock (s.inst key) with
  | some r =>
    obtain ⟨inst, tr⟩ := r
    obtain ⟨p, _, _, _, ⟨hs, rfl, rfl⟩ | ⟨hs, rfl, t, rfl⟩⟩ := reconcileExit_eq_some hexit
    · refine ⟨⟨rfl, rfl, rfl, rfl, rfl⟩, .inr ⟨?_, ?_⟩⟩
      · rw [hs]
        rfl
      · rintro ⟨⟩
    · refine ⟨⟨rfl, rfl, rfl, rfl, rfl⟩, .inr ⟨rfl, ?_⟩⟩
      rintro ⟨⟩
  | none =>
    dsimp only
    split_ifs
    · obtain ⟨n, t, hp⟩ | ⟨hs, _, hp⟩ | ⟨hs, _, _, n, t, r, hp⟩ := reconcileProbe_cases
        cfg.toSettings (s.inst key) (probes key).1 (probes key).2 s.clock <;> rw [hp]
      · exact ⟨⟨rfl, rfl, rfl, rfl, rfl⟩, .inl rfl⟩
      · refine ⟨⟨rfl, rfl, rfl, rfl, rfl⟩, .inr ⟨?_, ?_⟩⟩
        · rw [hs]
          rfl
        · rintro ⟨⟩
      · refine ⟨⟨rfl, rfl, rfl, rfl, rfl⟩, .inr ⟨?_, ?_⟩⟩
        · rw [hs]
          rfl
        · rintro ⟨⟩
    · exact ⟨.refl _, .inl rfl⟩

omit [DecidableEq N] in
theorem observe_inst {probes : Probes} (hkey : key ∈ s.keys) :
    (s.observe cfg probes).inst key = emitted cfg (s.look cfg probes key) := if_pos hkey

omit [DecidableEq N] in
theorem observe_sameId (cfg : SiteSettings) (probes : Probes) (hkey : key ∈ s.keys) :
    SameId (s.inst key) ((s.observe cfg probes).inst key) := by
  rw [observe_inst hkey]
  exact (emitted_look s probes key).1

omit [DecidableEq N] in
/-- A change of state that a pass makes is among its transitions. -/
theorem observe_state (cfg : SiteSettings) (probes : Probes) (hkey : key ∈ s.keys) :
    ((s.observe cfg probes).inst key).state = (s.inst key).state ∨
      (key, (s.inst key).state, ((s.observe cfg probes).inst key).state) ∈
        s.transitions cfg probes ∧ ((s.observe cfg probes).inst key).state ≠ .sleeping := by
  rw [observe_inst hkey]
  obtain hsame | ⟨htr, hawake⟩ := (emitted_look s probes key).2
  · exact .inl hsame
  · exact .inr ⟨List.mem_filterMap.mpr ⟨key, hkey, by rw [htr]; rfl⟩, hawake⟩

/-- The rows that the writeback leaves. -/
theorem backfill_live {o : Site N} {trs : List (String × Transition)} {row : LiveRow N}
    (h : (o.backfill cfg me trs).live key = some row) :
    (o.Ready key ∧ o.foreign me key = false ∧ row = o.liveRow cfg me key) ∨
    ¬ (o.Ready key ∧ o.foreign me key = false) ∧ o.live key = some row ∧
      ¬ trs.any fun t => t.1 = key ∧ t.2.1 = .ready ∧ t.2.2 ≠ .ready := by
  unfold backfill at h
  dsimp only at h
  by_cases hr : key ∈ o.keys ∧ o.foreign me key = false ∧ (o.inst key).state = .ready
  · rw [if_pos hr] at h
    obtain ⟨h, _⟩ := Option.filter_eq_some_iff.mp h
    exact .inl ⟨⟨hr.1, hr.2.2⟩, hr.2.1, (Option.some.inj h).symm⟩
  · rw [if_neg hr] at h
    split_ifs at h with htr
    exact .inr ⟨fun ⟨hr', hf⟩ => hr ⟨hr'.1, hf, hr'.2⟩, (Option.filter_eq_some_iff.mp h).1, htr⟩

theorem backfill_live_ready {o : Site N} {trs : List (String × Transition)} (hr : o.Ready key)
    (hf : o.foreign me key = false) (httl : 0 < cfg.liveTtl) :
    (o.backfill cfg me trs).live key = some (o.liveRow cfg me key) := by
  unfold backfill
  dsimp only
  rw [if_pos ⟨hr.1, hf, hr.2⟩]
  refine Option.filter_eq_some_iff.mpr ⟨rfl, decide_eq_true ?_⟩
  exact lt_add_of_pos_right _ httl

/-- After the writeback no unexpired row of this node is wrong. -/
theorem Honest.backfill (h : s.Honest cfg me) (probes : Probes) {row : LiveRow N}
    (hlive : ((s.observe cfg probes).backfill cfg me (s.transitions cfg probes)).live key =
      some row)
    (hme : row.nodeId = me) (hexp : s.clock < row.expiresAt) :
    (s.observe cfg probes).Ready key ∧ s.foreign me key = false ∧
      row.host = routable cfg ((s.observe cfg probes).inst key) ∧
      row.port = ((s.observe cfg probes).inst key).port := by
  obtain ⟨hr, hf, rfl⟩ | ⟨hnot, hlive, htrs⟩ := backfill_live hlive
  · exact ⟨hr, hf, rfl, rfl⟩
  obtain ⟨hready, hf, hhost, hport⟩ := h.stale key row hlive hme hexp
  -- The row is older than the pass, so the instance was READY, and left unseen if at all.
  have hstill : ((s.observe cfg probes).inst key).state = .ready := by
    obtain hsame | ⟨hmem, -⟩ := observe_state cfg probes hready.1
    · exact hsame.trans hready.2
    · by_contra hne
      refine htrs (List.any_eq_true.mpr ⟨_, hmem, decide_eq_true ⟨rfl, hready.2, hne⟩⟩)
  exact absurd ⟨⟨hready.1, hstill⟩, hf⟩ hnot

/-- After the refresh the file is right. -/
theorem Honest.refresh (h : s.Honest cfg me) (probes : Probes) {b : Site N}
    (hkeys : b.keys = s.keys) (htag : b.tag = s.tag) (hfile : b.file = s.file)
    (hinst : b.inst = (s.observe cfg probes).inst) :
    (b.refresh cfg (s.transitions cfg probes)).file = b.buildTargets cfg := by
  unfold Site.refresh
  split_ifs with htrs
  · rfl
  rw [hfile, h.file]
  refine (buildTargets_congr hkeys fun k hk => ?_).symm
  rw [htag, hinst]
  refine (observe_sameId cfg probes hk).target cfg s.tag fun hkind => ?_
  obtain hsame | ⟨hmem, -⟩ := observe_state cfg probes hk
  · rw [hsame]
  have hquiet : ¬ ((s.inst k).state = .ready ∨ ((s.observe cfg probes).inst k).state = .ready) := by
    intro hready
    refine htrs (List.any_eq_true.mpr ⟨_, hmem, decide_eq_true ⟨?_, hready⟩⟩)
    rw [hinst, (observe_sameId cfg probes hk).kind]
    exact hkind
  exact ⟨fun hr => absurd (.inr hr) hquiet, fun hr => absurd (.inl hr) hquiet⟩

omit [DecidableEq N] in
theorem refresh_eq (b : Site N) (trs : List (String × Transition)) :
    b.refresh cfg trs = { b with file := (b.refresh cfg trs).file } := by
  unfold Site.refresh
  split_ifs
  · rfl
  · rfl

/-- A restart that is taken changes the bookkeeping of its record only. -/
theorem takeDue_inst (cfg : SiteSettings) (me : N) (b : Site N) (key : String) :
    SameId (b.inst key) ((b.takeDue cfg me).inst key) ∧
      ((b.takeDue cfg me).inst key).state = (b.inst key).state := by
  unfold takeDue
  dsimp only
  split_ifs
  all_goals exact ⟨⟨rfl, rfl, rfl, rfl, rfl⟩, rfl⟩

theorem takeDue_buildTargets (b : Site N) :
    (b.takeDue cfg me).buildTargets cfg = b.buildTargets cfg :=
  buildTargets_congr rfl fun k _ => (takeDue_inst cfg me b k).1.target cfg b.tag fun _ => by
    rw [(takeDue_inst cfg me b k).2]

/-- The restarts that a pass takes are of its own keys. -/
theorem foreign_of_due {k : String} (h : k ∈ if cfg.autoRestart then
    s.keys.filter fun k => restartDue cfg.toSettings (s.foreign me k) s.clock (s.inst k) else []) :
    s.foreign me k = false := by
  split_ifs at h
  · have hdue := (List.mem_filter.mp h).2
    unfold restartDue at hdue
    grind
  · cases h

/-- After the writeback and the refresh both views are right. -/
theorem Honest.written (h : s.Honest cfg me) (probes : Probes) :
    (((s.observe cfg probes).backfill cfg me (s.transitions cfg probes)).refresh cfg
      (s.transitions cfg probes)).Honest cfg me := by
  have hfile := h.refresh probes (b := (s.observe cfg probes).backfill cfg me
    (s.transitions cfg probes)) rfl rfl rfl rfl
  rw [refresh_eq, hfile]
  refine ⟨fun k row hlive hme hexp => h.backfill probes hlive hme hexp, rfl, fun k hk hs => ?_,
    h.unique⟩
  have hkey : k ∈ s.keys := hk
  have hengine := (observe_sameId cfg probes hkey).engine
  obtain hsame | ⟨-, hawake⟩ := observe_state cfg probes hkey
  · obtain ⟨hrun, hrow⟩ := h.asleep k hk (hsame.symm.trans hs)
    exact ⟨by rwa [← hengine] at hrun, hrow⟩
  · exact absurd hs hawake

/-- Taking the restarts that are due changes neither view. -/
theorem Honest.takeDue {b : Site N} (h : b.Honest cfg me) (httl : 0 < cfg.liveTtl)
    (hrows : ∀ k, b.Ready k → b.foreign me k = false → b.live k = some (b.liveRow cfg me k)) :
    (b.takeDue cfg me).Honest cfg me ∧ (b.takeDue cfg me).Passing cfg me := by
  have hsame (k : String) := takeDue_inst cfg me b k
  have hready (k : String) : (b.takeDue cfg me).Ready k ↔ b.Ready k := by
    unfold Ready
    rw [(hsame k).2]
    rfl
  refine ⟨⟨fun k row hlive hme hexp => ?_, ?_, fun k hk hs => ?_, h.unique⟩,
    ⟨lt_add_of_pos_right _ httl, rfl, fun k hr hf => ?_⟩, fun k hk => foreign_of_due hk⟩
  · rw [hready, (hsame k).1.routable, (hsame k).1.port]
    exact h.stale k row hlive hme hexp
  · rw [takeDue_buildTargets]
    exact h.file
  · rw [(hsame k).1.engine]
    exact h.asleep k hk ((hsame k).2.symm.trans hs)
  · exact ⟨_, hrows k ((hready k).mp hr) hf, rfl, rfl⟩

/-- A pass up to its restarts makes both views right, and writes every row that is due. -/
theorem Honest.reconcile (h : s.Honest cfg me) (httl : 0 < cfg.liveTtl) (probes : Probes) :
    (s.reconcile cfg me probes).Honest cfg me ∧ (s.reconcile cfg me probes).Passing cfg me := by
  refine (h.written probes).takeDue httl fun k hr hf => ?_
  rw [refresh_eq] at hr hf ⊢
  exact backfill_live_ready hr hf httl

/-! ## The steps -/

omit [DecidableEq N] in
theorem action_eq_some {foreign : String → Bool} {states : String → Option ModelState}
    {want : Desired} (h : action foreign states key want = some op) :
    foreign key = false ∧
      ∃ state, states key = some state ∧ convergeAction want state = some op := by
  unfold action at h
  split_ifs at h with hf
  exact ⟨Bool.eq_false_iff.mpr hf, Option.bind_eq_some_iff.mp h⟩

/-- Only a sleeping instance that is wanted is woken. -/
theorem wakes_iff {want : Desired} {state : ModelState} :
    convergeAction want state = some .wake ↔ want = .running ∧ state = .sleeping := by
  cases want <;> cases state <;> simp [convergeAction]

theorem Honest.goto (h : s.Honest cfg me) (phase : Phase) :
    Honest cfg me { s with phase := phase } := ⟨h.stale, h.file, h.asleep, h.unique⟩

theorem Covered.goto {since : Time} {foreign : String → Bool} (h : s.Covered cfg me since foreign)
    (phase : Phase) : Covered cfg me { s with phase := phase } since foreign :=
  ⟨h.inTime, h.fixed, h.rows⟩

/-- The rows that a pass converges to let nobody be woken. -/
theorem Honest.states (h : s.Honest cfg me) {p : String × Desired} (hp : p ∈ s.desired)
    (hs : s.states p.1 = some .sleeping) : p.2 = .asleep := by
  unfold Site.states at hs
  split_ifs at hs with hkey
  have hrow := (h.asleep p.1 hkey (Option.some.inj hs)).2
  rw [Dict.get_of_mem h.unique hp] at hrow
  exact Option.some.inj hrow

/-- What a pass has in its hands stays right as long as its rows do. -/
theorem Passing.of_covered (hp : s.Passing cfg me) (hphase : s'.phase = s.phase)
    (hc : ∀ since foreign, s.phase.since = some since → s.Covered cfg me since foreign →
      s'.Covered cfg me since foreign) : s'.Passing cfg me := by
  unfold Passing at *
  rw [hphase]
  cases h : s.phase with
  | between => trivial
  | restarting since foreign due =>
    simp only [h] at hp hc ⊢
    exact ⟨hc since foreign rfl hp.1, hp.2⟩
  | converging since foreign states todo =>
    simp only [h] at hp hc ⊢
    exact ⟨hc since foreign rfl hp.1, hp.2⟩

/-- The rest of a pass. -/
theorem Honest.next {inp : OpInput} (h : s.Honest cfg me) (hp : s.Passing cfg me)
    (hG : Withdrawn cfg me s (.next inp)) (he : s.next cfg me inp = some s') :
    s'.Honest cfg me ∧ s'.Passing cfg me := by
  unfold Site.next at he
  unfold Passing at hp
  unfold Withdrawn pending at hG
  split at he
  case h_1 => cases he
  case h_2 since foreign key due hphase =>
    cases he
    rw [hphase] at hp
    have hserved := run_served cfg me { s with phase := .restarting since foreign due } .start
      key false inp
    refine ⟨(h.goto _).served hserved trivial, ?_⟩
    unfold Passing
    rw [hserved.phase]
    exact ⟨(hp.1.goto _).served hserved (by decide) (hp.2 key List.mem_cons_self),
      fun k hk => hp.2 k (List.mem_cons_of_mem _ hk)⟩
  case h_3 since foreign hphase =>
    cases he
    rw [hphase] at hp
    exact ⟨h.goto _, hp.1.goto _, fun p hmem hs => h.states hmem hs⟩
  case h_4 since foreign states key want todo hphase =>
    rw [hphase] at hp hG
    have htodo : ∀ p ∈ todo, states p.1 = some .sleeping → p.2 = .asleep := fun p hmem =>
      hp.2 p (List.mem_cons_of_mem _ hmem)
    cases haction : action foreign states key want with
    | none =>
      simp only [haction, Option.some.injEq] at he
      subst he
      exact ⟨h.goto _, hp.1.goto _, htodo⟩
    | some op =>
      simp only [haction, Option.some.injEq] at he
      subst he
      obtain ⟨hf, state, hstate, hconverge⟩ := action_eq_some haction
      have hop : op ≠ .wake := by
        rintro rfl
        obtain ⟨rfl, rfl⟩ := wakes_iff.mp hconverge
        cases hp.2 (key, .running) List.mem_cons_self hstate
      have hserved := run_served cfg me { s with phase := .converging since foreign states todo } op
        key true inp
      refine ⟨(h.goto _).served hserved (hG key op (by simp only [haction, Option.map_some])), ?_⟩
      unfold Passing
      rw [hserved.phase]
      exact ⟨(hp.1.goto _).served hserved hop hf, htodo⟩
  case h_5 =>
    cases he
    exact ⟨h.goto _, trivial⟩

/-- The last step of a pass. -/
theorem next_between {inp : OpInput} (he : s.next cfg me inp = some s') (hb : s'.phase = .between) :
    ∃ since foreign states, s.phase = .converging since foreign states [] ∧
      s' = { s with phase := .between } := by
  unfold Site.next at he
  split at he
  case h_1 => cases he
  case h_2 =>
    cases he
    rw [(run_served ..).phase] at hb
    cases hb
  case h_3 =>
    cases he
    cases hb
  case h_4 since foreign states key want todo _ =>
    cases haction : action foreign states key want <;>
      simp only [haction, Option.some.injEq] at he <;> subst he
    · cases hb
    · rw [(run_served ..).phase] at hb
      cases hb
  case h_5 since foreign states hphase =>
    cases he
    exact ⟨since, foreign, states, hphase, rfl⟩

end Views

end Site

open Site

variable [DecidableEq N] {cfg : SiteSettings} {me : N} {s₀ s s' : Site N}

/-- **One step** keeps what the node publishes right, if it has nothing to withdraw. -/
theorem publish_step {e : SiteEvent} (h : s.Honest cfg me ∧ s.Passing cfg me)
    (hG : Withdrawn cfg me s e) (he : siteStep cfg me s e = some s') :
    s'.Honest cfg me ∧ s'.Passing cfg me := by
  obtain ⟨hs, hp⟩ := h
  cases e with
  | call op key inp =>
    unfold siteStep at he
    cases hphase : s.phase <;> simp only [hphase] at he <;> cases he
    have hserved := run_served cfg me s op key true inp
    refine ⟨hs.served hserved hG, ?_⟩
    unfold Passing
    rw [hserved.phase, hphase]
    trivial
  | exit proc =>
    dsimp only [siteStep] at he
    split_ifs at he
    cases he
    exact ⟨⟨hs.stale, hs.file, hs.asleep, hs.unique⟩,
      hp.of_covered rfl fun _ _ _ hc => ⟨hc.inTime, hc.fixed, hc.rows⟩⟩
  | clock now =>
    dsimp only [siteStep] at he
    split_ifs at he with hnow
    cases he
    exact ⟨⟨fun k row hlive hme hexp => hs.stale k row hlive hme (lt_of_le_of_lt hnow hexp),
        hs.file, hs.asleep, hs.unique⟩,
      hp.of_covered rfl fun since _ hsince hc => ⟨hG since hsince, hc.fixed, hc.rows⟩⟩
  | reconcile probes =>
    unfold siteStep at he
    cases hphase : s.phase <;> simp only [hphase] at he <;> cases he
    exact hs.reconcile hG probes
  | next inp => exact hs.next hp hG he

/-- **Publication follows readiness** in every run in which no stop and no sleep takes a published
instance out of the ready pool: whenever a pass ends, both views are right. -/
theorem published_of_reach (h₀ : Boots cfg me s₀)
    (h : Reach (siteStep cfg me) (Withdrawn cfg me) s₀ s) {inp : OpInput}
    (hend : siteStep cfg me s (.next inp) = some s') (hb : s'.phase = .between) :
    s'.Published cfg me := by
  have hinit : s₀.Honest cfg me ∧ s₀.Passing cfg me := by
    refine ⟨⟨fun k row hlive hme => absurd hme (h₀.rows k row hlive), h₀.file,
      fun k hk hs => absurd hs (h₀.awake k hk), h₀.unique⟩, ?_⟩
    unfold Passing
    rw [h₀.between]
    trivial
  have hs : s.Honest cfg me ∧ s.Passing cfg me :=
    h.invariant (I := fun s => s.Honest cfg me ∧ s.Passing cfg me) hinit publish_step
  obtain ⟨since, foreign, states, hphase, rfl⟩ := next_between hend hb
  have hp := hs.2
  unfold Passing at hp
  rw [hphase] at hp
  exact (hs.1.goto _).published (hp.1.goto _)

/-! ## A stopped instance that is still listed -/

/-- A node with one stopped LLM instance. -/
def newSite : Site Unit where
  keys := ["chat::a"]
  inst _ := .ofSpec
    { key := "chat::a", kind := .llm, command := [], env := [], logPath := "", host := "localhost"
      port := 8001, probeUrl := "" }

/-- The spec that `build_spec` makes for it. -/
def chatSpec : LaunchSpec := (newSite.inst "chat::a").spec

/-- A pass with one desired row, without its last step; every probe answers. -/
def onePass : List SiteEvent := [.reconcile fun _ => (true, none), .next {}, .next {}]

/-- The instance is started and becomes READY. -/
def startThenPass : List SiteEvent := .call .start "chat::a" { spec := some chatSpec } :: onePass

/-- A started instance is in both views once the pass is over. -/
theorem published_started : ∃ s,
    run (siteStep {} ()) newSite (startThenPass ++ [.next {}]) = some s ∧
    (s.inst "chat::a").state = .ready ∧ (s.live "chat::a").isSome ∧ s.file.length = 1 ∧
      Published {} () s := by
  have hany : (run (siteStep {} ()) newSite startThenPass).any (fun s =>
      (s.next {} () {}).any fun s' => decide (s'.phase.since = none ∧
        (s'.inst "chat::a").state = .ready ∧ (s'.live "chat::a").isSome ∧ s'.file.length = 1)) =
      true := by decide +kernel
  obtain ⟨s, hrun, hlast⟩ := (Option.any_eq_true _ _).mp hany
  obtain ⟨s', hend, hs'⟩ := (Option.any_eq_true _ _).mp hlast
  obtain ⟨hsince, hready, hlive, hfile⟩ := of_decide_eq_true hs'
  have hguard : Along (siteStep {} ()) (Withdrawn {} ()) newSite startThenPass := by
    refine ⟨trivial, fun s₁ h₁ => ⟨by norm_num [Withdrawn], fun s₂ h₂ => ?_⟩⟩
    cases h₁
    cases h₂
    refine ⟨fun key op hop => ?_, fun s₃ h₃ => ⟨fun key op hop => ?_, fun _ _ => trivial⟩⟩
    · cases hop
    · cases h₃
      cases hop
  have hboots : Boots {} () newSite :=
    ⟨rfl, fun _ _ h => absurd h (Option.some_ne_none _).symm, rfl,
      fun _ _ h => (by cases h), by decide⟩
  refine ⟨s', ?_, hready, hlive, hfile, published_of_reach hboots
    (Reach.of_guarded_run hrun hguard) hend ?_⟩
  · rw [run_append, hrun]
    exact Option.bind_eq_some_iff.mpr ⟨s, rfl, Option.bind_eq_some_iff.mpr ⟨s', hend, rfl⟩⟩
  · cases h : s'.phase <;> simp_all [Phase.since]

/-- **A stopped instance stays listed.** It was stopped, the next pass is over, and its row has not
expired and its entry is in the file. -/
theorem still_listed : ∃ s, run (siteStep {} ()) newSite
      (startThenPass ++ .next {} :: .call .stop "chat::a" {} :: onePass ++ [.next {}]) = some s ∧
    (s.inst "chat::a").state = .stopped ∧ s.file ≠ [] ∧ ¬ Published {} () s := by
  have hany : (run (siteStep {} ()) newSite
      (startThenPass ++ .next {} :: .call .stop "chat::a" {} :: onePass ++ [.next {}])).any
      (fun s => (s.inst "chat::a").state = .stopped ∧ s.file.length = 1 ∧
        (s.live "chat::a").any fun row => decide (s.clock < row.expiresAt)) = true := by
    decide +kernel
  obtain ⟨s, hrun, hs⟩ := (Option.any_eq_true _ _).mp hany
  obtain ⟨hstate, hfile, hlive⟩ := of_decide_eq_true hs
  obtain ⟨row, hrow, hexp⟩ := (Option.any_eq_true _ _).mp hlive
  refine ⟨s, hrun, hstate, List.ne_nil_of_length_pos (by omega), fun hp => ?_⟩
  have hready := ((hp.rows "chat::a" row.host row.port).mp
    ⟨row, hrow, rfl, of_decide_eq_true hexp, rfl, rfl⟩).1.2
  rw [hstate] at hready
  cases hready

end Llmops.Node
