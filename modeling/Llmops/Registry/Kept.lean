import Llmops.Registry.Host
import Llmops.Node.Pass
import Llmops.Node.Ownership

/-!
# A live instance and the edits of its definition

A record is live while its state is STARTING, READY, SLEEPING or STOPPING, or while it names a
managed process that runs. `Kept` says that a live record is in the registry, with the spec, host,
port and engine of its launch. The edits do not ensure it: their checks, where they have one, and
their changes stand on different sides of an await, a start goes on with the spec and the record it
took up before, and `sync_overlay_from_store` changes whatever is there.

* `kept_of_apart`: it holds in every run in which edits and operations keep apart (`Apart`);
* `live_respecified`: a sync pass moves a READY instance to another port.
-/

namespace Llmops.Registry

open Llmops.Lib Node

variable {N : Type*}

/-! ## The property -/

/-- STARTING, READY, SLEEPING or STOPPING, or a live managed process. -/
def Live (h : Host N) (r : Nat) : Prop :=
  isDown (h.heap r) = false ∨ (h.heap r).managed = true ∧
    ∃ p, (h.heap r).proc = some p ∧ h.world.alive p = true

/-- The record is where the process of the spec listens. -/
def Agrees (inst : ModelInstance) (spec : LaunchSpec) : Prop :=
  inst.host = spec.host ∧ inst.port = spec.port ∧ inst.engine = spec.engine

/-- The record is as it was launched. -/
def AsLaunched (h : Host N) (r : Nat) : Prop :=
  ∃ spec, h.launched r = some spec ∧ (h.heap r).spec = spec ∧ Agrees (h.heap r) spec

/-- Live records are registered, as they were launched. -/
def Kept (h : Host N) : Prop := ∀ r, Live h r → h.cur = some r ∧ AsLaunched h r

/-! ## The condition -/

/-- A record that is down and names no process. -/
def Down (inst : ModelInstance) : Prop := isDown inst = true ∧ inst.proc = none

/-- An operation between the section that admits it and the one that shows its result: a start
that has not stored its process, a sleep or a wake whose call is under way. -/
def rising : Pc N → Bool
  | .startSpawn _ _ | .startStore _ _ | .sleepPost _ | .wakePost _ => true
  | _ => false

/-- No operation is about to bring a record up. -/
def Quiet (h : Host N) : Prop := ∀ i, rising (h.world.pc i) = false

/-- `stop` brings it down: it is not an adopted instance. -/
def Killable (inst : ModelInstance) : Prop :=
  ¬ (inst.managed = false ∧ (inst.state = .ready ∨ inst.state = .starting))

/-- An edit between its check and its change of the registry. -/
def EditPc.window : EditPc → Bool
  | .deleteLock | .updateLock _ _ | .createLock _ | .importStopping _ | .importSave _
  | .importLock _ => true
  | _ => false

/-- A forced import that stops the instance. -/
def EditPc.stopping : EditPc → Bool
  | .importStopping _ => true
  | _ => false

/-- Edits and operations of the key keep apart.

* A start is admitted only on a record that is still registered and listens where the spec it
  resolved says, while no edit is between its check and its change.
* No sleep or wake is admitted while a forced import stops the instance.
* A delete or update of a down instance, and an import that affects the instance, are accepted
  only when no start, sleep or wake is under way and a down instance names no process; and a
  forced import stops an instance only if the node can stop it.
* A sync pass finds the definition unchanged, or the instance down with nothing under way. -/
def Apart (cfg : Settings) (h : Host N) : HostEvent N → Prop
  | .node (.run i inp) => match h.world.pc i with
    | .startPreflight _ spec =>
      inp.ok = true → (h.heap (h.held i)).state ≠ .starting → (h.heap (h.held i)).state ≠ .ready →
        h.cur = some (h.held i) ∧ Agrees (h.heap (h.held i)) spec ∧
          ∀ j, (h.edit j).window = false
    | .sleepLock _ => (h.heap (h.held i)).state = .ready → ∀ j, (h.edit j).stopping = false
    | .wakeLock _ => (h.heap (h.held i)).state = .sleeping → ∀ j, (h.edit j).stopping = false
    | _ => True
  | .delete _ _ _ | .update _ _ _ =>
    ∀ r, h.cur = some r → isDown (h.heap r) = true → Quiet h ∧ (h.heap r).proc = none
  | .importOverlay _ force _ new =>
    ∀ r, h.cur = some r → affected (h.heap r) new = true →
      (isDown (h.heap r) = true → Quiet h ∧ (h.heap r).proc = none) ∧
      (isDown (h.heap r) = false → force = true →
        Quiet h ∧ Killable (h.heap r) ∧ cfg.nodeCanRun (h.heap r).engine = true)
  | .edit i _ _ => match h.edit i with
    | .syncLock new => ∀ r, h.cur = some r → affected (h.heap r) new = true →
        Down (h.heap r) ∧ Quiet h
    | _ => True
  | _ => True

/-! ## What one step of a coroutine does to its record -/

/-- Spec, host, port and engine stay. -/
def SameSpec (inst inst' : ModelInstance) : Prop :=
  inst'.spec = inst.spec ∧ inst'.host = inst.host ∧ inst'.port = inst.port ∧
    inst'.engine = inst.engine

/-- A step of coroutine `i` on its record: it admits a start, or a sleep or wake; it goes on with
one that was admitted; or it brings nothing up. -/
inductive RecordStep (w : World N) (i : Nat) (inp : Input) (w' : World N) : Prop
  | quiet (same : SameSpec w.inst w'.inst) (down : Down w.inst → Down w'.inst)
      (kill : Killable w.inst → Killable w'.inst) (hpc' : rising (w'.pc i) = false)
  | admission (c : Caller) (spec : LaunchSpec) (gpu : Option String)
      (hpc : w.pc i = .startPreflight c spec) (hok : inp.ok = true)
      (hs : w.inst.state ≠ .starting) (hr : w.inst.state ≠ .ready)
      (hpc' : w'.pc i = .startSpawn c (spec.autoPlace gpu))
      (hspec : w'.inst.spec = spec.autoPlace gpu) (hhost : w'.inst.host = w.inst.host)
      (hport : w'.inst.port = w.inst.port) (hengine : w'.inst.engine = w.inst.engine)
  | post (c : Caller)
      (hpc : w.pc i = .sleepLock c ∧ w.inst.state = .ready ∨
        w.pc i = .wakeLock c ∧ w.inst.state = .sleeping)
      (same : SameSpec w.inst w'.inst) (hpc' : ∀ c spec, w'.pc i ≠ .startSpawn c spec)
  | risen (hpc : rising (w.pc i) = true) (same : SameSpec w.inst w'.inst)
      (hpc' : ∀ c spec, w'.pc i ≠ .startSpawn c spec)

variable {cfg : Settings} {me : N} {w w' v : World N} {i : Nat} {inp : Input}

theorem killable_of_down {inst : ModelInstance}
    (h : inst.state = .stopped ∨ inst.state = .stopping ∨ inst.state = .failed) :
    Killable inst := by
  rintro ⟨-, hr | hr⟩ <;> obtain h | h | h := h <;> cases h.symm.trans hr

theorem SameSpec.refl (inst : ModelInstance) : SameSpec inst inst := ⟨rfl, rfl, rfl, rfl⟩

/-- A step that does not touch the record. -/
theorem RecordStep.goto {pc : Pc N} (hv : v.inst = w.inst) (hpc : rising pc = false) :
    RecordStep w i inp (v.goto i pc) := by
  refine .quiet ?_ ?_ ?_ ?_
  · exact hv ▸ SameSpec.refl v.inst
  · exact hv ▸ id
  · exact hv ▸ id
  · rw [World.goto_pc, if_pos rfl]
    exact hpc

theorem rising_resume (c : Caller) : rising (c.resume : Pc N) = false := by cases c <;> rfl

theorem rising_inPass {pc : Pc N} (hpc : pc.InPass) : rising pc = false := by
  cases pc <;> first | rfl | exact hpc.elim

theorem passNext_rising {pc : Pc N} (h : PassNext cfg w i pc) : rising pc = false := by
  cases h with
  | pass hpc => exact rising_inPass hpc
  | restart foreign now hdue => rfl
  | converge want op hpc hreg hact => rfl

/-- A pass changes the state of a record that is STARTING, or that it takes down. -/
theorem passChange_calm {inst : ModelInstance} {handed : Pid → Bool}
    (h : PassChange cfg w inp inst handed) :
    SameSpec w.inst inst ∧ (Down w.inst → Down inst) ∧ (Killable w.inst → Killable inst) := by
  cases h with
  | minor n t f => exact ⟨.refl _, id, id⟩
  | ready hs hok =>
    refine ⟨⟨rfl, rfl, rfl, rfl⟩, fun hd => ?_, fun hk hm => hk ⟨hm.1, .inr hs⟩⟩
    exact absurd hd.1 (by simp [isDown, hs])
  | timeout n t r hs hok ht =>
    exact ⟨⟨rfl, rfl, rfl, rfl⟩, fun _ => ⟨rfl, rfl⟩, fun _ => killable_of_down (.inr (.inr rfl))⟩
  | stopped p hm hp hdead hs =>
    exact ⟨⟨rfl, rfl, rfl, rfl⟩, fun _ => ⟨rfl, rfl⟩, fun _ => killable_of_down (.inl rfl)⟩
  | crashed p t hm hp hdead hs =>
    exact ⟨⟨rfl, rfl, rfl, rfl⟩, fun _ => ⟨rfl, rfl⟩, fun _ => killable_of_down (.inr (.inr rfl))⟩
  | restart foreign now hdue => exact ⟨⟨rfl, rfl, rfl, rfl⟩, id, id⟩

/-- A section of an operation that takes no record from down to up. -/
theorem RecordStep.section {pc : Pc N} (hsame : SameSpec w.inst v.inst)
    (hdown : Down w.inst → Down v.inst) (hkill : Killable w.inst → Killable v.inst)
    (hpc : rising pc = false) : RecordStep w i inp (v.goto i pc) :=
  .quiet hsame hdown hkill (by rw [World.goto_pc, if_pos rfl]; exact hpc)

/-- What an admitted operation does next. -/
theorem RecordStep.rise {pc : Pc N} (hpc : rising (w.pc i) = true) (hsame : SameSpec w.inst v.inst)
    (hto : ∀ c spec, pc ≠ .startSpawn c spec) : RecordStep w i inp (v.goto i pc) :=
  .risen hpc hsame (by rw [World.goto_pc, if_pos rfl]; exact hto)

theorem recordStep_calm (cfg : Settings) (w : World N) (target : ModelState) :
    SameSpec w.inst (recordStep cfg w target).inst ∧
      (Down w.inst → Down (recordStep cfg w target).inst) ∧
      (Killable w.inst → Killable (recordStep cfg w target).inst) := by
  unfold recordStep emitTransition
  by_cases ht : target = .ready
  · simp only [if_pos ht]
    exact ⟨⟨rfl, rfl, rfl, rfl⟩, id, id⟩
  · simp only [if_neg ht]
    exact ⟨.refl _, id, id⟩

theorem enter_rising (c : Caller) (op : Op) :
    rising (w.enter cfg c op inp) = false := by
  obtain h | ⟨h, -⟩ | ⟨-, spec, -, h⟩ | ⟨-, h⟩ | ⟨-, h⟩ | ⟨-, h⟩ := w.enter_cases cfg c op inp
  · rw [h, rising_resume]
  all_goals rw [h]; rfl

/-- **Steps of a coroutine on its record.** -/
theorem resume_record [DecidableEq N] (h : resume cfg me w i inp (w.pc i) = some w') :
    RecordStep w i inp w' := by
  have stay : ∀ {pc : Pc N}, rising pc = false → RecordStep w i inp (w.goto i pc) := .goto rfl
  generalize hpc : w.pc i = pc at h
  have hrising : rising (w.pc i) = rising pc := congrArg rising hpc
  by_cases hpass : pc.InPass
  · subst hpc
    have hstep := resume_pass hpass h
    obtain ⟨hsame, hdown, hkill⟩ := passChange_calm hstep.change
    exact .quiet hsame hdown hkill (passNext_rising hstep.next)
  cases pc <;> try exact absurd trivial hpass
  case call c op =>
    cases h
    exact stay (enter_rising c op)
  case startPreflight c spec =>
    simp only [resume] at h
    split_ifs at h with hok
    · split at h
      · obtain ⟨-, rfl⟩ := World.locked_eq_some.mp h
        exact stay (rising_resume c)
      · rename_i inst hsec
        obtain ⟨-, rfl⟩ := World.locked_eq_some.mp h
        obtain ⟨hs, hr, rfl⟩ := startSection_eq_ok hsec
        exact .admission c spec inp.gpu hpc hok hs hr (by rw [World.goto_pc, if_pos rfl]) rfl rfl rfl
          rfl
    · cases h
      exact stay (rising_resume c)
  case startSpawn c spec =>
    simp only [resume] at h
    split_ifs at h
    · cases h
      exact .rise hrising (.refl _) (by rintro _ _ ⟨⟩)
    · cases h
      exact stay rfl
  case startStore c proc =>
    obtain ⟨-, rfl⟩ := World.locked_eq_some.mp h
    exact .rise hrising ⟨rfl, rfl, rfl, rfl⟩ (by rintro _ _ ⟨⟩)
  case startFail c =>
    obtain ⟨-, rfl⟩ := World.locked_eq_some.mp h
    exact .section ⟨rfl, rfl, rfl, rfl⟩ (fun hd => ⟨rfl, hd.2⟩)
      (fun _ => killable_of_down (.inr (.inr rfl))) rfl
  case startFailRecord c =>
    cases h
    obtain ⟨hsame, hdown, hkill⟩ := recordStep_calm cfg w .failed
    exact .section hsame hdown hkill (rising_resume c)
  case stopLock c =>
    obtain ⟨p, hm, hp, hsec⟩ | ⟨-, hsec⟩ | ⟨-, -, hsec⟩ := stopSection_cases w.inst
    all_goals
      simp only [resume, hsec] at h
      obtain ⟨-, rfl⟩ := World.locked_eq_some.mp h
    · exact .section ⟨rfl, rfl, rfl, rfl⟩ (fun hd => absurd (hd.2.symm.trans hp) (by rintro ⟨⟩))
        (fun _ => killable_of_down (.inr (.inl rfl))) rfl
    · exact .section ⟨rfl, rfl, rfl, rfl⟩ id id rfl
    · exact .section ⟨rfl, rfl, rfl, rfl⟩ (fun _ => ⟨rfl, rfl⟩)
        (fun _ => killable_of_down (.inl rfl)) rfl
  case stopHeld c =>
    cases h
    exact .goto (World.setRow_inst ..) (rising_resume c)
  case stopDrain c proc =>
    cases h
    exact .goto (World.hand_inst ..) rfl
  case stopReap c proc =>
    simp only [resume] at h
    split_ifs at h
    obtain ⟨-, rfl⟩ := World.locked_eq_some.mp h
    exact .section ⟨rfl, rfl, rfl, rfl⟩ (fun _ => ⟨rfl, rfl⟩)
      (fun _ => killable_of_down (.inl rfl)) rfl
  case sleepLock c =>
    simp only [resume] at h
    split at h
    all_goals
      rename_i hsec
      obtain ⟨-, rfl⟩ := World.locked_eq_some.mp h
    · exact stay (rising_resume c)
    · obtain ⟨hs, rfl⟩ := sleepSection_eq_ok hsec
      refine .post c (.inl ⟨hpc, hs⟩) ⟨rfl, rfl, rfl, rfl⟩ ?_
      rw [World.goto_pc, if_pos rfl]
      rintro _ _ ⟨⟩
  case sleepPost c | wakePost c =>
    simp only [resume] at h
    split_ifs at h
    all_goals obtain ⟨-, rfl⟩ := World.locked_eq_some.mp h
    · exact .rise hrising ⟨rfl, rfl, rfl, rfl⟩ (by rintro _ _ ⟨⟩)
    · exact .section ⟨rfl, rfl, rfl, rfl⟩ id id (rising_resume c)
  case wakeLock c =>
    simp only [resume] at h
    split at h
    all_goals
      rename_i hsec
      obtain ⟨-, rfl⟩ := World.locked_eq_some.mp h
    · exact stay (rising_resume c)
    · obtain ⟨hs, rfl⟩ := wakeSection_eq_ok hsec
      refine .post c (.inr ⟨hpc, hs⟩) ⟨rfl, rfl, rfl, rfl⟩ ?_
      rw [World.goto_pc, if_pos rfl]
      rintro _ _ ⟨⟩
  case wakeRecord c =>
    cases h
    obtain ⟨hsame, hdown, hkill⟩ := recordStep_calm cfg w .ready
    exact .section hsame hdown hkill rfl
  case persistRow c desired | deferRow c desired =>
    cases h
    refine .goto (World.setRow_inst ..) ?_
    split_ifs
    · exact rising_resume c
    · rfl
  case persistAssign c | deferAssign c =>
    cases h
    exact .goto (World.setAssignment_inst ..) (rising_resume c)
  case deferLock c desired =>
    obtain ⟨-, rfl⟩ := World.locked_eq_some.mp h
    exact .section ⟨rfl, rfl, rfl, rfl⟩ id id rfl
  case replayDesired =>
    cases h
    refine stay ?_
    cases inp.ok <;> cases w.store.desired <;> rfl
  case replayAssignments want =>
    cases h
    refine stay ?_
    split_ifs <;> rfl
  case replayNodes want owner =>
    cases h
    exact stay rfl
  case replayStart want foreign =>
    cases h
    refine stay ?_
    split_ifs
    · exact enter_rising .user .start
    · rfl

/-! ## The invariant -/

/-- Where a stop is that still has to bring its record down; `own` says that it has it. -/
def StopAt (cfg : Settings) (inst : ModelInstance) (own : Prop) : Pc N → Prop
  | .call _ .stop => cfg.nodeCanRun inst.engine = true ∧ Killable inst
  | .stopLock _ => own ∧ Killable inst
  | .stopDrain _ _ | .stopReap _ _ => own
  | _ => False

theorem StopAt.mono {inst inst' : ModelInstance} {own : Prop} {pc : Pc N}
    (h : StopAt cfg inst own pc) (hengine : inst'.engine = inst.engine)
    (hkill : Killable inst → Killable inst') : StopAt cfg inst' own pc := by
  revert h
  unfold StopAt
  split <;> intro h
  · exact ⟨hengine ▸ h.1, hkill h.2⟩
  · exact ⟨h.1, hkill h.2⟩
  · exact h
  · exact h
  · exact h

/-- The stop that an import makes of record `r`. -/
def StopUnderway (cfg : Settings) (h : Host N) (j r : Nat) : Prop :=
  StopAt cfg (h.heap r) (h.held j = r) (h.world.pc j)

/-- What an edit can count on at its await. -/
def EditOk (cfg : Settings) (h : Host N) (j : Nat) : EditPc → Prop
  | .deleteLock | .updateLock _ _ | .createLock _ =>
    ∀ r, h.cur = some r → Down (h.heap r) ∧ Quiet h
  | .importStopping _ =>
    Quiet h ∧ ∀ r, h.cur = some r → Down (h.heap r) ∨ StopUnderway cfg h j r
  | .importSave new | .importLock new =>
    ∀ r, h.cur = some r → affected (h.heap r) new = false ∨ Down (h.heap r) ∧ Quiet h
  | _ => True

/-- Whatever is up, or about to come up, is registered and as it was launched. -/
structure Inv (cfg : Settings) (h : Host N) : Prop where
  up : ∀ r, ¬ Down (h.heap r) → h.cur = some r ∧ AsLaunched h r
  arriving : ∀ i, rising (h.world.pc i) = true → h.cur = some (h.held i) ∧ AsLaunched h (h.held i)
  edits : ∀ j, EditOk cfg h j (h.edit j)

variable {h h' : Host N}

theorem Inv.kept (inv : Inv cfg h) : Kept h := by
  refine fun r hlive => inv.up r fun hd => ?_
  rcases hlive with hs | ⟨-, p, hp, -⟩
  · exact absurd (hd.1.symm.trans hs) (by rintro ⟨⟩)
  · exact absurd (hd.2.symm.trans hp) (by rintro ⟨⟩)

/-- Nothing is up and nothing comes up: every edit may go on. -/
theorem Inv.of_allDown (hdown : ∀ r, Down (h.heap r)) (hquiet : Quiet h) : Inv cfg h where
  up r hr := absurd (hdown r) hr
  arriving i hi := absurd ((hquiet i).symm.trans hi) (by rintro ⟨⟩)
  edits j := by
    cases h.edit j with
    | deleteLock | updateLock r spec | createLock spec => exact fun r _ => ⟨hdown r, hquiet⟩
    | importStopping new => exact ⟨hquiet, fun r _ => .inl (hdown r)⟩
    | importSave new | importLock new => exact fun r _ => .inr ⟨hdown r, hquiet⟩
    | idle | deleteRow | deleteAssign | syncHydrate | syncLock new => trivial

/-- If the registered record is down with nothing under way, everything is. -/
theorem Inv.allDown (inv : Inv cfg h) (hcur : ∀ r, h.cur = some r → Down (h.heap r) ∧ Quiet h) :
    (∀ r, Down (h.heap r)) ∧ Quiet h := by
  refine ⟨fun r => ?_, fun i => ?_⟩
  · by_contra hr
    exact hr (hcur r (inv.up r hr).1).1
  · by_contra hi
    have hi := Bool.eq_true_of_not_eq_false hi
    exact absurd ((hcur _ (inv.arriving i hi).1).2 i |>.symm.trans hi) (by rintro ⟨⟩)

theorem AsLaunched.same {r : Nat} (hr : AsLaunched h r) (hl : h'.launched r = h.launched r)
    (hs : SameSpec (h.heap r) (h'.heap r)) : AsLaunched h' r := by
  obtain ⟨spec, hspec, hinst, hhost, hport, hengine⟩ := hr
  exact ⟨spec, hl.trans hspec, hs.1.trans hinst, hs.2.1.trans hhost, hs.2.2.1.trans hport,
    hs.2.2.2.trans hengine⟩

/-- A step that brings nothing up and changes no definition. -/
structure Calm (h h' : Host N) : Prop where
  cur : h'.cur = h.cur
  edit : h'.edit = h.edit
  launched : h'.launched = h.launched
  same : ∀ r, SameSpec (h.heap r) (h'.heap r)
  down : ∀ r, Down (h.heap r) → Down (h'.heap r)
  rising : ∀ j, rising (h'.world.pc j) = true →
    rising (h.world.pc j) = true ∧ h'.held j = h.held j

theorem Calm.quiet (hc : Calm h h') (hq : Quiet h) : Quiet h' := by
  intro j
  by_contra hj
  exact absurd ((hq j).symm.trans (hc.rising j (Bool.eq_true_of_not_eq_false hj)).1) (by rintro ⟨⟩)

/-- Such a step keeps the invariant, if it takes every stop of an import further. -/
theorem Inv.calm (inv : Inv cfg h) (hc : Calm h h')
    (hstop : ∀ j new, h.edit j = .importStopping new → ∀ r, h.cur = some r →
      StopUnderway cfg h j r → Down (h'.heap r) ∨ StopUnderway cfg h' j r) : Inv cfg h' where
  up r hr := by
    obtain ⟨hcur, hl⟩ := inv.up r fun hd => hr (hc.down r hd)
    exact ⟨hc.cur.trans hcur, hl.same (congrFun hc.launched r) (hc.same r)⟩
  arriving i hi := by
    obtain ⟨hold, hheld⟩ := hc.rising i hi
    obtain ⟨hcur, hl⟩ := inv.arriving i hold
    rw [hheld]
    exact ⟨hc.cur.trans hcur, hl.same (congrFun hc.launched _) (hc.same _)⟩
  edits j := by
    have hok := inv.edits j
    rw [hc.edit]
    cases hpc : h.edit j
    all_goals rw [hpc] at hok
    case deleteLock | updateLock | createLock =>
      intro r hr
      obtain ⟨hd, hq⟩ := hok r (hc.cur ▸ hr)
      exact ⟨hc.down r hd, hc.quiet hq⟩
    case importStopping new =>
      refine ⟨hc.quiet hok.1, fun r hr => ?_⟩
      rcases hok.2 r (hc.cur ▸ hr) with hd | hs
      · exact .inl (hc.down r hd)
      · exact hstop j new hpc r (hc.cur ▸ hr) hs
    case importSave new | importLock new =>
      intro r hr
      rcases hok r (hc.cur ▸ hr) with haff | ⟨hd, hq⟩
      · refine .inl ?_
        unfold affected at haff ⊢
        rw [(hc.same r).1]
        exact haff
      · exact .inr ⟨hc.down r hd, hc.quiet hq⟩
    all_goals trivial

/-! ## The edits keep the invariant -/

theorem down_respec {inst : ModelInstance} (hd : Down inst) (spec : LaunchSpec) :
    Down (respec inst spec) := hd

theorem down_ofSpec (spec : LaunchSpec) : Down (.ofSpec spec) := ⟨rfl, rfl⟩

theorem down_update {heap : Nat → ModelInstance} (hdown : ∀ r, Down (heap r)) (r : Nat)
    {inst : ModelInstance} (hd : Down inst) (r' : Nat) : Down (Function.update heap r inst r') := by
  rw [Function.update_apply]
  split_ifs
  · exact hd
  · exact hdown r'

/-- A resync of a registry with nothing up. -/
theorem down_resync (hdown : ∀ r, Down (h.heap r)) (new : KeyConfig) (r : Nat) :
    Down ((resyncRegistry h new).heap r) := by
  unfold resyncRegistry
  split
  · exact hdown r
  · exact down_update hdown _ (down_ofSpec _) r
  · split_ifs
    · exact down_update hdown _ (down_respec (hdown _) _) r
    · exact hdown r

theorem resync_world (h : Host N) (new : KeyConfig) : (resyncRegistry h new).world = h.world := by
  unfold resyncRegistry
  split
  · rfl
  · rfl
  · split_ifs <;> rfl

/-- A resync leaves an unaffected record alone. -/
theorem resync_of_unaffected {new : KeyConfig} {r : Nat} (hcur : h.cur = some r)
    (hr : affected (h.heap r) new = false) : resyncRegistry h new = h := by
  have hspec : new.spec = some (h.heap r).spec := by simpa [affected] using hr
  unfold resyncRegistry
  rw [hspec, hcur]
  simp

theorem quiet_resync (hquiet : Quiet h) (new : KeyConfig) : Quiet (resyncRegistry h new) := by
  intro j
  rw [resync_world]
  exact hquiet j

/-- A resync keeps the invariant if what it changes is down with nothing under way. -/
theorem Inv.resync (inv : Inv cfg h) {new : KeyConfig} (hok : ∀ r, h.cur = some r →
    affected (h.heap r) new = true → Down (h.heap r) ∧ Quiet h) :
    Inv cfg (resyncRegistry h new) := by
  by_cases hall : ∀ r, h.cur = some r → Down (h.heap r) ∧ Quiet h
  · obtain ⟨hdown, hquiet⟩ := inv.allDown hall
    exact .of_allDown (down_resync hdown new) (quiet_resync hquiet new)
  · obtain ⟨r, hr⟩ := not_forall.mp hall
    obtain ⟨hcur, hup⟩ := Classical.not_imp.mp hr
    rw [resync_of_unaffected hcur (Bool.eq_false_iff.mpr fun haff => hup (hok r hcur haff))]
    exact inv

/-- An edit only moves on. -/
theorem Inv.goto (inv : Inv cfg h) {i : Nat} {pc : EditPc} (hpc : EditOk cfg h i pc) :
    Inv cfg (h.goto i pc) where
  up := inv.up
  arriving := inv.arriving
  edits j := by
    have hok : EditOk cfg h j (Function.update h.edit i pc j) := by
      rw [Function.update_apply]
      split_ifs with hj
      · rw [hj]; exact hpc
      · exact inv.edits j
    exact hok

theorem Inv.config (inv : Inv cfg h) (config : KeyConfig) : Inv cfg { h with config := config } :=
  ⟨inv.up, inv.arriving, inv.edits⟩

theorem locked_eq_some {u : Host N} : h.locked h' = some u ↔ h.world.lock = none ∧ h' = u := by
  simp only [Host.locked]
  split_ifs with hl <;> simp [hl]

/-- **An edit that goes on keeps the invariant.** -/
theorem Inv.editStep (inv : Inv cfg h) {ok : Bool} {new : Option KeyConfig}
    (hG : Apart cfg h (.edit i ok new)) (hs : editStep h i ok new = some h') : Inv cfg h' := by
  have hok := inv.edits i
  cases hpc : h.edit i
  all_goals
    simp only [Registry.editStep, hpc] at hs
    rw [hpc] at hok
  case idle => cases hs
  case deleteLock =>
    obtain ⟨-, rfl⟩ := locked_eq_some.mp hs
    obtain ⟨hdown, hquiet⟩ := inv.allDown hok
    exact .of_allDown hdown hquiet
  case deleteRow | deleteAssign =>
    cases hs
    refine Inv.goto ?_ ?_
    · exact ⟨inv.up, inv.arriving, inv.edits⟩
    · trivial
  case updateLock r spec =>
    obtain ⟨-, rfl⟩ := locked_eq_some.mp hs
    obtain ⟨hdown, hquiet⟩ := inv.allDown hok
    exact .of_allDown (down_update hdown r (down_respec (hdown r) spec)) hquiet
  case createLock spec =>
    obtain ⟨-, rfl⟩ := locked_eq_some.mp hs
    obtain ⟨hdown, hquiet⟩ := inv.allDown hok
    exact .of_allDown (down_update hdown _ (down_ofSpec spec)) hquiet
  case importStopping new =>
    split_ifs at hs with hidle
    cases hs
    refine inv.goto fun r hr => .inr ⟨?_, hok.1⟩
    refine (hok.2 r hr).resolve_right fun hstop => ?_
    unfold StopUnderway at hstop
    split at hidle
    · rename_i hpc'
      rw [hpc'] at hstop
      exact hstop
    · cases hidle
  case importSave new =>
    cases hs
    exact (inv.config new).goto hok
  case importLock new =>
    obtain ⟨-, rfl⟩ := locked_eq_some.mp hs
    refine (inv.resync fun r hr haff => ?_).goto ?_
    · exact (hok r hr).resolve_left fun hsame => absurd (hsame.symm.trans haff) (by rintro ⟨⟩)
    · trivial
  case syncHydrate =>
    cases new
    all_goals
      cases hs
      refine inv.goto ?_
      trivial
  case syncLock new =>
    obtain ⟨-, rfl⟩ := locked_eq_some.mp hs
    simp only [Apart, hpc] at hG
    split_ifs
    · refine ((inv.resync hG).config new).goto ?_
      trivial
    · refine inv.goto ?_
      trivial

/-- The host after coroutine `i` was handed the stop of an import. -/
def callStop (h : Host N) (i : Nat) : Host N :=
  { h with world := h.world.goto i (.call .user .stop) }

theorem callStop_pc (h : Host N) (i j : Nat) :
    (callStop h i).world.pc j = if j = i then .call .user .stop else h.world.pc j :=
  World.goto_pc ..

theorem calm_callStop (h : Host N) (i : Nat) : Calm h (callStop h i) where
  cur := rfl
  edit := rfl
  launched := rfl
  same _ := .refl _
  down _ := id
  rising j hj := by
    rw [callStop_pc] at hj
    split_ifs at hj
    · cases hj
    · exact ⟨hj, rfl⟩

/-- **A request of an edit keeps the invariant.** -/
theorem Inv.requestStep (inv : Inv cfg h) {e : HostEvent N} (hG : Apart cfg h e)
    (hedit : e.editor.all (fun i => (h.edit i matches .idle)) = true)
    (hs : requestStep h e = some h') : Inv cfg h' := by
  have accepted : ∀ {r}, h.cur = some r → isDown (h.heap r) = true → Quiet h ∧ (h.heap r).proc = none →
      ∀ r', h.cur = some r' → Down (h.heap r') ∧ Quiet h := by
    intro r hr hd hG r' hr'
    obtain rfl := Option.some.inj (hr.symm.trans hr')
    exact ⟨⟨hd, hG.2⟩, hG.1⟩
  cases e with
  | node e | config new | edit i ok new => cases hs
  | sync i =>
    cases hs
    refine inv.goto ?_
    trivial
  | delete i ok new =>
    simp only [Registry.requestStep] at hs
    split at hs
    · rename_i r hr
      split_ifs at hs with hd
      · cases hs
        exact (inv.config new).goto (accepted hr hd.2 (hG r hr hd.2))
      · cases hs
        exact inv
    · cases hs
      exact inv
  | update i ok new =>
    simp only [Registry.requestStep] at hs
    split at hs
    · rename_i r hr
      split_ifs at hs with hd
      · split at hs
        · cases hs
          exact (inv.config new).goto (accepted hr hd.2 (hG r hr hd.2))
        · cases hs
          exact inv.config new
      · cases hs
        exact inv
    · cases hs
      exact inv
  | create i ok new =>
    simp only [Registry.requestStep] at hs
    split at hs
    · cases hs
      exact inv
    · rename_i hcur
      split_ifs at hs
      · split at hs
        · cases hs
          exact (inv.config new).goto fun r hr => absurd (hcur.symm.trans hr) (by rintro ⟨⟩)
        · cases hs
          exact inv.config new
      · cases hs
        exact inv
  | importOverlay i force othersBusy new =>
    simp only [Registry.requestStep] at hs
    by_cases hrefused : new.resolves = false ∨ othersBusy = true ∧ force = false
    · rw [if_pos hrefused] at hs
      cases hs
      exact inv
    · rw [if_neg hrefused] at hs
      split at hs
      · rename_i r hr
        split_ifs at hs with hbusy hforce
        · cases hs
          obtain ⟨hquiet, hkill, hrun⟩ := (hG r hr hbusy.1).2 hbusy.2 hforce
          have hcalm := calm_callStop h i
          refine (inv.calm hcalm fun j new' hj r' _ hstop => .inr ?_).goto
            ⟨hcalm.quiet hquiet, fun r' hr' => .inr ?_⟩
          · have hne : j ≠ i := by
              rintro rfl
              simp [HostEvent.editor, hj] at hedit
            unfold StopUnderway
            rw [callStop_pc, if_neg hne]
            exact hstop
          · obtain rfl := Option.some.inj (hr.symm.trans hr')
            unfold StopUnderway
            rw [callStop_pc, if_pos rfl]
            exact ⟨hrun, hkill⟩
        · cases hs
          exact inv
        · cases hs
          refine inv.goto fun r' hr' => ?_
          obtain rfl := Option.some.inj (hr.symm.trans hr')
          by_cases haff : affected (h.heap r) new = true
          · have hd : isDown (h.heap r) = true :=
              Bool.eq_true_of_not_eq_false fun hd => hbusy ⟨haff, hd⟩
            obtain ⟨hq, hp⟩ := (hG r hr haff).1 hd
            exact .inr ⟨⟨hd, hp⟩, hq⟩
          · exact .inl (Bool.eq_false_iff.mpr haff)
      · rename_i hcur
        cases hs
        exact inv.goto fun r hr => absurd (hcur.symm.trans hr) (by rintro ⟨⟩)

/-! ## The node keeps the invariant -/

theorem settle_world (h : Host N) (r : Option Nat) (i : Nat) (w : World N) :
    (h.settle r i w).world = w := by cases r <;> rfl

theorem settle_cur (h : Host N) (r : Option Nat) (i : Nat) (w : World N) :
    (h.settle r i w).cur = h.cur := by cases r <;> rfl

theorem settle_edit (h : Host N) (r : Option Nat) (i : Nat) (w : World N) :
    (h.settle r i w).edit = h.edit := by cases r <;> rfl

theorem settle_held_of_ne (h : Host N) (r : Option Nat) {i j : Nat} (w : World N) (hj : j ≠ i) :
    (h.settle r i w).held j = h.held j := by
  cases r with
  | none => rfl
  | some r => exact Function.update_of_ne hj ..

/-- Only the step that admits a start launches. -/
theorem settle_launched (h : Host N) (r : Option Nat) {i : Nat} {w : World N}
    (hpc : ∀ c spec, w.pc i ≠ .startSpawn c spec) : (h.settle r i w).launched = h.launched := by
  cases r with
  | none => rfl
  | some r =>
    simp only [Host.settle]

/-- Every record but the coroutine's own is as before. -/
theorem settle_heap (h : Host N) (i : Nat) (w : World N) (r : Nat) :
    (h.target i = some r ∧ (h.settle (h.target i) i w).heap r = w.inst ∧
      (h.focus (h.target i)).inst = h.heap r) ∨
    (h.settle (h.target i) i w).heap r = h.heap r := by
  cases ht : h.target i with
  | none => exact .inr rfl
  | some r' =>
    rcases eq_or_ne r r' with rfl | hne
    · exact .inl ⟨rfl, Function.update_self .., rfl⟩
    · exact .inr (Function.update_of_ne hne ..)

/-- A coroutine that is not free of its record acts on it. -/
theorem target_of_holds {i : Nat} (hi : holds (h.world.pc i) = true) :
    h.target i = some (h.held i) := if_pos hi

/-- A step that brings nothing up is calm. -/
theorem calm_settle [DecidableEq N] {w : World N}
    (hres : resume cfg me (h.focus (h.target i)) i inp (h.world.pc i) = some w)
    (same : SameSpec (h.focus (h.target i)).inst w.inst)
    (down : Down (h.focus (h.target i)).inst → Down w.inst) (hpc : rising (w.pc i) = false) :
    Calm h (h.settle (h.target i) i w) where
  cur := settle_cur ..
  edit := settle_edit ..
  launched := settle_launched h _ fun c spec hspawn => by rw [hspawn] at hpc; cases hpc
  same r := by
    rcases settle_heap h i w r with ⟨-, hheap, hfocus⟩ | hheap
    · rw [hheap, ← hfocus]
      exact same
    · rw [hheap]
      exact .refl _
  down r hd := by
    rcases settle_heap h i w r with ⟨-, hheap, hfocus⟩ | hheap
    · rw [hheap]
      exact down (hfocus ▸ hd)
    · rw [hheap]
      exact hd
  rising j hj := by
    rw [settle_world] at hj
    have hne : j ≠ i := by
      rintro rfl
      exact absurd (hpc.symm.trans hj) (by rintro ⟨⟩)
    rw [resume_pc_of_ne hres hne] at hj
    exact ⟨hj, settle_held_of_ne h _ w hne⟩

/-- Where a stop stands after its step on record `r`. -/
theorem stopUnderway_settle {w : World N} {i r : Nat}
    (hstop : StopAt cfg w.inst (r = r) (w.pc i)) :
    StopUnderway cfg (h.settle (some r) i w) i r := by
  have hheap : (h.settle (some r) i w).heap r = w.inst := Function.update_self ..
  have hheld : (h.settle (some r) i w).held i = r := Function.update_self ..
  unfold StopUnderway
  rw [settle_world, hheap, hheld]
  exact hstop

/-- A step of the stop that an import makes takes the record down, or goes on. -/
theorem stop_goes_on [DecidableEq N] {w : World N} {i r : Nat} (hcur : h.cur = some r)
    (hres : resume cfg me (h.focus (h.target i)) i inp (h.world.pc i) = some w)
    (hstop : StopUnderway cfg h i r) :
    Down ((h.settle (h.target i) i w).heap r) ∨
      StopUnderway cfg (h.settle (h.target i) i w) i r := by
  have down : ∀ {v : World N}, Down v.inst → Down ((h.settle (some r) i v).heap r) := by
    intro v hd
    rw [show (h.settle (some r) i v).heap r = v.inst from Function.update_self ..]
    exact hd
  have hpc' : ∀ (v : World N) (pc : Pc N), (v.goto i pc).pc i = pc := fun v pc => by
    rw [World.goto_pc, if_pos rfl]
  unfold StopUnderway StopAt at hstop
  split at hstop
  · -- the call: the record is registered and the node can stop it
    rename_i c hpc
    have ht : h.target i = some r := by simp [Host.target, hpc, holds, hcur]
    rw [ht, hpc] at hres
    cases hres
    rw [ht]
    refine .inr (stopUnderway_settle ?_)
    rw [hpc']
    have henter : (h.focus (some r)).enter cfg c .stop inp = .stopLock c := by
      simp [World.enter, Host.focus, hcur, hstop.1]
    rw [henter]
    exact ⟨rfl, hstop.2⟩
  · rename_i c hpc
    have ht : h.target i = some r := by rw [target_of_holds (by rw [hpc]; rfl), hstop.1]
    rw [ht, hpc] at hres
    rw [ht]
    have hkill : Killable (h.focus (some r)).inst := hstop.2
    obtain ⟨p, -, -, hsec⟩ | ⟨hadopted, -⟩ | ⟨-, -, hsec⟩ := stopSection_cases (h.focus (some r)).inst
    · simp only [resume, hsec] at hres
      obtain ⟨-, rfl⟩ := World.locked_eq_some.mp hres
      refine .inr (stopUnderway_settle ?_)
      rw [hpc']
      rfl
    · exact absurd ⟨hadopted.1, .inl hadopted.2⟩ hkill
    · simp only [resume, hsec] at hres
      obtain ⟨-, rfl⟩ := World.locked_eq_some.mp hres
      exact .inl (down ⟨rfl, rfl⟩)
  · rename_i c p hpc
    have ht : h.target i = some r := by rw [target_of_holds (by rw [hpc]; rfl), hstop]
    rw [ht, hpc] at hres
    cases hres
    rw [ht]
    refine .inr (stopUnderway_settle ?_)
    rw [hpc']
    rfl
  · rename_i c p hpc
    have ht : h.target i = some r := by rw [target_of_holds (by rw [hpc]; rfl), hstop]
    rw [ht, hpc] at hres
    rw [ht]
    simp only [resume] at hres
    split_ifs at hres
    obtain ⟨-, rfl⟩ := World.locked_eq_some.mp hres
    exact .inl (down ⟨rfl, rfl⟩)
  · exact hstop.elim

/-- A record comes up, or comes closer to it, as it was launched: no edit is in its window, except
an import that leaves the record as it is. -/
theorem Inv.rise [DecidableEq N] (inv : Inv cfg h) {i r : Nat} {w : World N}
    (hcur : h.cur = some r) (hl : AsLaunched h r)
    (hres : resume cfg me (h.focus (some r)) i inp (h.world.pc i) = some w)
    (same : SameSpec (h.heap r) w.inst) (hpc' : ∀ c spec, w.pc i ≠ .startSpawn c spec)
    (hno : ¬ (Down (h.heap r) ∧ Quiet h)) (hstop : ∀ j, (h.edit j).stopping = false) :
    Inv cfg (h.settle (some r) i w) := by
  have heap : ∀ r', SameSpec (h.heap r') ((h.settle (some r) i w).heap r') := by
    intro r'
    rcases eq_or_ne r' r with rfl | hne
    · rw [show (h.settle (some r') i w).heap r' = w.inst from Function.update_self ..]
      exact same
    · rw [show (h.settle (some r) i w).heap r' = h.heap r' from Function.update_of_ne hne ..]
      exact .refl _
  have launched : ∀ r', AsLaunched h r' → AsLaunched (h.settle (some r) i w) r' := fun r' hr' =>
    hr'.same (congrFun (settle_launched h _ hpc') r') (heap r')
  refine ⟨fun r' hr' => ?_, fun j hj => ?_, fun j => ?_⟩
  · rcases eq_or_ne r' r with rfl | hne
    · exact ⟨hcur, launched r' hl⟩
    · rw [show (h.settle (some r) i w).heap r' = h.heap r' from Function.update_of_ne hne ..] at hr'
      obtain ⟨hcur', hl'⟩ := inv.up r' hr'
      exact ⟨hcur', launched r' hl'⟩
  · rcases eq_or_ne j i with rfl | hne
    · rw [show (h.settle (some r) j w).held j = r from Function.update_self ..]
      exact ⟨hcur, launched r hl⟩
    · rw [settle_world, resume_pc_of_ne hres hne] at hj
      obtain ⟨hcur', hl'⟩ := inv.arriving j hj
      rw [settle_held_of_ne h _ w hne]
      exact ⟨hcur', launched _ hl'⟩
  · have hok := inv.edits j
    have hj := hstop j
    show EditOk cfg _ j (h.edit j)
    cases hpc : h.edit j
    all_goals rw [hpc] at hok hj
    case deleteLock | updateLock | createLock => exact absurd (hok r hcur) hno
    case importStopping new => cases hj
    case importSave new | importLock new =>
      intro r' hr'
      obtain rfl := Option.some.inj (hcur.symm.trans hr')
      refine .inl ?_
      have haff := (hok r hcur).resolve_right hno
      unfold affected at haff ⊢
      rw [(heap r).1]
      exact haff
    all_goals trivial

theorem agrees_autoPlace {inst : ModelInstance} {spec : LaunchSpec} (h : Agrees inst spec)
    (gpu : Option String) : Agrees inst (spec.autoPlace gpu) := by cases gpu <;> exact h

/-- A start is admitted on a record that is registered and listens where its spec says. -/
theorem Inv.admitted [DecidableEq N] (inv : Inv cfg h) {i r : Nat} {w : World N} {c : Caller}
    {spec : LaunchSpec} (hcur : h.cur = some r)
    (hres : resume cfg me (h.focus (some r)) i inp (h.world.pc i) = some w)
    (hpc' : w.pc i = .startSpawn c spec) (hspec : w.inst.spec = spec) (hagrees : Agrees w.inst spec)
    (hapart : ∀ j, (h.edit j).window = false) : Inv cfg (h.settle (some r) i w) := by
  have hheap : (h.settle (some r) i w).heap r = w.inst := Function.update_self ..
  have hl : AsLaunched (h.settle (some r) i w) r := by
    refine ⟨spec, ?_, ?_, ?_⟩
    · simp only [Host.settle, hpc', Function.update_self]
    · rw [hheap]; exact hspec
    · rw [hheap]; exact hagrees
  refine ⟨fun r' hr' => ?_, fun j hj => ?_, fun j => ?_⟩
  · rcases eq_or_ne r' r with rfl | hne
    · exact ⟨hcur, hl⟩
    · rw [show (h.settle (some r) i w).heap r' = h.heap r' from Function.update_of_ne hne ..] at hr'
      exact absurd (Option.some.inj (hcur.symm.trans (inv.up r' hr').1)).symm hne
  · rcases eq_or_ne j i with rfl | hne
    · rw [show (h.settle (some r) j w).held j = r from Function.update_self ..]
      exact ⟨hcur, hl⟩
    · rw [settle_world, resume_pc_of_ne hres hne] at hj
      have hheld := (inv.arriving j hj).1
      rw [settle_held_of_ne h _ w hne, ← Option.some.inj (hcur.symm.trans hheld)]
      exact ⟨hcur, hl⟩
  · have hj := hapart j
    show EditOk cfg _ j (h.edit j)
    cases hpc : h.edit j
    all_goals rw [hpc] at hj
    case idle | deleteRow | deleteAssign | syncHydrate | syncLock => trivial
    all_goals cases hj

/-- **A resumed coroutine keeps the invariant.** -/
theorem Inv.run [DecidableEq N] (inv : Inv cfg h) {i : Nat} {inp' : Input} {w : World N}
    (hG : Apart cfg h (.node (.run i inp'))) (hinp : inp.ok = inp'.ok)
    (hres : resume cfg me (h.focus (h.target i)) i inp (h.world.pc i) = some w) :
    Inv cfg (h.settle (h.target i) i w) := by
  have own : holds (h.world.pc i) = true → h.target i = some (h.held i) := target_of_holds
  cases resume_record hres with
  | quiet same down kill hpc' =>
    refine inv.calm (calm_settle hres same down hpc') fun j new hj r hcur hstop => ?_
    rcases eq_or_ne j i with rfl | hne
    · exact stop_goes_on hcur hres hstop
    · have hpc : (h.settle (h.target i) i w).world.pc j = h.world.pc j := by
        rw [settle_world, resume_pc_of_ne hres hne]
        rfl
      refine .inr ?_
      unfold StopUnderway
      rw [hpc, settle_held_of_ne h _ w hne]
      rcases settle_heap h i w r with ⟨-, hheap, hfocus⟩ | hheap
      · rw [hheap]
        exact hstop.mono (hfocus ▸ same.2.2.2) (hfocus ▸ kill)
      · rw [hheap]
        exact hstop
  | admission c spec gpu hpc hok hs hr hpc' hspec hhost hport hengine =>
    have hpc : h.world.pc i = .startPreflight c spec := hpc
    have ht := own (by rw [hpc]; rfl)
    rw [ht] at hres hs hr hhost hport hengine ⊢
    simp only [Apart, hpc] at hG
    obtain ⟨hcur, hagrees, hapart⟩ := hG (hinp ▸ hok) hs hr
    refine inv.admitted hcur hres hpc' hspec (agrees_autoPlace ?_ gpu) hapart
    exact ⟨hhost.trans hagrees.1, hport.trans hagrees.2.1, hengine.trans hagrees.2.2⟩
  | post c hpc same hpc' =>
    have ht : h.target i = some (h.held i) := by
      rcases hpc with ⟨hpc, -⟩ | ⟨hpc, -⟩
      · exact own (by rw [show h.world.pc i = _ from hpc]; rfl)
      · exact own (by rw [show h.world.pc i = _ from hpc]; rfl)
    rw [ht] at hres same hpc ⊢
    have hup : ¬ Down (h.heap (h.held i)) := fun hd => by
      rcases hpc with ⟨-, hs⟩ | ⟨-, hs⟩
      · exact absurd hd.1 (by rw [isDown, show (h.heap (h.held i)).state = _ from hs]; decide)
      · exact absurd hd.1 (by rw [isDown, show (h.heap (h.held i)).state = _ from hs]; decide)
    obtain ⟨hcur, hl⟩ := inv.up _ hup
    refine inv.rise hcur hl hres same hpc' (fun hd => hup hd.1) ?_
    rcases hpc with ⟨hpc, hs⟩ | ⟨hpc, hs⟩
    all_goals
      simp only [Apart, show h.world.pc i = _ from hpc] at hG
      exact hG hs
  | risen hpc same hpc' =>
    have hpc : rising (h.world.pc i) = true := hpc
    obtain ⟨hcur, hl⟩ := inv.arriving i hpc
    have ht : h.target i = some (h.held i) := own (by
      revert hpc
      cases h.world.pc i <;> simp [rising, holds])
    have hloud : ¬ Quiet h := fun hq => absurd ((hq i).symm.trans hpc) (by rintro ⟨⟩)
    rw [ht] at hres same ⊢
    refine inv.rise hcur hl hres same hpc' (fun hd => hloud hd.2) fun j => ?_
    have hok := inv.edits j
    cases hj : h.edit j
    all_goals first | rfl | skip
    rw [hj] at hok
    exact absurd hok.1 hloud

/-- An event of the node that starts a coroutine, or happens outside the backend. -/
theorem Inv.outside [DecidableEq N] (inv : Inv cfg h) {e : Event N} {w : World N}
    (hrun : ∀ i inp, e ≠ .run i inp)
    (hfree : (requested e).all (fun i => h.edit i matches .idle) = true)
    (hs : Node.step cfg me h.world e = some w) : Inv cfg { h with world := w } := by
  have hpc : ∀ j, w.pc j = h.world.pc j ∨ rising (w.pc j) = false ∧ requested e = some j := by
    intro j
    cases e <;> simp only [Node.step] at hs
    case run i inp => exact absurd rfl (hrun i inp)
    case exit proc =>
      split_ifs at hs
      cases hs
      exact .inl rfl
    case clock | store => cases hs; exact .inl rfl
    all_goals
      rename_i i _
      split_ifs at hs
      cases hs
      rw [World.goto_pc]
      split_ifs with hj
      · exact .inr ⟨rfl, congrArg some hj.symm⟩
      · exact .inl rfl
  refine inv.calm ⟨rfl, rfl, rfl, fun r => .refl _, fun r => id, fun j hj => ?_⟩
    fun j new hj r _ hstop => .inr ?_
  · rcases hpc j with hpc | ⟨hpc, -⟩
    · exact ⟨hpc ▸ hj, rfl⟩
    · exact absurd (hpc.symm.trans hj) (by rintro ⟨⟩)
  · rcases hpc j with hpc | ⟨-, hreq⟩
    · unfold StopUnderway
      rw [show ({ h with world := w } : Host N).world.pc j = h.world.pc j from hpc]
      exact hstop
    · simp [hreq, hj] at hfree

/-- **Every event keeps the invariant.** -/
theorem Inv.step [DecidableEq N] (inv : Inv cfg h) {e : HostEvent N} (hG : Apart cfg h e)
    (hs : step cfg me h e = some h') : Inv cfg h' := by
  cases e with
  | node e =>
    simp only [Registry.step] at hs
    split_ifs at hs with hfree
    cases e
    all_goals
      simp only [nodeStep] at hs
      obtain ⟨w, hw, rfl⟩ := Option.map_eq_some_iff.mp hs
    case run i inp =>
      have hres : resume cfg me (h.focus (h.target i)) i
          { inp with spec := h.config.build (h.focus (h.target i)).inst.engine }
          (h.world.pc i) = some w := hw
      refine inv.run hG ?_ hres
      rfl
    all_goals exact inv.outside (fun _ _ he => by cases he) hfree hw
  | config new =>
    cases hs
    exact inv.config new
  | edit i ok new => exact inv.editStep hG hs
  | delete | update | create | importOverlay | sync =>
    simp only [Registry.step] at hs
    split_ifs at hs with hfree
    refine inv.requestStep hG ?_ hs
    simp only [HostEvent.editor, Option.all_some, Bool.and_eq_true] at hfree ⊢
    exact hfree.1

/-! ## Every run -/

/-- The record after `adopt_running` found its backend up. -/
def adopted (spec : LaunchSpec) : ModelInstance :=
  { ModelInstance.ofSpec spec with desired := .running, state := .ready }

/-- A backend that has just booted: each record is new, or is the registered one, adopted. -/
structure Boot (h : Host N) : Prop where
  pc : ∀ i, h.world.pc i = .idle
  edit : ∀ i, h.edit i = .idle
  records : ∀ r, (∃ spec, h.heap r = .ofSpec spec) ∨
    ∃ spec, h.heap r = adopted spec ∧ h.cur = some r ∧ h.launched r = some spec

theorem Boot.inv (hboot : Boot h) : Inv cfg h where
  up r hr := by
    rcases hboot.records r with ⟨spec, hspec⟩ | ⟨spec, hspec, hcur, hl⟩
    · exact absurd (hspec ▸ down_ofSpec spec) hr
    · exact ⟨hcur, spec, hl, by rw [hspec]; rfl, by rw [hspec]; exact ⟨rfl, rfl, rfl⟩⟩
  arriving i hi := by
    rw [hboot.pc i] at hi
    cases hi
  edits j := by
    rw [hboot.edit j]
    trivial

/-- **A live instance stays registered and as it was launched**, in every run in which edits and
operations of the key keep apart. -/
theorem kept_of_apart [DecidableEq N] {h₀ : Host N} (hboot : Boot h₀)
    (hr : Reach (step cfg me) (Apart cfg) h₀ h) : Kept h :=
  (hr.invariant (I := Inv cfg) hboot.inv fun inv hG he => inv.step hG he).kept

/-! ## A sync pass under a running instance -/

/-- The config that resolves the key to `spec`. -/
def listing (spec : LaunchSpec) : KeyConfig where
  engine := some spec.engine
  build := fun _ => some spec

/-- A booted backend with one instance. -/
def bootHost : Host Unit where
  world := bootWorld
  heap := fun _ => .ofSpec sampleSpec
  cur := some 0
  fresh := 1
  config := listing sampleSpec

theorem boot_bootHost : Boot bootHost :=
  ⟨fun _ => rfl, fun _ => rfl, fun _ => .inl ⟨sampleSpec, rfl⟩⟩

/-- A start, from its call to its store. -/
def startOnHost : List (HostEvent Unit) := (startEvents 0).map .node

/-- The spec with another port. -/
def movedSpec : LaunchSpec := { sampleSpec with port := 8002 }

/-- The port of the stopped instance is edited, and the instance is started. -/
def editThenStart : List (HostEvent Unit) :=
  [.update 1 true (listing movedSpec), .edit 1 true none] ++ startOnHost

/-- The edit is made before the start is admitted. -/
theorem along_editThenStart : Along (step {} ()) (Apart {}) bootHost editThenStart := by
  refine ⟨fun _ _ _ => ⟨fun _ => rfl, rfl⟩, fun h₁ e₁ => ⟨?_, fun h₂ e₂ => ⟨trivial, fun h₃ e₃ =>
    ⟨?_, fun h₄ e₄ => ⟨?_, fun h₅ e₅ => ⟨?_, fun h₆ e₆ => ⟨?_, fun _ _ => trivial⟩⟩⟩⟩⟩⟩⟩
  · cases e₁
    trivial
  · cases e₁
    cases e₂
    cases e₃
    trivial
  · cases e₁
    cases e₂
    cases e₃
    cases e₄
    refine fun _ _ _ => ⟨rfl, ⟨rfl, rfl, rfl⟩, fun j => ?_⟩
    rcases eq_or_ne j 1 with rfl | hj
    · rfl
    · have hidle : Function.update (Function.update (fun _ => EditPc.idle) 1
          (.updateLock 0 movedSpec)) 1 .idle j = .idle := by
        rw [Function.update_of_ne hj, Function.update_of_ne hj]
      exact congrArg EditPc.window hidle
  · cases e₁
    cases e₂
    cases e₃
    cases e₄
    cases e₅
    trivial
  · cases e₁
    cases e₂
    cases e₃
    cases e₄
    cases e₅
    cases e₆
    trivial

/-- After the start the instance is live, on the port that the edit gave it. -/
theorem kept_editThenStart : ∃ h, run (step {} ()) bootHost editThenStart = some h ∧ Live h 0 ∧
    (h.heap 0).port = 8002 ∧ Kept h := by
  have hr : ∀ {h}, run (step {} ()) bootHost editThenStart = some h →
      Reach (step {} ()) (Apart {}) bootHost h := fun h => Reach.of_guarded_run h along_editThenStart
  exact ⟨_, rfl, .inl rfl, rfl, kept_of_apart boot_bootHost (hr rfl)⟩

/-- The model becomes READY; a replica that does not run it edits its port; a sync pass finds the
edit in the store. -/
def editedElsewhere : List (HostEvent Unit) :=
  startOnHost ++ [.node (.pass 1), .node (.go 1), .node (.go 1), .sync 2,
    .edit 2 true (some (listing movedSpec)), .edit 2 true none]

/-- **A READY instance is moved to another port.** `resync_registry` does not look at the state. -/
theorem live_respecified :
    ¬ ∀ (cfg : Settings) (h₀ h : Host Unit), Boot h₀ → Reach (step cfg ()) anyEvent h₀ h →
      Kept h := by
  intro hall
  obtain ⟨h, hrun, hs, hport, hl⟩ : ∃ h, run (step {} ()) bootHost editedElsewhere = some h ∧
      (h.heap 0).state = .ready ∧ (h.heap 0).port = 8002 ∧ h.launched 0 = some sampleSpec :=
    ⟨_, rfl, rfl, rfl, rfl⟩
  have hlive : Live h 0 := .inl (by rw [isDown, hs]; rfl)
  obtain ⟨-, spec, hspec, -, -, hat, -⟩ := hall {} bootHost h boot_bootHost (Reach.of_run hrun) 0 hlive
  rw [hl] at hspec
  rw [hport, ← Option.some.inj hspec] at hat
  exact absurd hat (by decide)

end Llmops.Registry
