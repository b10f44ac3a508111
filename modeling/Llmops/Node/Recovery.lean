import Llmops.Node.Ownership
import Llmops.Node.Resume

/-!
# Recovery alerts against failures

`emit_transition` (`events.py:20-73`) announces a READY as `model_recovered` if `was_failed` is set,
and clears the flag. The flag is set where the reconciler enters FAILED, and not where `start` does
after a failed spawn (`manager.py:488-499`); it is read and cleared outside the lock, some awaits
after the transition.

A `Pairing` keeps beside the world whether the instance has entered FAILED since its last transition
into READY, what of this each transition that is not announced yet has found, and for each announced
one how many `model_recovered` went out.

* `Resumed.recovery`: what one step does to the flag;
* `paired_of_reach`: with the flag set at every failed spawn, and nothing between a READY and its
  announcement, alerts and failures pair;
* `unannounced`: after a failed spawn the instance recovers in silence.
-/

namespace Llmops.Node

open Llmops.Lib

variable {N : Type*}

/-- The coroutine has made a transition into READY that it has not announced yet. -/
def Pc.announces (pc : Pc N) : Bool := pc.mark = .announce

/-- The spawn of a start has failed, which is not in the record yet. -/
def Pc.spawnFailed (pc : Pc N) : Bool := pc.mark = .unspawned

/-- How many recoveries have been alerted. -/
def recoveries (alerts : List AlertEvent) : Nat := alerts.countP (·.event = .modelRecovered)

/-- A node, whether it has entered FAILED since the last transition into READY, what each coroutine
that made one has found of this, and the announcements, with the recoveries alerted. -/
structure Pairing (N : Type*) where
  world : World N
  failed : Bool := false
  owed : Nat → Bool := fun _ => false
  reports : List (Bool × Nat) := []

namespace Pairing

def init (w : World N) : Pairing N := { world := w }

/-- FAILED has been entered, before the step or by it. -/
def hasFailed (v : Pairing N) (w' : World N) : Bool :=
  v.failed || decide (v.world.inst.state ≠ .failed ∧ w'.inst.state = .failed)

def note (v : Pairing N) (e : Event N) (w' : World N) : Pairing N :=
  match e with
  | .run i _ =>
    { world := w'
      failed := !(w'.pc i).announces && v.hasFailed w'
      owed := if (w'.pc i).announces then Function.update v.owed i v.failed else v.owed
      reports :=
        if (v.world.pc i).announces then
          (v.owed i, recoveries w'.alerts - recoveries v.world.alerts) :: v.reports
        else v.reports }
  | _ => { v with world := w', failed := v.hasFailed w' }

end Pairing

def pairingStep [DecidableEq N] (cfg : Settings) (me : N) (v : Pairing N) (e : Event N) :
    Option (Pairing N) :=
  (step cfg me v.world e).map (v.note e)

/-- **Alerts and failures pair**: a READY is announced as a recovery, once, exactly if FAILED was
entered since the one before. -/
def Paired (v : Pairing N) : Prop := ∀ r ∈ v.reports, r.2 = if r.1 then 1 else 0

/-- A failed spawn finds the flag set, and between a READY and its announcement no other coroutine
enters FAILED or makes a transition into READY. -/
def Flagged [DecidableEq N] (cfg : Settings) (me : N) (v : Pairing N) : Event N → Prop
  | .run i inp => ((v.world.pc i).spawnFailed = true → v.world.inst.wasFailed = true) ∧
    ∀ j, j ≠ i → (v.world.pc j).announces = true →
      ∀ w', step cfg me v.world (.run i inp) = some w' →
        (w'.pc i).announces = false ∧ (w'.inst.state = .failed → v.world.inst.state = .failed)
  | _ => True

/-! ## What one step does -/

/-- A step of coroutine `i`, as the flag and the transitions into READY see it. -/
inductive RecoveryStep (w : World N) (i : Nat) (pc : Pc N) (w' : World N) : Prop
  | quiet (hfrom : pc.announces = false) (hto : (w'.pc i).announces = false)
      (hflag : w'.inst.wasFailed = w.inst.wasFailed)
      (hstate : w'.inst.state = .failed → w.inst.state = .failed)
  | fail (hfrom : pc.announces = false) (hto : (w'.pc i).announces = false)
      (hflag : w'.inst.wasFailed = true ∨
        pc.spawnFailed = true ∧ w'.inst.wasFailed = w.inst.wasFailed)
      (hstate : w'.inst.state = .failed)
  | ready (hfrom : pc.announces = false) (hto : (w'.pc i).announces = true)
      (hflag : w'.inst.wasFailed = w.inst.wasFailed) (hstate : w'.inst.state = .ready)
  | announce (hfrom : pc.announces = true) (hto : (w'.pc i).announces = false)
      (hinst : w'.inst = { w.inst with wasFailed := false })
      (halerts : recoveries w'.alerts =
        (if w.inst.wasFailed then 1 else 0) + recoveries w.alerts)

section Steps

variable {cfg : Settings} {me : N} {w w' : World N} {i : Nat} {inp : Input} {pc : Pc N}

theorem announces_of_mark {m : Mark} (h : pc.mark = m) (hm : m ≠ .announce) :
    pc.announces = false := by
  unfold Pc.announces
  rw [h]
  exact decide_eq_false hm

theorem plain_silent {target : Pc N} (h : target.mark = .plain) : target.announces = false :=
  announces_of_mark h (by decide)

theorem SectionChange.quiet {inst inst' : ModelInstance} (h : SectionChange inst inst') :
    inst'.wasFailed = inst.wasFailed ∧ (inst'.state = .failed → inst.state = .failed) := by
  cases h with
  | down _ _ s hs =>
    refine ⟨rfl, fun hfailed => ?_⟩
    obtain rfl | rfl := hs <;> cases hfailed
  | slept => exact ⟨rfl, fun hfailed => by cases hfailed⟩
  | _ => exact ⟨rfl, id⟩

theorem probeStep_recovery : RecoveryStep w i .passProbe (probeStep cfg w i inp) := by
  unfold probeStep
  obtain ⟨n, t, h⟩ | ⟨-, -, h⟩ | ⟨-, -, -, n, t, r, h⟩ :=
    reconcileProbe_cases cfg w.inst inp.ok inp.size w.clock
  · rw [h]
    exact .quiet rfl (plain_silent (mark_goto rfl)) rfl id
  · rw [h]
    refine .ready rfl ?_ rfl rfl
    rw [World.goto_self]
    rfl
  · rw [h]
    have hinst (v : World N) : (v.hand w.inst.proc).inst = v.inst := World.hand_inst ..
    refine .fail rfl (plain_silent (mark_goto rfl)) (.inl ?_) ?_
    · exact congrArg ModelInstance.wasFailed (hinst _)
    · exact congrArg ModelInstance.state (hinst _)

/-- The announcement of a READY. -/
theorem recoveries_recordStep :
    recoveries (recordStep cfg w .ready).alerts =
      (if w.inst.wasFailed then 1 else 0) + recoveries w.alerts := by
  show recoveries ((classifyEvent cfg w.inst .ready).toList ++ w.alerts) = _
  cases hflag : w.inst.wasFailed with
  | false => simp [classifyEvent, hflag, recoveries]
  | true => simp [classifyEvent, hflag, recoveries, Nat.add_comm]

/-- **One step of a coroutine.** -/
theorem Resumed.recovery (h : Resumed cfg w i inp pc w') : RecoveryStep w i pc w' := by
  cases h with
  | move hfrom hto hinst _ _ =>
    refine .quiet ?_ ?_ (by rw [hinst]) (by rw [hinst]; exact id)
    · obtain hfrom | hfrom := hfrom
      · exact plain_silent hfrom
      · exact announces_of_mark hfrom (by decide)
    · obtain hto | hto := hto
      · exact plain_silent hto
      · exact announces_of_mark hto (by decide)
  | change hfrom hto _ hchange _ _ =>
    exact .quiet (plain_silent hfrom) (plain_silent hto) hchange.quiet.1 hchange.quiet.2
  | admitted spec reset hfrom hto _ hstart _ _ =>
    obtain ⟨-, -, hinst⟩ := startSection_eq_ok hstart
    exact .quiet (plain_silent hfrom) (announces_of_mark hto (by decide)) (by rw [hinst])
      (by rw [hinst]; rintro ⟨⟩)
  | unspawned hfrom hto _ hinst _ _ =>
    refine .fail (announces_of_mark hfrom (by decide)) (plain_silent hto)
      (.inr ⟨decide_eq_true hfrom, ?_⟩)
      ?_ <;> rw [hinst] <;> rfl
  | woken hfrom hto _ hinst _ _ =>
    refine .ready (plain_silent hfrom) (decide_eq_true hto) ?_ ?_ <;> rw [hinst] <;> rfl
  | exit tr hfrom hto _ hexit _ _ =>
    have hsilent : pc.announces = false := by
      rw [hfrom]
      rfl
    obtain ⟨p, -, -, -, ⟨-, hinst, -⟩ | ⟨-, -, t, hinst⟩⟩ := reconcileExit_eq_some hexit
    · exact .quiet hsilent (plain_silent hto) (by rw [hinst]) (by rw [hinst]; rintro ⟨⟩)
    · exact .fail hsilent (plain_silent hto) (.inl (by rw [hinst])) (by rw [hinst])
  | holdProbe hfrom hto _ hinst _ _ =>
    refine .quiet ?_ ?_ (by rw [hinst]) (by rw [hinst]; exact id)
    · rw [hfrom]
      rfl
    · rw [hto]
      rfl
  | holdStop hfrom hto _ hchange _ _ =>
    exact .quiet (plain_silent hfrom) (announces_of_mark hto (by decide)) hchange.quiet.1
      hchange.quiet.2
  | probe hfrom hworld =>
    rw [hfrom, hworld]
    exact probeStep_recovery
  | release hfrom hto hinst _ _ =>
    exact .quiet (announces_of_mark hfrom (by decide)) (plain_silent hto) (by rw [hinst])
      (by rw [hinst]; exact id)
  | announce target hfrom hto hworld =>
    rw [hworld]
    exact .announce (decide_eq_true hfrom) (plain_silent (mark_goto hto)) rfl recoveries_recordStep

end Steps

/-! ## The invariant -/

/-- The flag is the failure that the next announcement owes. -/
structure PairingInv (v : Pairing N) : Prop where
  single : ∀ i j, (v.world.pc i).announces = true → (v.world.pc j).announces = true → i = j
  free : (∀ i, (v.world.pc i).announces = false) → v.world.inst.wasFailed = v.failed
  waiting : ∀ i, (v.world.pc i).announces = true →
    v.world.inst.wasFailed = v.owed i ∧ v.failed = false
  failed : v.world.inst.state = .failed → v.failed = true
  paired : Paired v

section Invariant

variable {cfg : Settings} {me : N} {v : Pairing N} {w' : World N} {i : Nat} {inp : Input}
  {e : Event N}

/-- A step that enters no FAILED and no READY, of a coroutine that has nothing to announce. -/
theorem PairingInv.quiet {u : Pairing N} (hv : PairingInv v)
    (hpc : ∀ j, (u.world.pc j).announces = (v.world.pc j).announces)
    (hflag : u.world.inst.wasFailed = v.world.inst.wasFailed)
    (hstate : u.world.inst.state = .failed → v.world.inst.state = .failed)
    (hfailed : u.failed = v.failed) (howed : u.owed = v.owed) (hreports : u.reports = v.reports) :
    PairingInv u where
  single i j hi hj := hv.single i j ((hpc i).symm.trans hi) ((hpc j).symm.trans hj)
  free hnone := by
    rw [hflag, hfailed]
    exact hv.free fun i => (hpc i).symm.trans (hnone i)
  waiting i hi := by
    rw [hflag, hfailed, howed]
    exact hv.waiting i ((hpc i).symm.trans hi)
  failed hs := by
    rw [hfailed]
    exact hv.failed (hstate hs)
  paired := by
    unfold Paired
    rw [hreports]
    exact hv.paired

theorem hasFailed_quiet (hstate : w'.inst.state = .failed → v.world.inst.state = .failed) :
    v.hasFailed w' = v.failed := by
  have hnot : ¬ (v.world.inst.state ≠ .failed ∧ w'.inst.state = .failed) :=
    fun h => h.1 (hstate h.2)
  rw [Pairing.hasFailed, decide_eq_false hnot, Bool.or_false]

/-- Nobody waits to announce a READY when FAILED is entered, or another READY. -/
theorem PairingInv.nobody [DecidableEq N] (hv : PairingInv v)
    (hG : Flagged cfg me v (.run i inp)) (h : step cfg me v.world (.run i inp) = some w')
    (hi : (v.world.pc i).announces = false)
    (hmoves : w'.inst.state = .failed ∨ (w'.pc i).announces = true) (j : Nat) :
    (v.world.pc j).announces = false := by
  by_contra hj
  have hj : (v.world.pc j).announces = true := Bool.eq_true_of_not_eq_false hj
  have hne : j ≠ i := by
    rintro rfl
    rw [hi] at hj
    cases hj
  obtain ⟨hto, hstate⟩ := hG.2 j hne hj w' h
  obtain hs | hready := hmoves
  · have hfailed := hv.failed (hstate hs)
    rw [(hv.waiting j hj).2] at hfailed
    cases hfailed
  · rw [hto] at hready
    cases hready

/-- The step of a coroutine. -/
theorem PairingInv.run [DecidableEq N] (hv : PairingInv v) (hG : Flagged cfg me v (.run i inp))
    (h : step cfg me v.world (.run i inp) = some w') : PairingInv (v.note (.run i inp) w') := by
  have hothers (j : Nat) (hj : j ≠ i) : w'.pc j = v.world.pc j := resume_pc_of_ne h hj
  cases (resume_resumed h).recovery with
  | quiet hfrom hto hflag hstate =>
    refine hv.quiet (fun j => ?_) hflag hstate ?_ ?_ ?_
    · show (w'.pc j).announces = _
      by_cases hj : j = i
      · rw [hj, hto, hfrom]
      · rw [hothers j hj]
    · simp only [Pairing.note, hto, Bool.not_false, Bool.true_and]
      exact hasFailed_quiet hstate
    · simp only [Pairing.note, hto, Bool.false_eq_true, if_false]
    · simp only [Pairing.note, hfrom, Bool.false_eq_true, if_false]
  | fail hfrom hto hflag hstate =>
    have hnobody := hv.nobody hG h hfrom (.inl hstate)
    have hnone (j : Nat) : (w'.pc j).announces = false := by
      by_cases hj : j = i
      · rw [hj, hto]
      · rw [hothers j hj]
        exact hnobody j
    have hfailed : (v.note (.run i inp) w').failed = true := by
      simp only [Pairing.note, hto, Bool.not_false, Bool.true_and, Pairing.hasFailed]
      by_cases hs : v.world.inst.state = .failed
      · simp [hv.failed hs]
      · simp [hs, hstate]
    have hset : w'.inst.wasFailed = true := by
      obtain hset | ⟨hpc, hsame⟩ := hflag
      · exact hset
      · rw [hsame]
        exact hG.1 hpc
    refine ⟨fun j k hj => ?_, fun _ => hset.trans hfailed.symm, fun j hj => ?_, fun _ => hfailed,
      ?_⟩
    · exact absurd hj (by rw [show (v.note (.run i inp) w').world = w' from rfl, hnone j]; simp)
    · exact absurd hj (by rw [show (v.note (.run i inp) w').world = w' from rfl, hnone j]; simp)
    · unfold Paired
      simp only [Pairing.note, hfrom, Bool.false_eq_true, if_false]
      exact hv.paired
  | ready hfrom hto hflag hstate =>
    have hnobody := hv.nobody hG h hfrom (.inr hto)
    have honly (j : Nat) (hj : (w'.pc j).announces = true) : j = i := by
      by_contra hne
      rw [hothers j hne, hnobody j] at hj
      cases hj
    have hfailed : (v.note (.run i inp) w').failed = false := by
      simp only [Pairing.note, hto, Bool.not_true, Bool.false_and]
    refine ⟨fun j k hj hk => (honly j hj).trans (honly k hk).symm, fun hnone => ?_, fun j hj => ?_,
      fun hs => ?_, ?_⟩
    · have hi := hnone i
      rw [show (v.note (.run i inp) w').world = w' from rfl, hto] at hi
      cases hi
    · obtain rfl := honly j hj
      refine ⟨?_, hfailed⟩
      simp only [Pairing.note, hto, if_true, Function.update_self]
      exact hflag.trans (hv.free hnobody)
    · rw [show (v.note (.run i inp) w').world = w' from rfl, hstate] at hs
      cases hs
    · unfold Paired
      simp only [Pairing.note, hfrom, Bool.false_eq_true, if_false]
      exact hv.paired
  | announce hfrom hto hinst halerts =>
    obtain ⟨howed, hclear⟩ := hv.waiting i hfrom
    have hnone (j : Nat) : (w'.pc j).announces = false := by
      by_cases hj : j = i
      · rw [hj, hto]
      · rw [hothers j hj]
        by_contra hwaits
        exact hj (hv.single j i (Bool.eq_true_of_not_eq_false hwaits) hfrom)
    have hnot : v.world.inst.state ≠ .failed := by
      intro hs
      rw [hv.failed hs] at hclear
      cases hclear
    have hstate : w'.inst.state = .failed → v.world.inst.state = .failed := by
      rw [hinst]
      exact id
    have hfailed : (v.note (.run i inp) w').failed = false := by
      simp only [Pairing.note, hto, Bool.not_false, Bool.true_and]
      rw [hasFailed_quiet hstate, hclear]
    have hflag : w'.inst.wasFailed = false := by rw [hinst]
    refine ⟨fun j k hj => ?_, fun _ => hflag.trans hfailed.symm, fun j hj => ?_, fun hs => ?_, ?_⟩
    · exact absurd hj (by rw [show (v.note (.run i inp) w').world = w' from rfl, hnone j]; simp)
    · exact absurd hj (by rw [show (v.note (.run i inp) w').world = w' from rfl, hnone j]; simp)
    · exact absurd (hstate hs) hnot
    · unfold Paired
      simp only [Pairing.note, hfrom, if_true, List.forall_mem_cons]
      refine ⟨?_, hv.paired⟩
      rw [halerts, Nat.add_sub_cancel, howed]

/-- **One step.** -/
theorem PairingInv.step [DecidableEq N] (hv : PairingInv v) (hG : Flagged cfg me v e)
    (h : step cfg me v.world e = some w') : PairingInv (v.note e w') := by
  have still {i : Nat} {target : Pc N} (hidle : v.world.pc i = .idle)
      (htarget : target.announces = false) (j : Nat) :
      ((v.world.goto i target).pc j).announces = (v.world.pc j).announces := by
    by_cases hj : j = i
    · rw [hj, World.goto_self, htarget, hidle]
      rfl
    · rw [World.goto_pc_of_ne _ _ hj]
  cases e with
  | request i op =>
    simp only [Node.step] at h
    split_ifs at h with hidle
    cases h
    exact hv.quiet (still hidle rfl) rfl id (hasFailed_quiet id) rfl rfl
  | pass i =>
    simp only [Node.step] at h
    split_ifs at h with hidle
    cases h
    exact hv.quiet (still hidle rfl) rfl id (hasFailed_quiet id) rfl rfl
  | replay i =>
    simp only [Node.step] at h
    split_ifs at h with hidle
    cases h
    exact hv.quiet (still hidle rfl) rfl id (hasFailed_quiet id) rfl rfl
  | run i inp => exact hv.run hG h
  | exit p =>
    simp only [Node.step] at h
    split_ifs at h
    cases h
    exact hv.quiet (fun _ => rfl) rfl id (hasFailed_quiet id) rfl rfl
  | clock now =>
    cases h
    exact hv.quiet (fun _ => rfl) rfl id (hasFailed_quiet id) rfl rfl
  | store rows =>
    cases h
    exact hv.quiet (fun _ => rfl) rfl id (hasFailed_quiet id) rfl rfl

end Invariant

/-- The instance has not failed since the registry was built. -/
structure NeverFailed (w : World N) : Prop where
  idle : ∀ i, w.pc i = .idle
  flag : w.inst.wasFailed = false
  state : w.inst.state ≠ .failed

/-- **Recovery alerts pair with failures** in every run in which no failed spawn misses the flag and
nothing comes between a READY and its announcement. -/
theorem paired_of_reach [DecidableEq N] {cfg : Settings} {me : N} {w₀ : World N} {v : Pairing N}
    (h₀ : NeverFailed w₀) (h : Reach (pairingStep cfg me) (Flagged cfg me) (.init w₀) v) :
    Paired v := by
  have hsilent (i : Nat) : (w₀.pc i).announces = false := by
    rw [h₀.idle i]
    rfl
  have hinit : PairingInv (.init w₀) := by
    refine ⟨fun i j hi => ?_, fun _ => h₀.flag, fun i hi => ?_, fun hs => absurd hs h₀.state,
      fun r hr => absurd hr List.not_mem_nil⟩
    · exact absurd ((hsilent i).symm.trans hi) (by simp)
    · exact absurd ((hsilent i).symm.trans hi) (by simp)
  have hv : PairingInv v := by
    refine h.invariant (I := PairingInv) hinit fun {a b e} ha hG he => ?_
    obtain ⟨w', hstep, rfl⟩ := Option.map_eq_some_iff.mp he
    exact ha.step hG hstep
  exact hv.paired

/-! ## A failed spawn -/

/-- The condition, where only the coroutines of a list are in use. -/
def flaggedAmong [DecidableEq N] (cfg : Settings) (me : N) (js : List Nat) (v : Pairing N) :
    Event N → Bool
  | .run i inp => (!(v.world.pc i).spawnFailed || v.world.inst.wasFailed) &&
    js.all fun j => j = i || !(v.world.pc j).announces ||
      (step cfg me v.world (.run i inp)).all fun w' =>
        !(w'.pc i).announces && (w'.inst.state ≠ .failed || v.world.inst.state = .failed)
  | _ => true

theorem along_flagged [DecidableEq N] {cfg : Settings} {me : N} {js : List Nat}
    {es : List (Event N)} {v : Pairing N} (hon : ∀ e ∈ es, ∀ i, e.on = some i → i ∈ js)
    (hidle : ∀ j, j ∉ js → v.world.pc j = .idle)
    (h : Along (pairingStep cfg me) (fun v e => flaggedAmong cfg me js v e = true) v es) :
    Along (pairingStep cfg me) (Flagged cfg me) v es := by
  induction es generalizing v with
  | nil => trivial
  | cons e es ih =>
    obtain ⟨hflagged, hrest⟩ := h
    refine ⟨?_, fun v' hv' => ?_⟩
    · cases e with
      | run i inp =>
        simp only [flaggedAmong, Bool.and_eq_true, List.all_eq_true] at hflagged
        refine ⟨fun hfail => by simpa [hfail] using hflagged.1, fun j hne hj w' hw' => ?_⟩
        by_cases hjs : j ∈ js
        · have hcheck := hflagged.2 j hjs
          rw [hw'] at hcheck
          simp only [hne, decide_false, Bool.false_or, hj, Bool.not_true, Option.all_some,
            Bool.and_eq_true, Bool.not_eq_true', Bool.or_eq_true, decide_eq_true_eq] at hcheck
          exact ⟨hcheck.1, fun hs => hcheck.2.resolve_left fun hnot => hnot hs⟩
        · rw [hidle j hjs] at hj
          cases hj
      | _ => trivial
    · obtain ⟨w', hstep, rfl⟩ := Option.map_eq_some_iff.mp hv'
      refine ih (fun e' he' => hon e' (List.mem_cons_of_mem _ he')) (fun j hj => ?_)
        (hrest _ hv')
      have hworld : (v.note e w').world = w' := by
        cases e <;> rfl
      rw [hworld, step_pc_of_ne hstep fun heq => hj (hon e List.mem_cons_self j heq)]
      exact hidle j hj

/-- A pass that finds the instance up, on its own coroutine. -/
def passReady (i : Nat) : List (Event Unit) := [.pass i, .go i, .go i, .go i]

/-- The model comes up, crashes, and is started again. -/
def crashAndRecover : List (Event Unit) :=
  startEvents 0 ++ passReady 1 ++ [.exit 0, .pass 2, .go 2, .go 2] ++ startEvents 3 ++ passReady 4

/-- The crash is followed by one alert, the first READY by none. -/
theorem paired_crash : ∃ v, run (pairingStep {} ()) (.init bootWorld) crashAndRecover = some v ∧
    v.reports = [(true, 1), (false, 0)] ∧ Paired v := by
  have hany : (run (pairingStep {} ()) (.init bootWorld) crashAndRecover).any (fun v =>
      v.reports = [(true, 1), (false, 0)]) = true := by decide +kernel
  obtain ⟨v, hrun, hv⟩ := (Option.any_eq_true _ _).mp hany
  have halong : Along (pairingStep {} ())
      (fun v e => flaggedAmong {} () [0, 1, 2, 3, 4] v e = true) (.init bootWorld)
      crashAndRecover := by decide +kernel
  have hon : ∀ e ∈ crashAndRecover, ∀ i, e.on = some i → i ∈ [0, 1, 2, 3, 4] := by
    simp [crashAndRecover, startEvents, passReady, Event.on, Event.go]
  exact ⟨v, hrun, of_decide_eq_true hv, paired_of_reach ⟨fun _ => rfl, rfl, by rintro ⟨⟩⟩
    (Reach.of_guarded_run hrun (along_flagged hon (fun _ _ => rfl) halong))⟩

/-- The first spawn fails, and the second start comes up. -/
def spawnFailsFirst : List (Event Unit) :=
  [.request 0 .start, .run 0 { spec := some sampleSpec }, .go 0, .run 0 { ok := false }, .go 0,
    .go 0] ++ startEvents 1 ++ passReady 2

/-- **A recovery that is not alerted**: the failure of the spawn was. -/
theorem unannounced : ∃ v, Reach (pairingStep {} ()) anyEvent (.init bootWorld) v ∧
    v.world.alerts.map (·.event) = [.modelFailed] ∧ ¬ Paired v := by
  have hany : (run (pairingStep {} ()) (.init bootWorld) spawnFailsFirst).any (fun v =>
      v.world.alerts.map (·.event) = [.modelFailed] ∧ v.reports = [(true, 0)]) = true := by
    decide +kernel
  obtain ⟨v, hrun, hv⟩ := (Option.any_eq_true _ _).mp hany
  obtain ⟨halerts, hreports⟩ := of_decide_eq_true hv
  refine ⟨v, Reach.of_run hrun, halerts, fun hpaired => ?_⟩
  have hnone := hpaired (true, 0) (by rw [hreports]; exact List.mem_cons_self)
  cases hnone

end Llmops.Node
