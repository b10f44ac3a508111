import Llmops.Node.Ownership
import Llmops.Node.Resume

/-!
# Startup timeouts against the log

`_reconcile_instance` fails a STARTING instance after `start_timeout` seconds without progress of
its log (`reconciler.py:125-150`). `start` resets what was read of the log under the lock
(`manager.py:468-484`), and `spawn_process` truncates the file later, in a thread
(`process.py:56-82`). A pass in between reads the log of the run before, and from then on ignores
the new one below that size.

A `Startup` keeps beside the world the size of the log, whether it is the current run's already, and
what the passes of the run have read of its log.

* `Resumed.starting`: what one step does to the progress of a STARTING instance;
* `startupSound_of_reach`: while no pass reads what the run before has left, a timeout comes more
  than `start_timeout` seconds after every pass that could see progress;
* `leftover_hides`: a pass reads the old log, and the growing new one is timed out.
-/

namespace Llmops.Node

open Llmops.Lib

variable {N : Type*}

/-- The coroutine waits for the pre-flight checks of a start. -/
def Pc.preflights : Pc N → Bool
  | .startPreflight _ _ => true
  | _ => false

/-- The coroutine waits for `spawn_process`. -/
def Pc.spawns (pc : Pc N) : Bool := pc.mark = .spawn

/-- The coroutine waits for a probe. -/
def Pc.probes (pc : Pc N) : Bool := pc.mark = .probe

/-- What happens to a node and to the log: `spawn_process` opens it for writing, and it grows. -/
inductive LogEvent (N : Type*) where
  | node (e : Event N)
  | truncate
  | grow (bytes : Nat)

/-- A node and the log of the instance. `fresh` is a log that the current run's `spawn_process` has
truncated; `seen` is what the passes of the run could see of its log, newest first; `timeouts` are
the startup timeouts, with what had been seen. -/
structure Startup (N : Type*) where
  world : World N
  log : Option Nat := none
  spawning : Bool := false
  fresh : Bool := false
  seen : List (Time × Nat) := []
  timeouts : List (Time × List (Time × Nat)) := []

namespace Startup

/-- What a pass reads is the size of the file, if it can be read; and a spawn that succeeds has
truncated it. -/
def allows (v : Startup N) : Event N → Bool
  | .run i inp =>
    (!(v.world.pc i).probes || inp.size = none || inp.size = v.log) &&
      (!(v.world.pc i).spawns || !inp.ok || v.fresh)
  | _ => true

/-- What a pass that has read a size could see of the current run's log. -/
def look (v : Startup N) : Option Nat → List (Time × Nat)
  | none => v.seen
  | some n => (v.world.clock, if v.fresh then n else 0) :: v.seen

/-- The probe of a STARTING instance has failed. -/
def looks (v : Startup N) (i : Nat) (inp : Input) : Bool :=
  (v.world.pc i).probes && decide (v.world.inst.state = .starting) && !inp.ok

def note (v : Startup N) (e : Event N) (w' : World N) : Startup N :=
  match e with
  | .run i inp =>
    if (w'.pc i).spawns then { v with world := w', spawning := true, fresh := false, seen := [] }
    else if v.looks i inp then
      { v with
        world := w'
        seen := v.look inp.size
        timeouts :=
          if w'.inst.state = .failed then (v.world.clock, v.look inp.size) :: v.timeouts
          else v.timeouts }
    else { v with world := w', spawning := v.spawning && !(v.world.pc i).spawns }
  | _ => { v with world := w' }

end Startup

def startupStep [DecidableEq N] (cfg : Settings) (me : N) (v : Startup N) :
    LogEvent N → Option (Startup N)
  | .node e => if v.allows e then (step cfg me v.world e).map (v.note e) else none
  | .truncate =>
    if v.spawning && !v.fresh then some { v with log := some 0, fresh := true } else none
  | .grow bytes => some { v with log := v.log.map (· + bytes) }

/-- A pass could see the log of the run longer than every earlier pass of the run. -/
def Advanced (seen : List (Time × Nat)) (t : Time) : Prop :=
  ∃ later n earlier, seen = later ++ (t, n) :: earlier ∧ 0 < n ∧ ∀ p ∈ earlier, p.2 < n

/-- **Startup timeouts are sound**: none comes within `start_timeout` seconds of a pass that could
see progress. -/
def StartupSound (cfg : Settings) (v : Startup N) : Prop :=
  ∀ r ∈ v.timeouts, ∀ t, Advanced r.2 t → cfg.startTimeout < r.1 - t

/-- One start at a time, and time does not go back. -/
def OneStart (v : Startup N) : LogEvent N → Prop
  | .node (.run i _) => (v.world.pc i).preflights = true → v.spawning = false
  | .node (.clock now) => v.world.clock ≤ now
  | _ => True

/-- No pass reads a size of the log that the run before has left. -/
def ReadsOwnLog (v : Startup N) : LogEvent N → Prop
  | .node (.run i inp) => v.looks i inp = true → v.fresh = false → inp.size.getD 0 = 0
  | _ => True

/-! ## What one step does to the progress -/

/-- What the progress of a STARTING instance is read from is kept. -/
def KeepsProgress (inst inst' : ModelInstance) : Prop :=
  inst'.state = .starting → inst.state = .starting ∧ inst'.lastLogSize = inst.lastLogSize ∧
    inst'.lastProgressAt = inst.lastProgressAt

theorem KeepsProgress.of_eq {inst inst' : ModelInstance} (h : inst' = inst) :
    KeepsProgress inst inst' := by
  rw [h]
  exact fun hs => ⟨hs, rfl, rfl⟩

theorem KeepsProgress.of_state {inst inst' : ModelInstance} (h : inst'.state ≠ .starting) :
    KeepsProgress inst inst' := fun hs => absurd hs h

theorem SectionChange.keepsProgress {inst inst' : ModelInstance} (h : SectionChange inst inst') :
    KeepsProgress inst inst' := by
  cases h with
  | down _ _ s hs =>
    refine .of_state ?_
    obtain rfl | rfl := hs
    · rintro ⟨⟩
    · rintro ⟨⟩
  | slept => exact .of_state (by rintro ⟨⟩)
  | _ => exact fun hs => ⟨hs, rfl, rfl⟩

/-- A step of coroutine `i`, as the progress of a STARTING instance sees it. -/
inductive StartingStep (cfg : Settings) (w : World N) (i : Nat) (inp : Input) (pc : Pc N)
    (w' : World N) : Prop
  | other (hprobe : pc.probes = false) (hto : (w'.pc i).spawns = false)
      (hclock : w'.clock = w.clock) (hkept : KeepsProgress w.inst w'.inst)
  | admitted (hprobe : pc.probes = false) (hto : (w'.pc i).spawns = true) (hclock : w'.clock = w.clock)
      (hsize : w'.inst.lastLogSize = 0) (hsince : w'.inst.lastProgressAt = some w.clock)
  | probe (hprobe : pc.probes = true) (hto : (w'.pc i).spawns = false) (hclock : w'.clock = w.clock)
      (hinst : w'.inst = (reconcileProbe cfg w.inst inp.ok inp.size w.clock).1)

section Steps

variable {cfg : Settings} {me : N} {w w' : World N} {i : Nat} {inp : Input} {pc : Pc N}

theorem spawns_of_mark {m : Mark} (h : pc.mark = m) (hm : m ≠ .spawn) : pc.spawns = false := by
  unfold Pc.spawns
  rw [h]
  exact decide_eq_false hm

theorem probes_of_mark {m : Mark} (h : pc.mark = m) (hm : m ≠ .probe) : pc.probes = false := by
  unfold Pc.probes
  rw [h]
  exact decide_eq_false hm

theorem probeStep_starting : StartingStep cfg w i inp .passProbe (probeStep cfg w i inp) := by
  obtain ⟨hinst, -, hpc⟩ := probeStep_eq cfg w i inp
  refine .probe rfl ?_ ?_ hinst
  · obtain h | ⟨target, h⟩ := hpc <;> rw [h]
    · rfl
    · unfold Pc.spawns Pc.mark
      dsimp only
      split_ifs <;> rfl
  · unfold probeStep
    obtain ⟨inst, tr, kill⟩ := reconcileProbe cfg w.inst inp.ok inp.size w.clock
    cases kill <;> rfl

/-- **One step of a coroutine.** -/
theorem Resumed.starting (h : Resumed cfg w i inp pc w') : StartingStep cfg w i inp pc w' := by
  have silent {pc : Pc N} (hpc : pc.mark = .plain) : pc.probes = false :=
    probes_of_mark hpc (by decide)
  have plain {pc : Pc N} (hpc : pc.mark = .plain) : pc.spawns = false :=
    spawns_of_mark hpc (by decide)
  cases h with
  | move hfrom hto hinst _ hclock =>
    refine .other ?_ ?_ hclock (.of_eq hinst)
    · obtain hfrom | hfrom := hfrom
      · exact silent hfrom
      · exact probes_of_mark hfrom (by decide)
    · obtain hto | hto := hto
      · exact plain hto
      · exact spawns_of_mark hto (by decide)
  | change hfrom hto _ hchange _ hclock =>
    exact .other (silent hfrom) (plain hto) hclock hchange.keepsProgress
  | admitted spec reset hfrom hto _ hstart _ hclock =>
    obtain ⟨-, -, hinst⟩ := startSection_eq_ok hstart
    exact .admitted (silent hfrom) (decide_eq_true hto) hclock (by rw [hinst]) (by rw [hinst])
  | unspawned hfrom hto _ hinst _ hclock =>
    refine .other (probes_of_mark hfrom (by decide)) (plain hto) hclock (.of_state ?_)
    rw [hinst]
    rintro ⟨⟩
  | woken hfrom hto _ hinst _ hclock =>
    refine .other (silent hfrom) (spawns_of_mark hto (by decide)) hclock (.of_state ?_)
    rw [hinst]
    rintro ⟨⟩
  | exit tr hfrom hto _ hexit _ hclock =>
    refine .other (by rw [hfrom]; rfl) (plain hto) hclock (.of_state ?_)
    obtain ⟨p, -, -, -, ⟨-, hinst, -⟩ | ⟨-, -, t, hinst⟩⟩ := reconcileExit_eq_some hexit <;>
      rw [hinst] <;> rintro ⟨⟩
  | holdProbe hfrom hto _ hinst _ hclock =>
    exact .other (by rw [hfrom]; rfl) (by rw [hto]; rfl) hclock (.of_eq hinst)
  | holdStop hfrom hto _ hchange _ hclock =>
    exact .other (silent hfrom) (spawns_of_mark hto (by decide)) hclock hchange.keepsProgress
  | probe hfrom hworld =>
    rw [hfrom, hworld]
    exact probeStep_starting
  | release hfrom hto hinst _ hclock =>
    exact .other (probes_of_mark hfrom (by decide)) (plain hto) hclock (.of_eq hinst)
  | announce target hfrom hto hworld =>
    rw [hworld]
    refine .other (probes_of_mark hfrom (by decide)) (plain (mark_goto hto)) rfl ?_
    exact fun hs => ⟨hs, rfl, rfl⟩

end Steps

/-! ## The progress of a run -/

theorem advanced_cons {p : Time × Nat} {seen : List (Time × Nat)} {t : Time}
    (h : Advanced (p :: seen) t) :
    (t = p.1 ∧ 0 < p.2 ∧ ∀ q ∈ seen, q.2 < p.2) ∨ Advanced seen t := by
  obtain ⟨later, n, earlier, hseen, hpos, hlt⟩ := h
  cases later with
  | nil =>
    obtain ⟨rfl, rfl⟩ := List.cons.inj hseen
    exact .inl ⟨rfl, hpos, hlt⟩
  | cons q later =>
    obtain ⟨-, rfl⟩ := List.cons.inj hseen
    exact .inr ⟨later, n, earlier, rfl, hpos, hlt⟩

theorem not_advanced_nil {t : Time} : ¬ Advanced [] t := by
  rintro ⟨later, n, earlier, hseen, -⟩
  simp at hseen

/-- The record of a STARTING instance has noted all progress that its passes could see. -/
def Progressed (inst : ModelInstance) (clock : Time) (seen : List (Time × Nat)) : Prop :=
  ∃ since, inst.lastProgressAt = some since ∧ since ≤ clock ∧ (∀ t, Advanced seen t → t ≤ since) ∧
    (inst.lastLogSize = 0 ∨ ∃ p ∈ seen, p.2 = inst.lastLogSize)

section Progress

variable {cfg : Settings} {inst inst' : ModelInstance} {clock now : Time} {seen : List (Time × Nat)}
  {size : Option Nat}

theorem Progressed.keep (h : Progressed inst clock seen) (hsize : inst'.lastLogSize = inst.lastLogSize)
    (hsince : inst'.lastProgressAt = inst.lastProgressAt) (hclock : clock ≤ now) :
    Progressed inst' now seen := by
  obtain ⟨since, hat, hle, hadvanced, hlast⟩ := h
  refine ⟨since, hsince.trans hat, hle.trans hclock, hadvanced, ?_⟩
  rw [hsize]
  exact hlast

/-- A pass that reads the log of the run notes what it could see. -/
theorem Progressed.read (h : Progressed inst clock seen) (n : Nat) :
    Progressed (noteProgress inst (some n) clock) clock ((clock, n) :: seen) := by
  obtain ⟨since, hat, hle, hadvanced, hlast⟩ := h
  unfold noteProgress logSize
  simp only [Option.getD_some]
  by_cases hlt : inst.lastLogSize < n
  · rw [if_pos hlt]
    refine ⟨clock, rfl, le_refl clock, fun t ht => ?_, .inr ⟨_, List.mem_cons_self, rfl⟩⟩
    obtain ⟨rfl, -, -⟩ | ht := advanced_cons ht
    · exact le_refl _
    · exact (hadvanced t ht).trans hle
  · rw [if_neg hlt]
    refine ⟨since, hat, hle, fun t ht => ?_, ?_⟩
    · obtain ⟨-, hpos, hnew⟩ | ht := advanced_cons ht
      · obtain hzero | ⟨p, hp, hsize⟩ := hlast
        · omega
        · have hless := hnew p hp
          omega
      · exact hadvanced t ht
    · exact hlast.imp id fun ⟨p, hp, hsize⟩ => ⟨p, List.mem_cons_of_mem _ hp, hsize⟩

theorem noteProgress_unread : noteProgress inst none clock = inst :=
  if_neg (Nat.lt_irrefl _)

/-- A timeout comes more than `start_timeout` seconds after all progress that was noted. -/
theorem Progressed.sound (h : Progressed (noteProgress inst size clock) clock seen)
    (hout : TimedOut cfg inst size clock) {t : Time} (ht : Advanced seen t) :
    cfg.startTimeout < clock - t := by
  obtain ⟨since, hat, -, hadvanced, -⟩ := h
  have hidle : idleSince (noteProgress inst size clock) clock = since := by
    unfold idleSince
    rw [hat]
    rfl
  unfold TimedOut at hout
  rw [hidle] at hout
  linarith [hadvanced t ht]

/-- A probe that fails: the timeout, or the progress is noted. -/
theorem reconcileProbe_starting (cfg : Settings) (size : Option Nat) (clock : Time)
    (hs : inst.state = .starting) :
    (TimedOut cfg inst size clock ∧
      (reconcileProbe cfg inst false size clock).1.state = .failed) ∨
    (reconcileProbe cfg inst false size clock).1 = noteProgress inst size clock := by
  unfold reconcileProbe
  rw [if_pos hs, if_neg (by simp)]
  by_cases hout : cfg.startTimeout < clock - idleSince (noteProgress inst size clock) clock
  · refine .inl ⟨hout, ?_⟩
    dsimp only
    rw [if_pos hout]
    obtain ⟨t, ht⟩ := maybeScheduleRestart_eq cfg
      { noteProgress inst size clock with proc := none, state := .failed, wasFailed := true } clock
    rw [ht]
  · refine .inr ?_
    dsimp only
    rw [if_neg hout]

end Progress

/-! ## The invariant -/

structure StartupInv (cfg : Settings) (v : Startup N) : Prop where
  progress : v.world.inst.state = .starting → Progressed v.world.inst v.world.clock v.seen
  sound : StartupSound cfg v

section Invariant

variable {cfg : Settings} {me : N} {v v' : Startup N} {w' : World N} {i : Nat} {inp : Input}
  {e : LogEvent N}

theorem KeepsProgress.progress {inst inst' : ModelInstance} (hkept : KeepsProgress inst inst')
    {clock now : Time} {seen : List (Time × Nat)}
    (h : inst.state = .starting → Progressed inst clock seen) (hclock : clock ≤ now)
    (hs : inst'.state = .starting) : Progressed inst' now seen := by
  obtain ⟨hstate, hsize, hsince⟩ := hkept hs
  exact (h hstate).keep hsize hsince hclock

/-- An event after which the record, for its progress, is as before. -/
theorem StartupInv.quiet (hv : StartupInv cfg v) (hkept : KeepsProgress v.world.inst v'.world.inst)
    (hclock : v.world.clock ≤ v'.world.clock) (hseen : v'.seen = v.seen)
    (htimeouts : v'.timeouts = v.timeouts) : StartupInv cfg v' where
  progress hs := by
    rw [hseen]
    exact hkept.progress hv.progress hclock hs
  sound := by
    unfold StartupSound
    rw [htimeouts]
    exact hv.sound

/-- What a pass sees of the run's own log is what it reads. -/
theorem look_progressed (h : Progressed v.world.inst v.world.clock v.seen) {size : Option Nat}
    (hown : v.fresh = false → size.getD 0 = 0) :
    Progressed (noteProgress v.world.inst size v.world.clock) v.world.clock (v.look size) := by
  cases size with
  | none =>
    rw [noteProgress_unread]
    exact h
  | some n =>
    have hsize : (if v.fresh then n else 0) = n := by
      cases hfresh : v.fresh with
      | true => rfl
      | false => exact (hown hfresh).symm
    unfold Startup.look
    dsimp only
    rw [hsize]
    exact h.read n

/-- A failed probe of a STARTING instance. -/
theorem StartupInv.look (hv : StartupInv cfg v) (hs : v.world.inst.state = .starting)
    {size : Option Nat} (hown : v.fresh = false → size.getD 0 = 0)
    (hclock : w'.clock = v.world.clock)
    (hinst : w'.inst = (reconcileProbe cfg v.world.inst false size v.world.clock).1) :
    StartupInv cfg { v with
      world := w'
      seen := v.look size
      timeouts :=
        if w'.inst.state = .failed then (v.world.clock, v.look size) :: v.timeouts
        else v.timeouts } := by
  have hlook := look_progressed (hv.progress hs) hown
  obtain ⟨hout, hfailed⟩ | hnote :=
    reconcileProbe_starting cfg size v.world.clock hs
  · rw [← hinst] at hfailed
    refine ⟨fun hstarting => ?_, ?_⟩
    · have hstarting : w'.inst.state = .starting := hstarting
      rw [hfailed] at hstarting
      cases hstarting
    · unfold StartupSound
      simp only [hfailed, if_true, List.forall_mem_cons]
      exact ⟨fun t ht => hlook.sound hout ht, hv.sound⟩
  · rw [hnote] at hinst
    have hstate : w'.inst.state = .starting := by
      obtain ⟨n, t, h⟩ := noteProgress_eq v.world.inst size v.world.clock
      rw [hinst, h]
      exact hs
    refine ⟨fun _ => ?_, ?_⟩
    · show Progressed w'.inst w'.clock (v.look size)
      rw [hinst, hclock]
      exact hlook
    · unfold StartupSound
      simp only [hstate, reduceCtorEq, if_false]
      exact hv.sound

/-- The step of a coroutine. -/
theorem StartupInv.run [DecidableEq N] (hv : StartupInv cfg v)
    (hG : ReadsOwnLog v (.node (.run i inp)))
    (h : step cfg me v.world (.run i inp) = some w') :
    StartupInv cfg (v.note (.run i inp) w') := by
  unfold Startup.note
  cases (resume_resumed h).starting with
  | other hprobe hto hclock hkept =>
    have hlooks : v.looks i inp = false := by
      unfold Startup.looks
      rw [hprobe]
      rfl
    simp only [hto, hlooks, Bool.false_eq_true, if_false]
    exact hv.quiet hkept hclock.ge rfl rfl
  | admitted _ hto hclock hsize hsince =>
    simp only [hto, if_true]
    refine ⟨fun _ => ?_, hv.sound⟩
    exact ⟨_, hsince, hclock.ge, fun t ht => absurd ht not_advanced_nil, .inl hsize⟩
  | probe hprobe hto hclock hinst =>
    simp only [hto, Bool.false_eq_true, if_false]
    by_cases hlooks : v.looks i inp = true
    · rw [if_pos hlooks]
      have hown := hG hlooks
      simp only [Startup.looks, Bool.and_eq_true, decide_eq_true_eq, Bool.not_eq_true'] at hlooks
      obtain ⟨⟨-, hs⟩, hok⟩ := hlooks
      rw [hok] at hinst
      exact hv.look hs hown hclock hinst
    · rw [if_neg hlooks]
      refine hv.quiet ?_ hclock.ge rfl rfl
      show KeepsProgress v.world.inst w'.inst
      rw [hinst]
      unfold reconcileProbe
      by_cases hs : v.world.inst.state = .starting
      · have hok : inp.ok = true := by
          simpa [Startup.looks, hprobe, hs] using hlooks
        rw [if_pos hs, if_pos hok]
        exact .of_state (by rintro ⟨⟩)
      · rw [if_neg hs]
        exact .of_eq rfl

/-- **One step.** -/
theorem StartupInv.step [DecidableEq N] (hv : StartupInv cfg v)
    (hG : OneStart v e ∧ ReadsOwnLog v e) (h : startupStep cfg me v e = some v') :
    StartupInv cfg v' := by
  cases e with
  | truncate =>
    simp only [startupStep] at h
    split_ifs at h
    cases h
    exact hv.quiet (.of_eq rfl) le_rfl rfl rfl
  | grow bytes =>
    cases h
    exact hv.quiet (.of_eq rfl) le_rfl rfl rfl
  | node e =>
    simp only [startupStep] at h
    split_ifs at h
    obtain ⟨w', hstep, rfl⟩ := Option.map_eq_some_iff.mp h
    cases e with
    | run i inp => exact hv.run hG.2 hstep
    | clock now =>
      cases hstep
      exact hv.quiet (.of_eq rfl) hG.1 rfl rfl
    | store rows =>
      cases hstep
      exact hv.quiet (.of_eq rfl) le_rfl rfl rfl
    | _ =>
      simp only [Node.step] at hstep
      split_ifs at hstep
      cases hstep
      exact hv.quiet (.of_eq rfl) le_rfl rfl rfl

end Invariant

/-- **Startup timeouts are sound** in every run in which no pass reads what the run before has left
in the log, with one start at a time. -/
theorem startupSound_of_reach [DecidableEq N] {cfg : Settings} {me : N} {w₀ : World N}
    {log : Option Nat} {v : Startup N} (hs : w₀.inst.state ≠ .starting)
    (h : Reach (startupStep cfg me) (fun v e => OneStart v e ∧ ReadsOwnLog v e)
      { world := w₀, log := log } v) : StartupSound cfg v := by
  have hinit : StartupInv cfg ({ world := w₀, log := log } : Startup N) :=
    ⟨fun hstarting => absurd hstarting hs, fun r hr => absurd hr List.not_mem_nil⟩
  exact (h.invariant (I := StartupInv cfg) hinit fun ha hG he => ha.step hG he).sound

/-! ## A log that the run before has left -/

instance decidableOneStart (v : Startup N) : ∀ e, Decidable (OneStart v e)
  | .node (.run i _) =>
    inferInstanceAs (Decidable ((v.world.pc i).preflights = true → v.spawning = false))
  | .node (.clock now) => inferInstanceAs (Decidable (v.world.clock ≤ now))
  | .node (.request ..) | .node (.pass _) | .node (.replay _) | .node (.exit _) | .node (.store _)
  | .truncate | .grow _ => isTrue trivial

instance decidableReadsOwnLog (v : Startup N) : ∀ e, Decidable (ReadsOwnLog v e)
  | .node (.run i inp) =>
    inferInstanceAs (Decidable (v.looks i inp = true → v.fresh = false → inp.size.getD 0 = 0))
  | .node (.clock _) | .node (.request ..) | .node (.pass _) | .node (.replay _) | .node (.exit _)
  | .node (.store _) | .truncate | .grow _ => isTrue trivial

/-- The instance before a start, with the log of the run before. -/
def leftLog : Startup Unit := { world := bootWorld, log := some 1000 }

/-- A start, up to its `spawn_process`. -/
def admitEvents : List (LogEvent Unit) :=
  [.node (.request 0 .start), .node (.run 0 { spec := some sampleSpec }), .node (.go 0)]

/-- `spawn_process`, and the store of the process. -/
def spawnEvents : List (LogEvent Unit) := [.truncate, .node (.go 0), .node (.go 0)]

/-- A pass at a time, whose probe fails and which reads a size. -/
def passReads (now : Time) (size : Nat) : List (LogEvent Unit) :=
  [.node (.clock now), .node (.pass 1), .node (.go 1),
    .node (.run 1 { ok := false, size := some size })] ++ List.replicate 5 (.node (.go 1))

/-- The log stops growing, and 301 seconds after the last pass that saw it grow the start is given
up. -/
def stalls : List (LogEvent Unit) :=
  admitEvents ++ spawnEvents ++ [.grow 10] ++ passReads 200 10 ++ passReads 501 10

theorem startupSound_stalls : ∃ v, run (startupStep {} ()) leftLog stalls = some v ∧
    v.timeouts = [(501, [(501, 10), (200, 10)])] ∧ StartupSound {} v := by
  have halong : Along (startupStep {} ()) (fun v e => OneStart v e ∧ ReadsOwnLog v e) leftLog
      stalls := by decide +kernel
  have hany : (run (startupStep {} ()) leftLog stalls).any (fun v =>
      v.timeouts = [(501, [(501, 10), (200, 10)])]) = true := by decide +kernel
  obtain ⟨v, hrun, hv⟩ := (Option.any_eq_true _ _).mp hany
  exact ⟨v, hrun, of_decide_eq_true hv,
    startupSound_of_reach (by rintro ⟨⟩) (Reach.of_guarded_run hrun halong)⟩

/-- A pass comes before the truncation, and the log keeps growing. -/
def hides : List (LogEvent Unit) :=
  admitEvents ++ passReads 1 1000 ++ spawnEvents ++ [.grow 10] ++ passReads 200 10 ++ [.grow 10] ++
    passReads 302 20

/-- **A log left over hides the progress**: the start is given up at the pass that sees the log grow
for the second time. -/
theorem leftover_hides : ∃ v, Reach (startupStep {} ()) OneStart leftLog v ∧
    v.timeouts = [(302, [(302, 20), (200, 10), (1, 0)])] ∧ ¬ StartupSound {} v := by
  have halong : Along (startupStep {} ()) OneStart leftLog hides := by decide +kernel
  have hany : (run (startupStep {} ()) leftLog hides).any (fun v =>
      v.timeouts = [(302, [(302, 20), (200, 10), (1, 0)])]) = true := by decide +kernel
  obtain ⟨v, hrun, hv⟩ := (Option.any_eq_true _ _).mp hany
  have htimeouts := of_decide_eq_true hv
  refine ⟨v, Reach.of_guarded_run hrun halong, htimeouts, fun hsound => ?_⟩
  have hgrown : Advanced [(302, 20), (200, 10), (1, 0)] 302 :=
    ⟨[], 20, [(200, 10), (1, 0)], rfl, by decide, by simp⟩
  have hlate := hsound (302, [(302, 20), (200, 10), (1, 0)])
    (by rw [htimeouts]; exact List.mem_cons_self) 302 hgrown
  norm_num at hlate

end Llmops.Node
