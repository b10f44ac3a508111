import Llmops.Node.Ownership
import Llmops.Node.Resume

/-!
# A sleep or wake call against what happens while its request is out

`sleep` and `wake` (`manager.py:559-638`) check the state under the lock, send their HTTP request
without it, and write under the lock again: the target state when the request succeeded, the
desired state of before when it failed. Neither write looks at the record again.

A `Nap` keeps beside the world, for the call of coroutine `o`, the record that it found, whether
another step has taken the instance out of the state in which the call accepted it (`left`) or has
changed state or desired at all (`raced`), and what the call wrote. All other coroutines, exits,
time and other replicas are free.

* `respects_of_reach`: when a call whose request returns after the instance has left finds what it
  writes there already, and one that raced with nothing had found the desired state that it restores,
  the call respects what happened meanwhile;
* `stopped_then_wanted`: a stop runs while a sleep is out, and the failed request makes the stopped
  instance wanted again.
-/

namespace Llmops

/-- The two calls that wait for an HTTP request. -/
inductive NapOp where
  | sleep | wake
  deriving DecidableEq, Repr

namespace NapOp

def op : NapOp → Op
  | .sleep => .sleep
  | .wake => .wake

/-- The state in which the call is accepted. -/
def accepts : NapOp → ModelState
  | .sleep => .ready
  | .wake => .sleeping

/-- The state that a successful call writes. -/
def commits : NapOp → ModelState
  | .sleep => .sleeping
  | .wake => .ready

/-- The desired state that a failed call writes. -/
def restores : NapOp → Desired
  | .sleep => .running
  | .wake => .asleep

end NapOp

end Llmops

namespace Llmops.Node

open Llmops.Lib

variable {N : Type*}

/-- The call before its first locked section. -/
def Pc.locks : Pc N → Option NapOp
  | .sleepLock _ => some .sleep
  | .wakeLock _ => some .wake
  | _ => none

/-- The call while its request is out. -/
def Pc.posts : Pc N → Option NapOp
  | .sleepPost _ => some .sleep
  | .wakePost _ => some .wake
  | _ => none

/-- The end of a request: what the call had found, and its record before and after the write. -/
structure Answer where
  ok : Bool
  left : Bool
  raced : Bool
  found : Option ModelInstance
  before : ModelInstance
  after : ModelInstance

/-- A node, and what has happened to the call of one coroutine. `rows` are its writes of the
persisted desired state, before and after. -/
structure Nap (N : Type*) where
  world : World N
  found : Option ModelInstance := none
  left : Bool := false
  raced : Bool := false
  answers : List Answer := []
  rows : List (Option Desired × Option Desired) := []

namespace Nap

def init (w : World N) : Nap N := { world := w }

/-- Another coroutine, or the environment, has moved. -/
def noteOther (v : Nap N) (o : Nat) (w' : World N) : Nap N :=
  match (v.world.pc o).posts with
  | none => { v with world := w' }
  | some op => { v with
      world := w'
      left := v.left || decide (w'.inst.state ≠ op.accepts)
      raced := v.raced || decide (w'.inst.state ≠ v.world.inst.state ∨
        w'.inst.desired ≠ v.world.inst.desired) }

/-- The call has moved. -/
def noteOwn (v : Nap N) (o : Nat) (ok : Bool) (w' : World N) : Nap N :=
  match v.world.pc o with
  | .sleepPost _ | .wakePost _ => { v with
      world := w'
      answers := ⟨ok, v.left, v.raced, v.found, v.world.inst, w'.inst⟩ :: v.answers }
  | .persistRow _ _ => { v with
      world := w'
      rows := (v.world.store.desired, w'.store.desired) :: v.rows }
  | _ => { v with
      world := w'
      found := if (w'.pc o).posts.isSome then some v.world.inst else v.found }

def note (v : Nap N) (o : Nat) (e : Event N) (w' : World N) : Nap N :=
  match e with
  | .run i inp => if i = o then v.noteOwn o inp.ok w' else v.noteOther o w'
  | _ => v.noteOther o w'

end Nap

def napStep [DecidableEq N] (cfg : Settings) (me : N) (o : Nat) (v : Nap N) (e : Event N) :
    Option (Nap N) :=
  (step cfg me v.world e).map (v.note o e)

/-- The coroutine of the call makes no other. -/
def OneCall (o : Nat) : Event N → Prop
  | .request i _ | .pass i | .replay i => i ≠ o
  | .run _ _ | .exit _ | .clock _ | .store _ => True

/-- The record is managed and looks as if its process served or slept, and has none. -/
def Hollow (inst : ModelInstance) : Prop :=
  inst.managed = true ∧ (inst.state = .sleeping ∨ inst.state = .ready) ∧ inst.proc = none

/-- A request may return, with or without success. When no other step has changed state or desired, a
failed call had found the desired state that it restores. When one has taken the instance out of the
accepted state, the state, or the desired state, that the call writes is there already. -/
structure MayReturn (op : NapOp) (ok : Bool) (v : Nap N) : Prop where
  restores : ok = false → v.raced = false → ∀ f ∈ v.found, f.desired = op.restores
  committed : v.left = true → ok = true → v.world.inst.state = op.commits
  reverted : v.left = true → ok = false → v.world.inst.desired = op.restores
  solid : v.left = true → ¬ Hollow v.world.inst

/-- The call is not accepted for a hollow record, its request returns as it may, and when the instance
had left the accepted state by then, the row that it writes is there already. -/
def NapHarmless (o : Nat) (v : Nap N) : Event N → Prop
  | .run i inp => i = o →
    (∀ op, (v.world.pc o).locks = some op → v.world.inst.state = op.accepts →
      ¬ Hollow v.world.inst) ∧
    (∀ op, (v.world.pc o).posts = some op → MayReturn op inp.ok v) ∧
    ∀ c want, v.world.pc o = .persistRow c want → v.left = true → inp.ok = true →
      v.world.store.desired = some want
  | _ => True

/-- **The call respects what happened while its request was out.** -/
structure Respects (v : Nap N) : Prop where
  newer : ∀ a ∈ v.answers, a.left = true →
    a.after.state = a.before.state ∧ a.after.desired = a.before.desired
  rows : v.left = true → ∀ r ∈ v.rows, r.2 = r.1
  process : ∀ a ∈ v.answers, ¬ Hollow a.after
  restored : ∀ a ∈ v.answers, a.ok = false → a.raced = false →
    ∃ f, a.found = some f ∧ a.after.state = f.state ∧ a.after.desired = f.desired

/-! ## What other steps do to a READY or SLEEPING record -/

/-- Whether the record has a process is changed only together with the state. -/
def SameSlot (inst inst' : ModelInstance) : Prop :=
  (inst'.state ≠ .ready ∧ inst'.state ≠ .sleeping) ∨
    (inst'.managed = inst.managed ∧ (inst.proc ≠ none → inst'.proc ≠ none))

theorem SameSlot.refl (inst : ModelInstance) : SameSlot inst inst := .inr ⟨rfl, id⟩

theorem SameSlot.of_eq {inst inst' : ModelInstance} (h : inst' = inst) : SameSlot inst inst' :=
  h ▸ .refl _

theorem sameSlot_reconcileExit {cfg : Settings} {alive : Pid → Bool} {now : Time}
    {inst inst' : ModelInstance} {tr : Transition}
    (h : reconcileExit cfg alive now inst = some (inst', tr)) : SameSlot inst inst' := by
  obtain ⟨p, -, -, -, ⟨-, rfl, -⟩ | ⟨-, -, t, rfl⟩⟩ := reconcileExit_eq_some h
  · exact .inl ⟨by rintro ⟨⟩, by rintro ⟨⟩⟩
  · exact .inl ⟨by rintro ⟨⟩, by rintro ⟨⟩⟩

theorem sameSlot_reconcileProbe (cfg : Settings) (inst : ModelInstance) (ready : Bool)
    (size : Option Nat) (now : Time) :
    SameSlot inst (reconcileProbe cfg inst ready size now).1 := by
  obtain ⟨n, t, h⟩ | ⟨-, -, h⟩ | ⟨-, -, -, n, t, r, h⟩ :=
    reconcileProbe_cases cfg inst ready size now <;> rw [h]
  · exact .inr ⟨rfl, id⟩
  · exact .inr ⟨rfl, id⟩
  · exact .inl ⟨by rintro ⟨⟩, by rintro ⟨⟩⟩

section Steps

variable {cfg : Settings} {w w' : World N} {i : Nat} {inp : Input}

theorem sameSlot_recordStep (cfg : Settings) (target : ModelState) :
    SameSlot w.inst (recordStep cfg w target).inst := by
  obtain ⟨f, h⟩ := recordStep_inst cfg w target
  rw [h]
  exact .inr ⟨rfl, id⟩

theorem SectionChange.sameSlot {inst inst' : ModelInstance} (h : SectionChange inst inst') :
    SameSlot inst inst' := by
  cases h with
  | store p => exact .inr ⟨rfl, fun _ => Option.some_ne_none p⟩
  | down _ _ s hs =>
    obtain rfl | rfl := hs
    · exact .inl ⟨by rintro ⟨⟩, by rintro ⟨⟩⟩
    · exact .inl ⟨by rintro ⟨⟩, by rintro ⟨⟩⟩
  | _ => exact .inr ⟨rfl, id⟩

/-- **No step takes the process of a READY or SLEEPING record and leaves the state.** -/
theorem Resumed.sameSlot {pc : Pc N} (h : Resumed cfg w i inp pc w') : SameSlot w.inst w'.inst := by
  cases h with
  | move _ _ hinst _ _ | holdProbe _ _ _ hinst _ _ | release _ _ hinst _ _ => exact .of_eq hinst
  | change _ _ _ hchange _ _ | holdStop _ _ _ hchange _ _ => exact hchange.sameSlot
  | admitted _ _ _ _ _ hstart _ _ =>
    obtain ⟨-, -, hinst⟩ := startSection_eq_ok hstart
    rw [hinst]
    exact .inl ⟨by rintro ⟨⟩, by rintro ⟨⟩⟩
  | unspawned _ _ _ hinst _ _ =>
    rw [hinst]
    exact .inl ⟨by rintro ⟨⟩, by rintro ⟨⟩⟩
  | woken _ _ _ hinst _ _ =>
    rw [hinst]
    exact .inr ⟨rfl, id⟩
  | exit _ _ _ _ hexit _ _ => exact sameSlot_reconcileExit hexit
  | probe _ hworld =>
    rw [hworld, (probeStep_eq cfg w i inp).1]
    exact sameSlot_reconcileProbe ..
  | announce _ _ _ hworld =>
    rw [hworld]
    exact sameSlot_recordStep cfg .ready

theorem step_sameSlot [DecidableEq N] {me : N} {e : Event N} (h : step cfg me w e = some w') :
    SameSlot w.inst w'.inst := by
  cases e with
  | request i op =>
    simp only [step] at h
    split_ifs at h
    cases h
    exact .refl _
  | pass i =>
    simp only [step] at h
    split_ifs at h
    cases h
    exact .refl _
  | replay i =>
    simp only [step] at h
    split_ifs at h
    cases h
    exact .refl _
  | run i inp => exact (resume_resumed h).sameSlot
  | exit p =>
    simp only [step] at h
    split_ifs at h
    cases h
    exact .refl _
  | clock now =>
    cases h
    exact .refl _
  | store rows =>
    cases h
    exact .refl _

end Steps

/-! ## The stages of the call -/

/-- The call has not been accepted yet. -/
inductive EarlyPc (c : Caller) (op : NapOp) : Pc N → Prop
  | call : EarlyPc c op (.call c op.op)
  | lock {pc : Pc N} (h : pc.locks = some op) (hc : pc = .sleepLock c ∨ pc = .wakeLock c) :
      EarlyPc c op pc

/-- The call has its answer, or was refused, or deferred. -/
inductive LatePc (c : Caller) : Pc N → Prop
  | record : LatePc c (.wakeRecord c)
  | row (want : Desired) : LatePc c (.persistRow c want)
  | assign : LatePc c (.persistAssign c)
  | deferLock (want : Desired) : LatePc c (.deferLock c want)
  | deferRow (want : Desired) : LatePc c (.deferRow c want)
  | deferAssign : LatePc c (.deferAssign c)
  | ended : LatePc c .idle

/-- What is known while the request is out. -/
structure Posting (op : NapOp) (v : Nap N) : Prop where
  found : ∃ f, v.found = some f ∧ f.state = op.accepts
  stays : v.left = false → v.world.inst.state = op.accepts ∧ ¬ Hollow v.world.inst
  calm : v.raced = false → v.left = false
  answers : v.answers = []
  rows : v.rows = []

/-- The invariant of the call of coroutine `o`. -/
inductive NapInv (c : Caller) (op : NapOp) (o : Nat) (v : Nap N) : Prop
  | early (hpc : EarlyPc c op (v.world.pc o)) (hleft : v.left = false) (ha : v.answers = [])
      (hr : v.rows = []) : NapInv c op o v
  | posting (hpc : (v.world.pc o).posts = some op)
      (hc : v.world.pc o = .sleepPost c ∨ v.world.pc o = .wakePost c) (h : Posting op v) :
      NapInv c op o v
  | late (hpc : LatePc c (v.world.pc o)) (h : Respects v) : NapInv c op o v

/-! ## The steps -/

section Call

variable {cfg : Settings} {c : Caller} {op : NapOp} {o : Nat} {v : Nap N} {w' : World N}
  {inp : Input}

theorem EarlyPc.posts {pc : Pc N} (h : EarlyPc c op pc) : pc.posts = none := by
  cases h with
  | call => rfl
  | lock h hc => obtain rfl | rfl := hc <;> rfl

theorem LatePc.posts {pc : Pc N} (h : LatePc c pc) : pc.posts = none := by
  cases h <;> rfl

theorem accepts_cases (op : NapOp) : op.accepts = .ready ∨ op.accepts = .sleeping := by
  cases op
  · exact .inl rfl
  · exact .inr rfl

/-- A record that keeps an accepted state stays solid. -/
theorem SameSlot.solid {inst inst' : ModelInstance} (h : SameSlot inst inst')
    (hstate : inst.state = op.accepts) (hstate' : inst'.state = op.accepts) (hsolid : ¬ Hollow inst) :
    ¬ Hollow inst' := by
  rintro ⟨hmanaged, -, hproc⟩
  obtain ⟨hready, hsleeping⟩ | ⟨hm, hp⟩ := h
  · obtain hacc | hacc := accepts_cases op
    · exact hready (hstate'.trans hacc)
    · exact hsleeping (hstate'.trans hacc)
  · refine hsolid ⟨hm.symm.trans hmanaged, ?_, by_contra fun hne => hp hne hproc⟩
    rw [hstate]
    exact (accepts_cases op).symm

/-- A step of anything but the call. -/
theorem NapInv.other (h : NapInv c op o v) (hslot : SameSlot v.world.inst w'.inst)
    (hpc : w'.pc o = v.world.pc o) : NapInv c op o (v.noteOther o w') := by
  have quiet (hposts : (v.world.pc o).posts = none) : v.noteOther o w' = { v with world := w' } := by
    rw [Nap.noteOther, hposts]
  cases h with
  | early hat hleft ha hr =>
    rw [quiet hat.posts]
    exact .early (hpc.symm ▸ hat) hleft ha hr
  | late hat h =>
    rw [quiet hat.posts]
    exact .late (hpc.symm ▸ hat) ⟨h.newer, h.rows, h.process, h.restored⟩
  | posting hat hc h =>
    rw [Nap.noteOther, hat]
    refine .posting (hpc.symm ▸ hat) (hpc.symm ▸ hc) ⟨h.found, fun hleft => ?_, fun hraced => ?_,
      h.answers, h.rows⟩
    · obtain ⟨hold, hstate⟩ := Bool.or_eq_false_iff.mp hleft
      have hstate : w'.inst.state = op.accepts := by simpa using hstate
      obtain ⟨hbefore, hsolid⟩ := h.stays hold
      exact ⟨hstate, hslot.solid hbefore hstate hsolid⟩
    · obtain ⟨hold, hsame⟩ := Bool.or_eq_false_iff.mp hraced
      have hstate : w'.inst.state = v.world.inst.state := by
        by_contra hne
        exact absurd hsame (by simp [hne])
      have hleft := h.calm hold
      simp [hleft, hstate, (h.stays hleft).1]

/-- A step of the call that neither ends the request nor writes the row. -/
theorem NapInv.quiet (ok : Bool) (hat : (v.world.pc o).posts = none)
    (hrow : ∀ c want, v.world.pc o ≠ .persistRow c want) : v.noteOwn o ok w' = { v with
      world := w', found := if (w'.pc o).posts.isSome then some v.world.inst else v.found } := by
  unfold Nap.noteOwn
  split
  next heq => rw [heq] at hat; cases hat
  next heq => rw [heq] at hat; cases hat
  next heq => exact absurd heq (hrow _ _)
  next => rfl

theorem Respects.move {u : Nap N} (h : Respects v) (hans : u.answers = v.answers)
    (hleft : u.left = v.left) (hrows : u.rows = v.rows) : Respects u := by
  refine ⟨?_, ?_, ?_, ?_⟩
  · rw [hans]
    exact h.newer
  · rw [hleft, hrows]
    exact h.rows
  · rw [hans]
    exact h.process
  · rw [hans]
    exact h.restored

theorem Respects.nothing (ha : v.answers = []) (hr : v.rows = []) : Respects v := by
  refine ⟨?_, ?_, ?_, ?_⟩ <;> simp [ha, hr]

/-- The call is refused or deferred. -/
theorem NapInv.turned {u : World N} {pc : Pc N} {ok : Bool} (hat : EarlyPc c op (v.world.pc o))
    (ha : v.answers = []) (hr : v.rows = []) (hpc : LatePc c pc) :
    NapInv c op o (v.noteOwn o ok (u.goto o pc)) := by
  have hrow : ∀ c' want, v.world.pc o ≠ .persistRow c' want := by
    intro c' want heq
    rw [heq] at hat
    cases hat with
    | lock h => cases h
  rw [NapInv.quiet ok hat.posts hrow]
  refine .late ?_ (.nothing ha hr)
  show LatePc c ((u.goto o pc).pc o)
  rw [World.goto_self]
  exact hpc

variable [DecidableEq N] {me : N}

theorem NapInv.call (hresume : (c.resume : Pc N) = .idle) (hat : v.world.pc o = .call c op.op)
    (hleft : v.left = false) (ha : v.answers = []) (hr : v.rows = [])
    (h : step cfg me v.world (.run o inp) = some w') : NapInv c op o (v.noteOwn o inp.ok w') := by
  have hearly : EarlyPc c op (v.world.pc o) := hat ▸ .call
  simp only [step, hat, resume, Option.some.injEq] at h
  subst h
  have lock {pc : Pc N} (hpc : EarlyPc c op pc) :
      NapInv c op o (v.noteOwn o inp.ok (v.world.goto o pc)) := by
    rw [NapInv.quiet inp.ok hearly.posts (by rw [hat]; rintro _ _ ⟨⟩)]
    refine .early ?_ hleft ha hr
    show EarlyPc c op ((v.world.goto o pc).pc o)
    rw [World.goto_self]
    exact hpc
  obtain h | ⟨h, -⟩ | ⟨hop, spec, -, h⟩ | ⟨hop, h⟩ | ⟨hop, h⟩ | ⟨hop, h⟩ :=
    v.world.enter_cases cfg c op.op inp
  · rw [h, hresume]
    exact .turned hearly ha hr .ended
  · rw [h]
    exact .turned hearly ha hr (.deferLock _)
  · cases op <;> cases hop
  · cases op <;> cases hop
  · rw [h]
    cases op
    · exact lock (.lock rfl (.inl rfl))
    · cases hop
  · rw [h]
    cases op
    · cases hop
    · exact lock (.lock rfl (.inr rfl))

omit [DecidableEq N] in
/-- The call is accepted: its request goes out. -/
theorem NapInv.accepted {u : World N} {pc : Pc N} {ok : Bool} (hat : EarlyPc c op (v.world.pc o))
    (ha : v.answers = []) (hr : v.rows = [])
    (hposts : pc.posts = some op) (hc : pc = .sleepPost c ∨ pc = .wakePost c)
    (hleft : v.left = false) (hstate : v.world.inst.state = op.accepts)
    (hsolid : ¬ Hollow v.world.inst)
    (hstate' : u.inst.state = v.world.inst.state) (hm : u.inst.managed = v.world.inst.managed)
    (hp : u.inst.proc = v.world.inst.proc) :
    NapInv c op o (v.noteOwn o ok (u.goto o pc)) := by
  have hself : (u.goto o pc).pc o = pc := World.goto_self ..
  have hrow : ∀ c' want, v.world.pc o ≠ .persistRow c' want := by
    intro c' want heq
    rw [heq] at hat
    cases hat with
    | lock h => cases h
  rw [NapInv.quiet ok hat.posts hrow]
  refine .posting ?_ ?_ ⟨⟨v.world.inst, ?_, hstate⟩, fun _ => ⟨?_, ?_⟩, fun _ => hleft,
    ha, hr⟩
  · exact (congrArg Pc.posts hself).trans hposts
  · show (u.goto o pc).pc o = _ ∨ (u.goto o pc).pc o = _
    rw [hself]
    exact hc
  · show (if ((u.goto o pc).pc o).posts.isSome = true then _ else _) = _
    rw [hself, hposts]
    rfl
  · exact hstate'.trans hstate
  · show ¬ Hollow u.inst
    unfold Hollow
    rw [hm, hp, hstate']
    exact hsolid

theorem NapInv.lock (hresume : (c.resume : Pc N) = .idle) (hlock : (v.world.pc o).locks = some op)
    (hc : v.world.pc o = .sleepLock c ∨ v.world.pc o = .wakeLock c) (hleft : v.left = false)
    (ha : v.answers = []) (hr : v.rows = [])
    (hG : v.world.inst.state = op.accepts → ¬ Hollow v.world.inst)
    (h : step cfg me v.world (.run o inp) = some w') : NapInv c op o (v.noteOwn o inp.ok w') := by
  have hearly : EarlyPc c op (v.world.pc o) := .lock hlock hc
  have refused : NapInv c op o (v.noteOwn o inp.ok (v.world.goto o c.resume)) := by
    rw [hresume]
    exact .turned hearly ha hr .ended
  obtain hc | hc := hc
  · rw [hc] at hlock
    cases hlock
    simp only [step, hc, resume] at h
    split at h
    · obtain ⟨-, rfl⟩ := World.locked_eq_some.mp h
      exact refused
    next inst hsleep =>
      obtain ⟨-, rfl⟩ := World.locked_eq_some.mp h
      obtain ⟨hs, rfl⟩ := sleepSection_eq_ok hsleep
      exact .accepted hearly ha hr rfl (.inl rfl) hleft hs (hG hs) rfl rfl rfl
  · rw [hc] at hlock
    cases hlock
    simp only [step, hc, resume] at h
    split at h
    · obtain ⟨-, rfl⟩ := World.locked_eq_some.mp h
      exact refused
    next inst hwake =>
      obtain ⟨-, rfl⟩ := World.locked_eq_some.mp h
      obtain ⟨hs, rfl⟩ := wakeSection_eq_ok hwake
      exact .accepted hearly ha hr rfl (.inr rfl) hleft hs (hG hs) rfl rfl rfl

omit [DecidableEq N] in
/-- The request returns. -/
theorem NapInv.answered {u : World N} {pc : Pc N} {ok : Bool}
    (hc : v.world.pc o = .sleepPost c ∨ v.world.pc o = .wakePost c) (hp : Posting op v)
    (hpc : LatePc c pc) (hproc : u.inst.proc = v.world.inst.proc)
    (hstate : u.inst.state = .sleeping ∨ u.inst.state = .ready →
      v.world.inst.state = .sleeping ∨ v.world.inst.state = .ready)
    (hm : u.inst.managed = v.world.inst.managed) (hsolid : v.left = true → ¬ Hollow v.world.inst)
    (hnewer : v.left = true →
      u.inst.state = v.world.inst.state ∧ u.inst.desired = v.world.inst.desired)
    (hrestored : ok = false → v.raced = false →
      u.inst.state = v.world.inst.state ∧ ∀ f ∈ v.found, u.inst.desired = f.desired) :
    NapInv c op o (v.noteOwn o ok (u.goto o pc)) := by
  obtain ⟨f, hf, hfs⟩ := hp.found
  have hnote : v.noteOwn o ok (u.goto o pc) = { v with
      world := u.goto o pc
      answers := [⟨ok, v.left, v.raced, v.found, v.world.inst, u.inst⟩] } := by
    unfold Nap.noteOwn
    rw [hp.answers]
    obtain hc | hc := hc <;> rw [hc] <;> rfl
  rw [hnote]
  refine .late ?_ ⟨?_, ?_, ?_, ?_⟩
  · show LatePc c ((u.goto o pc).pc o)
    rw [World.goto_self]
    exact hpc
  · intro a ha hl
    rw [List.mem_singleton.mp ha] at hl ⊢
    exact hnewer hl
  · intro _ r hr
    rw [show v.rows = [] from hp.rows] at hr
    cases hr
  · intro a ha
    rw [List.mem_singleton.mp ha]
    rintro ⟨hmanaged, hs, hnone⟩
    have hhollow : Hollow v.world.inst :=
      ⟨hm.symm.trans hmanaged, hstate hs, hproc.symm.trans hnone⟩
    cases hleft : v.left with
    | true => exact hsolid hleft hhollow
    | false => exact (hp.stays hleft).2 hhollow
  · intro a ha hok hraced
    rw [List.mem_singleton.mp ha] at hok hraced ⊢
    obtain ⟨hs, hd⟩ := hrestored hok hraced
    exact ⟨f, hf, (hs.trans (hp.stays (hp.calm hraced)).1).trans hfs.symm, hd f hf⟩

theorem NapInv.post (hresume : (c.resume : Pc N) = .idle) (hat : (v.world.pc o).posts = some op)
    (hc : v.world.pc o = .sleepPost c ∨ v.world.pc o = .wakePost c) (hp : Posting op v)
    (hG : MayReturn op inp.ok v) (h : step cfg me v.world (.run o inp) = some w') :
    NapInv c op o (v.noteOwn o inp.ok w') := by
  have hover : LatePc c (c.resume : Pc N) := hresume ▸ .ended
  -- READY or SLEEPING, be it as accepted or as committed by somebody else
  have hup (hok : inp.ok = true) :
      v.world.inst.state = .sleeping ∨ v.world.inst.state = .ready := by
    cases hleft : v.left with
    | false => exact (hp.stays hleft).1 ▸ (accepts_cases op).symm
    | true =>
      rw [hG.committed hleft hok]
      cases op
      · exact .inl rfl
      · exact .inr rfl
  obtain hpc | hpc := id hc
  all_goals
    rw [hpc] at hat
    cases hat
    simp only [step, hpc, resume] at h
    split_ifs at h with hok <;> obtain ⟨-, rfl⟩ := World.locked_eq_some.mp h
  · refine .answered hc hp (.row _) rfl (fun _ => hup hok) rfl hG.solid
      (fun hleft => ⟨(hG.committed hleft hok).symm, rfl⟩) fun hno => ?_
    rw [hok] at hno
    cases hno
  · have hno := Bool.eq_false_of_not_eq_true hok
    exact .answered hc hp hover rfl id rfl hG.solid
      (fun hleft => ⟨rfl, (hG.reverted hleft hno).symm⟩)
      fun _ hraced => ⟨rfl, fun f hf => (hG.restores hno hraced f hf).symm⟩
  · refine .answered hc hp .record rfl (fun _ => hup hok) rfl hG.solid
      (fun hleft => ⟨(hG.committed hleft hok).symm, rfl⟩) fun hno => ?_
    rw [hok] at hno
    cases hno
  · have hno := Bool.eq_false_of_not_eq_true hok
    exact .answered hc hp hover rfl id rfl hG.solid
      (fun hleft => ⟨rfl, (hG.reverted hleft hno).symm⟩)
      fun _ hraced => ⟨rfl, fun f hf => (hG.restores hno hraced f hf).symm⟩

/-- The call has its answer: it records, and writes the rows. -/
theorem NapInv.finish (hresume : (c.resume : Pc N) = .idle) (hat : LatePc c (v.world.pc o))
    (hv : Respects v) (hG : ∀ c want, v.world.pc o = .persistRow c want → v.left = true →
      inp.ok = true → v.world.store.desired = some want)
    (h : step cfg me v.world (.run o inp) = some w') : NapInv c op o (v.noteOwn o inp.ok w') := by
  have hover : LatePc c (c.resume : Pc N) := hresume ▸ .ended
  have quiet (hrow : ∀ c want, v.world.pc o ≠ .persistRow c want) (hlate : LatePc c (w'.pc o)) :
      NapInv c op o (v.noteOwn o inp.ok w') := by
    rw [NapInv.quiet inp.ok hat.posts hrow]
    exact .late hlate (hv.move rfl rfl rfl)
  simp only [step] at h
  generalize hpc : v.world.pc o = pc at h hat quiet hG
  cases hat with
  | record =>
    cases h
    refine quiet (by rintro _ _ ⟨⟩) ?_
    rw [World.goto_self]
    exact .row _
  | row want =>
    cases h
    have hnote (u : World N) : v.noteOwn o inp.ok u = { v with
        world := u, rows := (v.world.store.desired, u.store.desired) :: v.rows } := by
      unfold Nap.noteOwn
      rw [hpc]
    rw [hnote]
    refine .late ?_ ⟨hv.newer, ?_, hv.process, hv.restored⟩
    · show LatePc c (((v.world.setRow inp.ok want).goto o _).pc o)
      rw [World.goto_self]
      split_ifs
      · exact hover
      · exact .assign
    · intro hleft r hr
      obtain rfl | hr := List.mem_cons.mp hr
      · show (v.world.setRow inp.ok want).store.desired = v.world.store.desired
        unfold World.setRow
        split_ifs with hok
        · exact (hG c want rfl hleft hok).symm
        · rfl
      · exact hv.rows hleft r hr
  | assign =>
    cases h
    refine quiet (by rintro _ _ ⟨⟩) ?_
    rw [World.goto_self]
    exact hover
  | deferLock want =>
    obtain ⟨-, rfl⟩ := World.locked_eq_some.mp h
    refine quiet (by rintro _ _ ⟨⟩) ?_
    rw [World.goto_self]
    exact .deferRow want
  | deferRow want =>
    cases h
    refine quiet (by rintro _ _ ⟨⟩) ?_
    rw [World.goto_self]
    split_ifs
    · exact hover
    · exact .deferAssign
  | deferAssign =>
    cases h
    refine quiet (by rintro _ _ ⟨⟩) ?_
    rw [World.goto_self]
    exact hover
  | ended => cases h

theorem NapInv.step {e : Event N} (hresume : (c.resume : Pc N) = .idle) (hv : NapInv c op o v)
    (hone : OneCall o e) (hG : NapHarmless o v e) (h : step cfg me v.world e = some w') :
    NapInv c op o (v.note o e w') := by
  have other (hon : e.on ≠ some o) (hnote : v.note o e w' = v.noteOther o w') :
      NapInv c op o (v.note o e w') := by
    rw [hnote]
    exact hv.other (step_sameSlot h) (step_pc_of_ne h hon)
  cases e with
  | request i op' => exact other (fun heq => hone (Option.some.inj heq)) rfl
  | pass i => exact other (fun heq => hone (Option.some.inj heq)) rfl
  | replay i => exact other (fun heq => hone (Option.some.inj heq)) rfl
  | run i inp =>
    by_cases hi : i = o
    · subst hi
      obtain ⟨hlock, hpost, hrow⟩ := hG rfl
      show NapInv c op i (if i = i then v.noteOwn i inp.ok w' else v.noteOther i w')
      rw [if_pos rfl]
      cases hv with
      | early hat hleft ha hr =>
        generalize hpc : v.world.pc i = pc at hat
        cases hat with
        | call => exact .call hresume hpc hleft ha hr h
        | lock hop hc =>
          subst hpc
          exact .lock hresume hop hc hleft ha hr (hlock op hop) h
      | posting hat hc hp => exact .post hresume hat hc hp (hpost op hat) h
      | late hat hr => exact .finish hresume hat hr hrow h
    · exact other (fun heq => hi (Option.some.inj heq)) (if_neg hi)
  | exit p => exact other (by rintro ⟨⟩) rfl
  | clock now => exact other (by rintro ⟨⟩) rfl
  | store rows => exact other (by rintro ⟨⟩) rfl

end Call

theorem NapInv.respects {c : Caller} {op : NapOp} {o : Nat} {v : Nap N} (h : NapInv c op o v) :
    Respects v := by
  cases h with
  | early hpc hleft ha hr => exact .nothing ha hr
  | posting hpc hc h => exact .nothing h.answers h.rows
  | late hpc h => exact h

/-- **A call respects what happened while its request was out**, when what it writes after the
instance has left the accepted state is there already. -/
theorem respects_of_reach [DecidableEq N] {cfg : Settings} {me : N} {c : Caller} {op : NapOp}
    {o : Nat} {w : World N} {v : Nap N} (hc : c = .user ∨ c = .converge)
    (h₀ : w.pc o = .call c op.op)
    (h : Reach (napStep cfg me o) (fun v e => OneCall o e ∧ NapHarmless o v e) (.init w) v) :
    Respects v := by
  have hresume : (c.resume : Pc N) = .idle := by obtain rfl | rfl := hc <;> rfl
  have hinit : NapInv c op o (.init w) := .early (h₀ ▸ .call) rfl rfl rfl
  have hv : NapInv c op o v := by
    refine h.invariant (I := NapInv c op o) hinit fun {a b e} hi hG he => ?_
    obtain ⟨w', hstep, rfl⟩ := Option.map_eq_some_iff.mp he
    exact hi.step hresume hG.1 hG.2 hstep
  exact hv.respects

/-! ## A stop while a sleep is out -/

/-- A managed READY instance that can sleep, and a call of `sleep` that has just arrived. -/
def readyWorld : World Unit where
  inst := { ModelInstance.ofSpec { sampleSpec with sleepEnabled := true } with
    desired := .running, state := .ready, managed := true, proc := some 0 }
  pc := fun i => if i = 0 then .call .user .sleep else .idle
  alive := fun p => p = 0
  nextPid := 1

/-- Two calls of `sleep` are accepted. The other one returns first, commits SLEEPING and writes the
row. -/
def sleptTwice : List (Event Unit) :=
  [.go 0, .go 0, .request 1 .sleep, .go 1, .go 1, .go 1, .go 1, .go 0, .go 0]

/-- The call returns when the instance has left READY, and finds what it writes. -/
theorem respects_sleptTwice : ∃ v, run (napStep {} () 0) (.init readyWorld) sleptTwice = some v ∧
    v.answers.map (fun a => (a.left, a.before.state, a.after.state)) =
      [(true, .sleeping, .sleeping)] ∧ v.rows = [(some .asleep, some .asleep)] ∧ Respects v := by
  have hany : (run (napStep {} () 0) (.init readyWorld) sleptTwice).any (fun v =>
      v.answers.map (fun a => (a.left, a.before.state, a.after.state)) =
        [(true, .sleeping, .sleeping)] ∧ v.rows = [(some .asleep, some .asleep)]) = true := by
    decide +kernel
  obtain ⟨v, hrun, hv⟩ := (Option.any_eq_true _ _).mp hany
  obtain ⟨hanswers, hrows⟩ := of_decide_eq_true hv
  have halong : Along (napStep {} () 0) (fun v e => OneCall 0 e ∧ NapHarmless 0 v e)
      (.init readyWorld) sleptTwice := by
    have other (v : Nap Unit) : OneCall 0 (.go 1 : Event Unit) ∧ NapHarmless 0 v (.go 1) :=
      ⟨trivial, fun h => absurd h Nat.one_ne_zero⟩
    refine ⟨⟨trivial, fun _ => ⟨?_, ?_, ?_⟩⟩, fun v₁ h₁ => ⟨⟨trivial, fun _ => ⟨?_, ?_, ?_⟩⟩,
      fun v₂ h₂ => ⟨⟨Nat.one_ne_zero, trivial⟩, fun v₃ h₃ => ⟨other _, fun v₄ h₄ => ⟨other _,
        fun v₅ h₅ => ⟨other _, fun v₆ h₆ => ⟨other _, fun v₇ h₇ =>
          ⟨⟨trivial, fun _ => ⟨?_, ?_, ?_⟩⟩, fun v₈ h₈ => ⟨⟨trivial, fun _ => ⟨?_, ?_, ?_⟩⟩,
            fun _ _ => trivial⟩⟩⟩⟩⟩⟩⟩⟩⟩
    · rintro op ⟨⟩
    · rintro op ⟨⟩
    · rintro c want ⟨⟩
    all_goals cases h₁
    · rintro op ⟨⟩ - ⟨-, -, ⟨⟩⟩
    · rintro op ⟨⟩
    · rintro c want ⟨⟩
    all_goals
      cases h₂
      cases h₃
      cases h₄
      cases h₅
      cases h₆
      cases h₇
    · rintro op ⟨⟩
    · rintro op ⟨⟩
      refine ⟨nofun, fun _ _ => rfl, nofun, ?_⟩
      rintro - ⟨-, -, ⟨⟩⟩
    · rintro c want ⟨⟩
    all_goals cases h₈
    · rintro op ⟨⟩
    · rintro op ⟨⟩
    · rintro c want ⟨⟩ - -
      rfl
  exact ⟨v, hrun, hanswers, hrows, @respects_of_reach Unit _ {} () .user .sleep 0 readyWorld v
    (.inl rfl) rfl (Reach.of_guarded_run hrun halong)⟩

/-- The sleep is accepted, a stop runs to its end, and the request fails: its process is gone. -/
def stoppedMeanwhile : List (Event Unit) :=
  [.go 0, .go 0, .request 1 .stop, .go 1, .go 1, .go 1, .exit 0, .go 1, .go 1,
    .run 0 { ok := false }]

/-- **A stopped instance is wanted again.** The stop has left it STOPPED and `stopped`; the failed
sleep makes its desired state RUNNING. -/
theorem stopped_then_wanted : ∃ v, Reach (napStep {} () 0) (fun _ e => OneCall 0 e)
    (.init readyWorld) v ∧ v.world.inst.state = .stopped ∧ v.world.inst.desired = .running ∧
      ¬ Respects v := by
  have hany : (run (napStep {} () 0) (.init readyWorld) stoppedMeanwhile).any (fun v =>
      v.world.inst.state = .stopped ∧ v.world.inst.desired = .running ∧
      v.answers.map (fun a => (a.left, a.before.desired, a.after.desired)) =
        [(true, .stopped, .running)]) = true := by decide +kernel
  obtain ⟨v, hrun, hv⟩ := (Option.any_eq_true _ _).mp hany
  obtain ⟨hs, hd, hanswers⟩ := of_decide_eq_true hv
  have halong : Along (napStep {} () 0) (fun _ e => OneCall 0 e) (.init readyWorld)
      stoppedMeanwhile :=
    Reach.along_of_forall fun e he _ => by
      simp only [stoppedMeanwhile, List.mem_cons, List.not_mem_nil, or_false] at he
      rcases he with rfl | rfl | rfl | rfl | rfl | rfl | rfl | rfl | rfl | rfl <;>
        first | trivial | exact Nat.one_ne_zero
  refine ⟨v, Reach.of_guarded_run hrun halong, hs, hd, fun hr => ?_⟩
  obtain ⟨a, _, ha, hanswer, -⟩ := List.map_eq_cons_iff.mp hanswers
  simp only [Prod.mk.injEq] at hanswer
  obtain ⟨hleft, hbefore, hafter⟩ := hanswer
  have hsame := (hr.newer a (by rw [ha]; exact List.mem_cons_self) hleft).2
  rw [hbefore, hafter] at hsame
  cases hsame

end Llmops.Node
