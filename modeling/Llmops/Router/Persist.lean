import Llmops.Lib.Run
import Llmops.Router.Workers

/-!
# How long a drain mark stays

One router worker with its store: any number of calls of `/drain` and `/undrain`
(`router.py:56-94`), cut at the await of their store call, and `poll_metrics_forever`
(`metrics_poller.py:103-110`), which replaces the whole local dictionary by what `list_draining`
brought, cut where it asks, where its query is evaluated, and where it assigns the result. Keys and
expiries are those of `Router/Marks.lean`. A returned `/drain` stays on record; it is `undone` when
an `/undrain` of its instance begins.

* `marks_persist`: in every run of settled events a mark is there until its time to live is over;
  in any run, one that has expired does not come back without a new `/drain`;
* `mark_lost`: the poller's query is evaluated before the mark is stored, and its result is assigned
  after the `/drain` returned.
-/

namespace Llmops.Router

open Llmops.Lib

/-- Where a call is: a `/drain` past its `mark_draining`, past its store write, returned, and undone
by a later `/undrain`; an `/undrain` past its `clear_draining`, past its store write, and over. -/
inductive MarkCall where
  | idle
  | marked (b : Backend) (ttl start : Time)
  | stored (b : Backend) (ttl start : Time)
  | drained (b : Backend) (ttl start returned : Time)
  | undone (b : Backend) (ttl start : Time)
  | cleared (b : Backend)
  | removed (b : Backend)
  | over
  deriving DecidableEq

/-- Where the poller is with its drain refresh: elsewhere, past the clock reading of
`list_draining`, or with its result. -/
inductive DrainPoll where
  | resting
  | asked (ts : Time)
  | listed (marks : Marks)

/-- The clock, the drain table of the store, the marks of the worker, its poller and the calls. -/
structure MarkState (ι : Type*) where
  now : Time
  store : Marks
  draining : Marks := fun _ => none
  poll : DrainPoll := .resting
  call : ι → MarkCall := fun _ => .idle

/-- Time, the three segments of either call, and of the poller's refresh. -/
inductive MarkEvent (ι : Type*) where
  | pass (t : Time)
  | drain (i : ι) (b : Backend) (ttl : Time)
  | undrain (i : ι) (b : Backend)
  | write (i : ι)
  | finish (i : ι)
  | ask
  | read
  | assign

/-- The mark that a `/drain` makes: its key, and when it expires. -/
def MarkCall.mark : MarkCall → Option (String × Time)
  | .marked b ttl start | .stored b ttl start | .drained b ttl start _ | .undone b ttl start =>
    some (makeBackendKey b, start + ttl)
  | _ => none

/-- The mark of a `/drain` that is under way or has returned, and is not undone. -/
def MarkCall.live : MarkCall → Option (String × Time)
  | .undone _ _ _ => none
  | c => c.mark

/-- The mark, once it is stored. -/
def MarkCall.written : MarkCall → Option (String × Time)
  | .marked _ _ _ | .undone _ _ _ => none
  | c => c.mark

/-- A returned `/drain`, when an `/undrain` begins. -/
def MarkCall.undo (b : Backend) : MarkCall → MarkCall
  | .drained b' ttl start returned =>
    if b' = b then .undone b' ttl start else .drained b' ttl start returned
  | c => c

section Steps

variable {ι : Type*} [DecidableEq ι]

/-- One segment. A call without its two names is refused with a 400. -/
def MarkState.step (s : MarkState ι) : MarkEvent ι → Option (MarkState ι)
  | .pass t => some { s with now := max s.now t }
  | .drain i b ttl =>
    match s.call i with
    | .idle =>
      if b.named then
        some { s with
          draining := markDraining s.draining b ttl s.now
          call := Function.update s.call i (.marked b ttl s.now) }
      else none
    | _ => none
  | .undrain i b =>
    match s.call i with
    | .idle =>
      if b.named then
        some { s with
          draining := clearDraining s.draining b
          call := Function.update (fun j => (s.call j).undo b) i (.cleared b) }
      else none
    | _ => none
  | .write i =>
    match s.call i with
    | .marked b ttl start =>
      some { s with
        store := markDraining s.store b ttl start
        call := Function.update s.call i (.stored b ttl start) }
    | .cleared b =>
      some { s with
        store := clearDraining s.store b
        call := Function.update s.call i (.removed b) }
    | _ => none
  | .finish i =>
    match s.call i with
    | .stored b ttl start =>
      some { s with call := Function.update s.call i (.drained b ttl start s.now) }
    | .removed _ => some { s with call := Function.update s.call i .over }
    | _ => none
  | .ask =>
    match s.poll with
    | .resting => some { s with poll := .asked s.now }
    | _ => none
  | .read =>
    match s.poll with
    | .asked ts => some { s with poll := .listed (listDraining s.store ts) }
    | _ => none
  | .assign =>
    match s.poll with
    | .listed marks => some { s with draining := marks, poll := .resting }
    | _ => none

/-- What an event can do: one case for each segment that runs. -/
inductive MarkState.Moves (s : MarkState ι) : MarkEvent ι → MarkState ι → Prop
  | pass (t : Time) : Moves s (.pass t) { s with now := max s.now t }
  | drain {i : ι} {b : Backend} {ttl : Time} (hcall : s.call i = .idle) :
    Moves s (.drain i b ttl) { s with
      draining := markDraining s.draining b ttl s.now
      call := Function.update s.call i (.marked b ttl s.now) }
  | undrain {i : ι} {b : Backend} (hcall : s.call i = .idle) :
    Moves s (.undrain i b) { s with
      draining := clearDraining s.draining b
      call := Function.update (fun j => (s.call j).undo b) i (.cleared b) }
  | stores {i : ι} {b : Backend} {ttl start : Time} (hcall : s.call i = .marked b ttl start) :
    Moves s (.write i) { s with
      store := markDraining s.store b ttl start
      call := Function.update s.call i (.stored b ttl start) }
  | deletes {i : ι} {b : Backend} (hcall : s.call i = .cleared b) :
    Moves s (.write i) { s with
      store := clearDraining s.store b
      call := Function.update s.call i (.removed b) }
  | drained {i : ι} {b : Backend} {ttl start : Time} (hcall : s.call i = .stored b ttl start) :
    Moves s (.finish i) { s with call := Function.update s.call i (.drained b ttl start s.now) }
  | undrained {i : ι} {b : Backend} (hcall : s.call i = .removed b) :
    Moves s (.finish i) { s with call := Function.update s.call i .over }
  | ask (hpoll : s.poll = .resting) : Moves s .ask { s with poll := .asked s.now }
  | read {ts : Time} (hpoll : s.poll = .asked ts) :
    Moves s .read { s with poll := .listed (listDraining s.store ts) }
  | assign {marks : Marks} (hpoll : s.poll = .listed marks) :
    Moves s .assign { s with draining := marks, poll := .resting }

theorem MarkState.moves_of_step {s s' : MarkState ι} {e : MarkEvent ι} (he : s.step e = some s') :
    s.Moves e s' := by
  cases e with
  | pass t =>
    obtain rfl := Option.some.inj he
    exact .pass t
  | drain i b ttl =>
    unfold MarkState.step at he
    cases hcall : s.call i with
    | idle =>
      simp only [hcall] at he
      split_ifs at he
      obtain rfl := Option.some.inj he
      exact .drain hcall
    | _ => simp [hcall] at he
  | undrain i b =>
    unfold MarkState.step at he
    cases hcall : s.call i with
    | idle =>
      simp only [hcall] at he
      split_ifs at he
      obtain rfl := Option.some.inj he
      exact .undrain hcall
    | _ => simp [hcall] at he
  | write i =>
    unfold MarkState.step at he
    cases hcall : s.call i with
    | marked b ttl start =>
      simp only [hcall, Option.some.injEq] at he
      subst he
      exact .stores hcall
    | cleared b =>
      simp only [hcall, Option.some.injEq] at he
      subst he
      exact .deletes hcall
    | _ => simp [hcall] at he
  | finish i =>
    unfold MarkState.step at he
    cases hcall : s.call i with
    | stored b ttl start =>
      simp only [hcall, Option.some.injEq] at he
      subst he
      exact .drained hcall
    | removed b =>
      simp only [hcall, Option.some.injEq] at he
      subst he
      exact .undrained hcall
    | _ => simp [hcall] at he
  | ask =>
    unfold MarkState.step at he
    cases hpoll : s.poll with
    | resting =>
      simp only [hpoll, Option.some.injEq] at he
      subst he
      exact .ask hpoll
    | _ => simp [hpoll] at he
  | read =>
    unfold MarkState.step at he
    cases hpoll : s.poll with
    | asked ts =>
      simp only [hpoll, Option.some.injEq] at he
      subst he
      exact .read hpoll
    | _ => simp [hpoll] at he
  | assign =>
    unfold MarkState.step at he
    cases hpoll : s.poll with
    | listed marks =>
      simp only [hpoll, Option.some.injEq] at he
      subst he
      exact .assign hpoll
    | _ => simp [hpoll] at he

/-- The worker starts: it has no marks, the store may have some. -/
def MarkState.start (now : Time) (store : Marks) : MarkState ι where
  now := now
  store := store

end Steps

/-! ## What is promised -/

section Promise

variable {ι : Type*}

/-- Every `/drain` that has returned at `t`, and is not undone, marks its instance until `t + ttl`. -/
def MarkState.Persists (s : MarkState ι) : Prop :=
  ∀ i b ttl start t, s.call i = .drained b ttl start t → s.now < t + ttl →
    isDraining s.draining b s.now = true

/-- A `/drain` made this mark, or the store had it when the worker started. -/
def MarkState.Made (store₀ : Marks) (s : MarkState ι) (key : String) (expires : Time) : Prop :=
  (∃ i, (s.call i).mark = some (key, expires)) ∨ store₀ key = some expires

/-- Every mark of the instance that was ever made has expired. -/
def MarkState.Expired (store₀ : Marks) (s : MarkState ι) (b : Backend) : Prop :=
  ∀ expires, s.Made store₀ (makeBackendKey b) expires → expires ≤ s.now

/-- A `/drain` of the instance begins. -/
def MarkEvent.Drains (b : Backend) : MarkEvent ι → Prop
  | .drain _ b' _ => makeBackendKey b' = makeBackendKey b
  | _ => False

/-- The events that take no mark away early. The poller's query is not evaluated while a `/drain` is
between its two marks, and none begins between that and the assignment. The calls of one instance do
not get in each other's way: a later `/drain` expires no earlier, the store writes come in that
order, an `/undrain` begins when no `/drain` is under way, and its store write meets no mark of a
later one. And the time to live counts from the beginning of the call: nobody looks between what is
left of it then, and the claim. -/
def MarkState.Settled (s : MarkState ι) : MarkEvent ι → Prop
  | .pass t => ∀ j b ttl start returned, s.call j = .drained b ttl start returned →
      max s.now t < returned + ttl → max s.now t < start + ttl
  | .drain _ b ttl => (∀ marks, s.poll ≠ .listed marks) ∧
      ∀ j r, (s.call j).live = some r → r.1 = makeBackendKey b → r.2 ≤ s.now + ttl
  | .undrain _ b => ∀ j r, (s.call j).live = some r → r.1 = makeBackendKey b →
      ∃ ttl start returned, s.call j = .drained b ttl start returned
  | .write i => ∀ j r, (s.call j).written = some r →
      (∀ b ttl start, s.call i = .marked b ttl start → r.1 = makeBackendKey b →
        r.2 ≤ start + ttl) ∧
      ∀ b, s.call i = .cleared b → r.1 ≠ makeBackendKey b
  | .finish i => ∀ b ttl start, s.call i = .stored b ttl start → 0 < ttl → s.now < start + ttl
  | .read => ∀ j b ttl start, s.call j ≠ .marked b ttl start
  | _ => True

end Promise

/-! ## The invariant -/

/-- The dictionary has the mark, or a later one. -/
def Marks.Covers (marks : Marks) (r : String × Time) : Prop :=
  ∃ expires, marks r.1 = some expires ∧ r.2 ≤ expires

section Covers

variable {marks : Marks} {r : String × Time} {b : Backend} {ttl now : Time} {c : MarkCall}

theorem Marks.Covers.update {key : String} {mark : Option Time} (h : marks.Covers r)
    (hr : r.1 = key → ∃ expires, mark = some expires ∧ r.2 ≤ expires) :
    Marks.Covers (Function.update marks key mark) r := by
  unfold Marks.Covers
  by_cases hkey : r.1 = key
  · rw [hkey, Function.update_self]
    exact hr hkey
  · rw [Function.update_of_ne hkey]
    exact h

theorem Marks.Covers.listed (h : marks.Covers r) (hnow : now < r.2) :
    (listDraining marks now).Covers r := by
  obtain ⟨expires, hmark, hle⟩ := h
  refine ⟨expires, ?_, hle⟩
  rw [listDraining, hmark, Option.filter_some, if_pos (by simpa using hnow.trans_le hle)]

theorem isDraining_of_covers (h : marks.Covers (makeBackendKey b, ttl)) (hnow : now < ttl) :
    isDraining marks b now = true := by
  obtain ⟨expires, hmark, hle⟩ := h
  exact isDraining_iff.mpr ⟨expires, hmark, hnow.trans_le hle⟩

theorem MarkCall.undo_drained {b' : Backend} {start returned : Time} :
    (MarkCall.drained b' ttl start returned).undo b =
      if b' = b then .undone b' ttl start else .drained b' ttl start returned := rfl

/-- A live mark is stored, unless its call is still before the write. -/
theorem MarkCall.written_of_live (h : c.live = some r) (hc : ∀ b ttl start, c ≠ .marked b ttl start) :
    c.written = some r := by
  cases c with
  | marked b ttl start => exact absurd rfl (hc b ttl start)
  | undone b ttl start => cases h
  | _ => exact h

theorem MarkCall.mark_undo : (c.undo b).mark = c.mark := by
  cases c with
  | drained b' ttl start returned =>
    rw [undo_drained]
    split_ifs <;> rfl
  | _ => rfl

theorem MarkCall.live_undo (h : (c.undo b).live = some r) : c.live = some r := by
  cases c with
  | drained b' ttl start returned =>
    rw [undo_drained] at h
    split_ifs at h
    · cases h
    · exact h
  | _ => exact h

theorem MarkCall.written_undo (h : (c.undo b).written = some r) : c.written = some r := by
  cases c with
  | drained b' ttl start returned =>
    rw [undo_drained] at h
    split_ifs at h
    · cases h
    · exact h
  | _ => exact h

/-- What is still on record as returned is of another instance. -/
theorem MarkCall.eq_of_undo {b' : Backend} {start returned : Time}
    (h : c.undo b = .drained b' ttl start returned) :
    c = .drained b' ttl start returned ∧ b' ≠ b := by
  cases c with
  | drained b'' ttl start returned =>
    rw [undo_drained] at h
    split_ifs at h with hb
    cases h
    exact ⟨rfl, hb⟩
  | _ => cases h

end Covers

/-- **The invariant of settled events**: until they expire, the marks of the `/drain`s that are not
undone are in the worker's dictionary and in a result of the poller, and those that are stored in
the store. -/
structure MarkState.Secured {ι : Type*} (s : MarkState ι) : Prop where
  draining : ∀ j r, (s.call j).live = some r → s.now < r.2 → s.draining.Covers r
  store : ∀ j r, (s.call j).written = some r → s.now < r.2 → s.store.Covers r
  asked : ∀ ts, s.poll = .asked ts → ts ≤ s.now
  listed : ∀ marks, s.poll = .listed marks → ∀ j r, (s.call j).live = some r → s.now < r.2 →
    marks.Covers r
  returned : ∀ j b ttl start t, s.call j = .drained b ttl start t → s.now < t + ttl →
    s.now < start + ttl

section Secured

variable {ι : Type*} {s s' : MarkState ι} {i j : ι} {b : Backend} {t ttl start : Time}

theorem MarkState.Secured.persists (h : s.Secured) : s.Persists := by
  intro i b ttl start t hcall hnow
  have hlive : (s.call i).live = some (makeBackendKey b, start + ttl) := by rw [hcall]; rfl
  have hleft := h.returned i b ttl start t hcall hnow
  exact isDraining_of_covers (h.draining i _ hlive hleft) hleft

theorem MarkState.Secured.pass (h : s.Secured) (hG : s.Settled (.pass t)) :
    MarkState.Secured { s with now := max s.now t } where
  draining j r hlive hnow := h.draining j r hlive ((le_max_left _ _).trans_lt hnow)
  store j r hwritten hnow := h.store j r hwritten ((le_max_left _ _).trans_lt hnow)
  asked ts hask := (h.asked ts hask).trans (le_max_left _ _)
  listed marks hlisted j r hlive hnow :=
    h.listed marks hlisted j r hlive ((le_max_left _ _).trans_lt hnow)
  returned := hG

/-- What an `/undrain` of the instance leaves is of other keys. -/
theorem MarkState.Settled.ne_key {r : String × Time} (hG : s.Settled (.undrain i b))
    (hlive : ((s.call j).undo b).live = some r) : r.1 ≠ makeBackendKey b := by
  intro hkey
  obtain ⟨ttl, start, returned, hcall⟩ := hG j r (MarkCall.live_undo hlive) hkey
  rw [hcall, MarkCall.undo_drained, if_pos rfl] at hlive
  cases hlive

/-- The query is evaluated while every live mark is stored. -/
theorem MarkState.Secured.read (h : s.Secured) (hG : s.Settled .read) {ts : Time}
    (hpoll : s.poll = .asked ts) :
    MarkState.Secured { s with poll := .listed (listDraining s.store ts) } where
  draining := h.draining
  store := h.store
  asked ts' hasked := by cases hasked
  listed marks hlisted j r hlive hnow := by
    cases hlisted
    have hwritten := MarkCall.written_of_live hlive (hG j)
    exact (h.store j r hwritten hnow).listed ((h.asked ts hpoll).trans_lt hnow)
  returned := h.returned

variable [DecidableEq ι]

/-- A call of the step, or another one. -/
theorem call_update (call : ι → MarkCall) {c c' : MarkCall}
    (h : Function.update call i c j = c') : c = c' ∨ call j = c' := by
  by_cases hj : j = i
  · rw [hj, Function.update_self] at h
    exact .inl h
  · rw [Function.update_of_ne hj] at h
    exact .inr h

theorem live_update (call : ι → MarkCall) {c : MarkCall} {r : String × Time}
    (h : (Function.update call i c j).live = some r) : c.live = some r ∨ (call j).live = some r := by
  rcases call_update call (rfl : Function.update call i c j = _) with heq | heq
  · rw [heq]
    exact .inl h
  · rw [heq]
    exact .inr h

theorem written_update (call : ι → MarkCall) {c : MarkCall} {r : String × Time}
    (h : (Function.update call i c j).written = some r) :
    c.written = some r ∨ (call j).written = some r := by
  rcases call_update call (rfl : Function.update call i c j = _) with heq | heq
  · rw [heq]
    exact .inl h
  · rw [heq]
    exact .inr h

theorem MarkState.Secured.drain (h : s.Secured) (hG : s.Settled (.drain i b ttl)) :
    MarkState.Secured { s with
      draining := markDraining s.draining b ttl s.now
      call := Function.update s.call i (.marked b ttl s.now) } where
  draining j r hlive hnow := by
    rcases live_update s.call hlive with hlive | hlive
    · cases hlive
      exact ⟨s.now + ttl, Function.update_self _ _ _, le_rfl⟩
    · exact (h.draining j r hlive hnow).update fun hkey => ⟨_, rfl, hG.2 j r hlive hkey⟩
  store j r hwritten hnow := by
    rcases written_update s.call hwritten with hwritten | hwritten
    · cases hwritten
    · exact h.store j r hwritten hnow
  asked := h.asked
  listed marks hlisted := absurd hlisted (hG.1 marks)
  returned j b' ttl' start t hcall := by
    rcases call_update s.call hcall with hcall | hcall
    · cases hcall
    · exact h.returned j b' ttl' start t hcall

theorem MarkState.Secured.undrain (h : s.Secured) (hG : s.Settled (.undrain i b)) :
    MarkState.Secured { s with
      draining := clearDraining s.draining b
      call := Function.update (fun j => (s.call j).undo b) i (.cleared b) } where
  draining j r hlive hnow := by
    rcases live_update (fun j => (s.call j).undo b) hlive with hlive | hlive
    · cases hlive
    · exact (h.draining j r (MarkCall.live_undo hlive) hnow).update fun hkey =>
        absurd hkey (hG.ne_key hlive)
  store j r hwritten hnow := by
    rcases written_update (fun j => (s.call j).undo b) hwritten with hwritten | hwritten
    · cases hwritten
    · exact h.store j r (MarkCall.written_undo hwritten) hnow
  asked := h.asked
  listed marks hlisted j r hlive hnow := by
    rcases live_update (fun j => (s.call j).undo b) hlive with hlive | hlive
    · cases hlive
    · exact h.listed marks hlisted j r (MarkCall.live_undo hlive) hnow
  returned j b' ttl start t hcall := by
    rcases call_update (fun j => (s.call j).undo b) hcall with hcall | hcall
    · cases hcall
    · exact h.returned j b' ttl start t (MarkCall.eq_of_undo hcall).1

/-- A call goes on, with the mark that it has. -/
theorem MarkState.Secured.call (h : s.Secured) {c : MarkCall} {store : Marks}
    (hlive : c.live = (s.call i).live)
    (hstore : ∀ j r, (Function.update s.call i c j).written = some r → s.now < r.2 →
      store.Covers r)
    (hreturned : ∀ b ttl start t, c = .drained b ttl start t → s.now < t + ttl →
      s.now < start + ttl) :
    MarkState.Secured { s with store := store, call := Function.update s.call i c } := by
  have hother : ∀ j, (Function.update s.call i c j).live = (s.call j).live := by
    intro j
    by_cases hj : j = i
    · rw [hj, Function.update_self, hlive]
    · rw [Function.update_of_ne hj]
  refine ⟨fun j r hr => h.draining j r (hother j ▸ hr), hstore, h.asked,
    fun marks hlisted j r hr => h.listed marks hlisted j r (hother j ▸ hr), ?_⟩
  intro j b ttl start t hcall
  rcases call_update s.call hcall with hcall | hcall
  · exact hreturned b ttl start t hcall
  · exact h.returned j b ttl start t hcall

/-- **One settled event keeps the invariant.** -/
theorem MarkState.Secured.step (h : s.Secured) {e : MarkEvent ι} (hG : s.Settled e)
    (he : s.step e = some s') : s'.Secured := by
  cases MarkState.moves_of_step he with
  | pass t => exact h.pass hG
  | drain hcall => exact h.drain hG
  | undrain hcall => exact h.undrain hG
  | @stores i b ttl start hcall =>
    refine h.call (by rw [hcall]; rfl) (fun j r hwritten hnow => ?_) (by rintro b ttl start t ⟨⟩)
    rcases written_update s.call hwritten with hwritten | hwritten
    · cases hwritten
      exact ⟨start + ttl, Function.update_self _ _ _, le_rfl⟩
    · exact (h.store j r hwritten hnow).update fun hkey =>
        ⟨_, rfl, (hG j r hwritten).1 b ttl start hcall hkey⟩
  | @deletes i b hcall =>
    refine h.call (by rw [hcall]; rfl) (fun j r hwritten hnow => ?_) (by rintro b ttl start t ⟨⟩)
    rcases written_update s.call hwritten with hwritten | hwritten
    · cases hwritten
    · exact (h.store j r hwritten hnow).update fun hkey =>
        absurd hkey ((hG j r hwritten).2 b hcall)
  | @drained i b ttl start hcall =>
    refine h.call (by rw [hcall]; rfl) (fun j r hwritten hnow => ?_) ?_
    · rcases written_update s.call hwritten with hwritten | hwritten
      · exact h.store i r (hcall ▸ hwritten) hnow
      · exact h.store j r hwritten hnow
    · rintro b ttl start t ⟨⟩ hnow
      exact hG b ttl start hcall (by linarith)
  | @undrained i b hcall =>
    refine h.call (by rw [hcall]; rfl) (fun j r hwritten hnow => ?_) (by rintro b ttl start t ⟨⟩)
    rcases written_update s.call hwritten with hwritten | hwritten
    · cases hwritten
    · exact h.store j r hwritten hnow
  | ask hpoll =>
    refine ⟨h.draining, h.store, fun ts hasked => ?_, fun marks hlisted => ?_, h.returned⟩
    · cases hasked
      exact le_rfl
    · cases hlisted
  | read hpoll => exact h.read hG hpoll
  | @assign marks hpoll =>
    refine ⟨h.listed marks hpoll, h.store, fun ts hasked => ?_, fun marks hlisted => ?_, h.returned⟩
    · cases hasked
    · cases hlisted

end Secured

/-! ## Where marks come from -/

section Made

variable {ι : Type*} {s s' : MarkState ι} {e : MarkEvent ι} {store₀ : Marks} {i : ι} {b : Backend}
  {key : String} {expires : Time}

/-- Every mark of the worker, of the store and of a result of the poller was made. -/
structure MarkState.Accounted (store₀ : Marks) (s : MarkState ι) : Prop where
  draining : ∀ key expires, s.draining key = some expires → s.Made store₀ key expires
  store : ∀ key expires, s.store key = some expires → s.Made store₀ key expires
  listed : ∀ marks, s.poll = .listed marks → ∀ key expires, marks key = some expires →
    s.Made store₀ key expires

/-- An instance is draining on a mark that was made and has not expired. -/
theorem MarkState.Accounted.not_draining (h : s.Accounted store₀) (hexpired : s.Expired store₀ b) :
    isDraining s.draining b s.now = false := by
  rw [Bool.eq_false_iff]
  intro hdraining
  obtain ⟨expires, hmark, hnow⟩ := isDraining_iff.mp hdraining
  exact (hexpired expires (h.draining _ expires hmark)).not_gt hnow

variable [DecidableEq ι]

theorem mark_update (call : ι → MarkCall) {c : MarkCall} (h : c.mark = (call i).mark) (j : ι) :
    (Function.update call i c j).mark = (call j).mark := by
  by_cases hj : j = i
  · rw [hj, Function.update_self, h]
  · rw [Function.update_of_ne hj]

/-- The marks of the calls stay as they are; a `/drain` that begins makes one. -/
theorem mark_step (he : s.step e = some s') (j : ι) : (s'.call j).mark = (s.call j).mark ∨
    ∃ b ttl, e = .drain j b ttl ∧ (s.call j).mark = none ∧
      (s'.call j).mark = some (makeBackendKey b, s.now + ttl) := by
  cases MarkState.moves_of_step he with
  | pass t => exact .inl rfl
  | @drain i b ttl hcall =>
    by_cases hj : j = i
    · subst hj
      exact .inr ⟨b, ttl, rfl, by rw [hcall]; rfl, by simp [MarkCall.mark]⟩
    · exact .inl (congrArg MarkCall.mark (Function.update_of_ne hj _ _))
  | @undrain i b hcall =>
    left
    by_cases hj : j = i
    · subst hj
      simp [hcall, MarkCall.mark]
    · dsimp only
      rw [Function.update_of_ne hj, MarkCall.mark_undo]
  | stores hcall => exact .inl (mark_update s.call (by rw [hcall]; rfl) j)
  | deletes hcall => exact .inl (mark_update s.call (by rw [hcall]; rfl) j)
  | drained hcall => exact .inl (mark_update s.call (by rw [hcall]; rfl) j)
  | undrained hcall => exact .inl (mark_update s.call (by rw [hcall]; rfl) j)
  | ask hpoll => exact .inl rfl
  | read hpoll => exact .inl rfl
  | assign hpoll => exact .inl rfl

theorem MarkState.Made.step (h : s.Made store₀ key expires) (he : s.step e = some s') :
    s'.Made store₀ key expires := by
  rcases h with ⟨i, hmark⟩ | hstart
  · rcases mark_step he i with heq | ⟨b, ttl, -, hnone, -⟩
    · exact .inl ⟨i, heq.trans hmark⟩
    · rw [hnone] at hmark
      cases hmark
  · exact .inr hstart

/-- Only a `/drain` of the instance makes a mark for it. -/
theorem MarkState.Made.of_step (h : s'.Made store₀ (makeBackendKey b) expires)
    (he : s.step e = some s') (hother : ¬ e.Drains b) :
    s.Made store₀ (makeBackendKey b) expires := by
  rcases h with ⟨i, hmark⟩ | hstart
  · rcases mark_step he i with heq | ⟨b', ttl, rfl, -, hnew⟩
    · exact .inl ⟨i, heq.symm.trans hmark⟩
    · rw [hnew] at hmark
      exact absurd (congrArg Prod.fst (Option.some.inj hmark)) hother
  · exact .inr hstart

theorem now_step (he : s.step e = some s') : s.now ≤ s'.now := by
  cases MarkState.moves_of_step he with
  | pass t => exact le_max_left _ _
  | _ => exact le_rfl

theorem update_accounted {P : String → Time → Prop} {marks : Marks} {mark : Option Time}
    (h : ∀ key expires, marks key = some expires → P key expires)
    (hmark : ∀ expires, mark = some expires → P key expires) (key' : String) (expires : Time)
    (hget : Function.update marks key mark key' = some expires) : P key' expires := by
  by_cases hkey : key' = key
  · subst hkey
    rw [Function.update_self] at hget
    exact hmark expires hget
  · rw [Function.update_of_ne hkey] at hget
    exact h key' expires hget

theorem MarkState.Accounted.step (h : s.Accounted store₀) (he : s.step e = some s') :
    s'.Accounted store₀ := by
  have hdraining key expires hget := (h.draining key expires hget).step he
  have hstore key expires hget := (h.store key expires hget).step he
  have hlisted marks hpoll key expires hget := (h.listed marks hpoll key expires hget).step he
  cases MarkState.moves_of_step he with
  | pass t => exact ⟨hdraining, hstore, hlisted⟩
  | @drain i b ttl hcall =>
    refine ⟨update_accounted hdraining fun expires hmark => ?_, hstore, hlisted⟩
    obtain rfl := Option.some.inj hmark
    exact .inl ⟨i, by simp [MarkCall.mark]⟩
  | undrain hcall =>
    exact ⟨update_accounted hdraining (by rintro expires ⟨⟩), hstore, hlisted⟩
  | @stores i b ttl start hcall =>
    refine ⟨hdraining, update_accounted hstore fun expires hmark => ?_, hlisted⟩
    obtain rfl := Option.some.inj hmark
    exact .inl ⟨i, by simp [MarkCall.mark]⟩
  | deletes hcall =>
    exact ⟨hdraining, update_accounted hstore (by rintro expires ⟨⟩), hlisted⟩
  | drained hcall => exact ⟨hdraining, hstore, hlisted⟩
  | undrained hcall => exact ⟨hdraining, hstore, hlisted⟩
  | ask hpoll => exact ⟨hdraining, hstore, by rintro marks ⟨⟩⟩
  | @read ts hpoll =>
    refine ⟨hdraining, hstore, fun marks hmarks key expires hget => ?_⟩
    cases hmarks
    exact hstore key expires (Option.filter_eq_some_iff.mp hget).1
  | @assign marks hpoll => exact ⟨hlisted marks hpoll, hstore, by rintro marks ⟨⟩⟩

theorem MarkState.Expired.step (h : s.Expired store₀ b) (he : s.step e = some s')
    (hother : ¬ e.Drains b) : s'.Expired store₀ b :=
  fun expires hmade => (h expires (hmade.of_step he hother)).trans (now_step he)

end Made

/-! ## Every run -/

section Runs

variable {ι : Type*} [DecidableEq ι]

theorem accounted_of_reach {now : Time} {store₀ : Marks} {s : MarkState ι}
    (h : Reach MarkState.step anyEvent (MarkState.start now store₀) s) : s.Accounted store₀ := by
  have hstart : (MarkState.start now store₀ : MarkState ι).Accounted store₀ :=
    ⟨by rintro key expires ⟨⟩, fun key expires hget => .inr hget, by rintro marks ⟨⟩⟩
  exact h.invariant hstart fun ha _ he => ha.step he

/-- **Drain marks persist.** Along every run of settled events, each `/drain` that returned marks its
instance for its time to live, until an `/undrain` of it begins. In any run, once every mark of an
instance has expired, it is not draining until a new `/drain` of it begins. -/
theorem marks_persist (now : Time) (store₀ : Marks) :
    (∀ s : MarkState ι, Reach MarkState.step MarkState.Settled (MarkState.start now store₀) s →
      s.Persists) ∧
    ∀ (s s' : MarkState ι) (b : Backend),
      Reach MarkState.step anyEvent (MarkState.start now store₀) s → s.Expired store₀ b →
      Reach MarkState.step (fun _ e => ¬ e.Drains b) s s' →
      isDraining s'.draining b s'.now = false := by
  constructor
  · intro s hreach
    have hstart : (MarkState.start now store₀ : MarkState ι).Secured :=
      ⟨by rintro j r ⟨⟩, by rintro j r ⟨⟩, by rintro ts ⟨⟩, by rintro marks ⟨⟩,
        by rintro j b ttl start t ⟨⟩⟩
    exact (hreach.invariant hstart fun ha hG he => ha.step hG he).persists
  · intro s s' b hreach hexpired hlater
    have hexpired' : s'.Expired store₀ b :=
      hlater.invariant (I := fun p => p.Expired store₀ b) hexpired fun ha hG he => ha.step he hG
    have haccounted := accounted_of_reach (hreach.trans (hlater.mono fun _ _ _ => trivial))
    exact haccounted.not_draining hexpired'

end Runs

/-! ### One `/drain` and one poll -/

/-- An instance to drain. -/
def qwenOne : Backend := ⟨"qwen", "one"⟩

/-- A `/drain`, then a refresh, then a minute less a second. -/
def drainThenPoll : List (MarkEvent Nat) :=
  [.drain 0 qwenOne 60, .write 0, .finish 0, .ask, .read, .assign, .pass 59]

/-- The mark is stored and the `/drain` answered between the query and its assignment. -/
def drainDuringPoll : List (MarkEvent Nat) :=
  [.ask, .read, .drain 0 qwenOne 60, .write 0, .finish 0, .assign]

/-- The worker while call 0 is the only one. -/
def oneCall (c : MarkCall) (store draining : Marks) (poll : DrainPoll) : MarkState Nat where
  now := 0
  store := store
  draining := draining
  poll := poll
  call := Function.update (fun _ => .idle) 0 c

theorem oneCall_live {c : MarkCall} {store draining : Marks} {poll : DrainPoll} {j : Nat}
    {r : String × Time} (h : ((oneCall c store draining poll).call j).live = some r) :
    c.live = some r := by
  rcases live_update (fun _ => .idle) h with h | h
  · exact h
  · cases h

theorem oneCall_written {c : MarkCall} {store draining : Marks} {poll : DrainPoll} {j : Nat}
    {r : String × Time} (h : ((oneCall c store draining poll).call j).written = some r) :
    c.written = some r := by
  rcases written_update (fun _ => .idle) h with h | h
  · exact h
  · cases h

theorem settled_drainThenPoll :
    Along MarkState.step MarkState.Settled (MarkState.start 0 fun _ => none) drainThenPoll := by
  have hstart : (MarkState.start 0 fun _ => none) =
      oneCall .idle (fun _ => none) (fun _ => none) .resting := by
    simp [MarkState.start, oneCall]
  rw [hstart]
  have hnamed : qwenOne.named = true := by decide
  refine ⟨⟨by rintro marks ⟨⟩, fun j r hlive => ?_⟩, fun s₁ h₁ => ?_⟩
  · cases oneCall_live hlive
  obtain rfl : oneCall (.marked qwenOne 60 0) _ _ _ = s₁ := by
    simpa [MarkState.step, oneCall, hnamed] using h₁
  refine ⟨fun j r hwritten => ?_, fun s₂ h₂ => ?_⟩
  · cases oneCall_written hwritten
  obtain rfl : oneCall (.stored qwenOne 60 0) _ _ _ = s₂ := by
    simpa [MarkState.step, oneCall] using h₂
  refine ⟨fun b ttl start hcall hpos => ?_, fun s₃ h₃ => ?_⟩
  · obtain ⟨rfl, rfl, rfl⟩ : qwenOne = b ∧ 60 = ttl ∧ 0 = start := by simpa [oneCall] using hcall
    simp [oneCall]
  obtain rfl : oneCall (.drained qwenOne 60 0 0) _ _ _ = s₃ := by
    simpa [MarkState.step, oneCall] using h₃
  refine ⟨trivial, fun s₄ h₄ => ?_⟩
  obtain rfl : oneCall (.drained qwenOne 60 0 0) _ _ (.asked 0) = s₄ := by
    simpa [MarkState.step, oneCall] using h₄
  refine ⟨fun j b ttl start hcall => ?_, fun s₅ h₅ => ?_⟩
  · rcases call_update (fun _ => .idle) hcall with hcall | hcall <;> cases hcall
  obtain rfl : oneCall (.drained qwenOne 60 0 0) _ _ (.listed _) = s₅ := by
    simpa [MarkState.step, oneCall] using h₅
  refine ⟨trivial, fun s₆ h₆ => ?_⟩
  obtain rfl : oneCall (.drained qwenOne 60 0 0) _ _ .resting = s₆ := by
    simpa [MarkState.step, oneCall] using h₆
  refine ⟨fun j b ttl start returned hcall hnow => ?_, fun _ _ => trivial⟩
  rcases call_update (fun _ => .idle) hcall with hcall | hcall
  · cases hcall
    exact hnow
  · cases hcall

/-- The refresh in between brings the mark back. -/
theorem marks_persist_qwen : ∃ s : MarkState Nat,
    Reach MarkState.step MarkState.Settled (MarkState.start 0 fun _ => none) s ∧
    s.now = 59 ∧ isDraining s.draining qwenOne s.now = true := by
  have hrun : (run MarkState.step (MarkState.start 0 fun _ => none) drainThenPoll).any (fun s =>
      s.call 0 = .drained qwenOne 60 0 0 ∧ s.now = 59) = true := by decide +kernel
  obtain ⟨s, hs, hreach, hcall, hnow⟩ := Reach.exists_of_any settled_drainThenPoll hrun
  refine ⟨s, hreach, hnow, (marks_persist 0 fun _ => none).1 s hreach 0 _ _ _ _ hcall ?_⟩
  rw [hnow]
  norm_num

/-- **The poller replaces the dictionary by a list from before the mark**: the `/drain` has returned,
and its instance is not draining. -/
theorem mark_lost : ¬ ∀ s : MarkState Nat,
    Reach MarkState.step anyEvent (MarkState.start 0 fun _ => none) s → s.Persists := by
  intro hpersists
  have hrun : (run MarkState.step (MarkState.start 0 fun _ => none) drainDuringPoll).any (fun s =>
      s.call 0 = .drained qwenOne 60 0 0 ∧ s.now = 0 ∧
        isDraining s.draining qwenOne s.now = false) = true := by decide +kernel
  obtain ⟨s, hs, hstate⟩ := (Option.any_eq_true _ _).mp hrun
  obtain ⟨hcall, hnow, hlost⟩ := of_decide_eq_true hstate
  have hdraining := hpersists s (Reach.of_run hs) 0 _ _ _ _ hcall (by rw [hnow]; norm_num)
  rw [hlost] at hdraining
  cases hdraining

end Llmops.Router
