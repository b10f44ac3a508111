import Llmops.Leader.Lease
import Llmops.Lib.Run
import Mathlib

/-!
# Calls of the lease, statement by statement

`try_acquire_leader` and `release_leader` (`llmops_store.py:732-761`) on one lease, called by anyone
at any time. A call reads the clock, later runs its upsert and later reads the row back; what other
calls do in between is left to the run. Upserts take effect in the order of their clock readings.

What happened is kept beside the row: the upserts that took the lease, the answers and the releases,
each with the number of the statement (`start`, `at`).

* `leaseSafe_of_reach`: where the calls of one holder do not overlap, of two calls that returned True
  within one ttl the holder of the first has released in between, a renewal that reads back within its
  ttl succeeds, others cannot release the lease and the first upsert after its expiry takes it;
* `late_answer`: a call returns True on the row that another call of the same holder has taken since.
-/

namespace Llmops.Leader

open Llmops.Lib

variable {R : Type*}

/-- A call of `try_acquire_leader` with its clock reading, once its upsert was statement `start`. -/
structure Call (R : Type*) where
  holder : R
  now : Time
  start : Nat

/-- Where a call is suspended. `took` says whether its upsert has written the row. -/
inductive Phase (R : Type*) where
  | idle
  | upsert (holder : R) (now : Time)
  | read (call : Call R) (took : Bool)

/-- The holder whose call it is. -/
def Phase.holder : Phase R → Option R
  | .idle => none
  | .upsert holder _ => some holder
  | .read call _ => some call.holder

/-- A release that deleted the row. -/
structure Release (R : Type*) where
  holder : R
  at_ : Nat

/-- The row, the calls in flight, and what has happened. `last` is the newest clock reading that an
upsert has run with. -/
structure Table (R : Type*) where
  clock : Time
  last : Time
  lease : Option (Lease R) := none
  phase : Nat → Phase R := fun _ => .idle
  count : Nat := 0
  takes : List (Call R) := []
  answers : List (Call R × Bool) := []
  releases : List (Release R) := []

def Table.init (t : Time) : Table R := { clock := t, last := t }

inductive CallEvent (R : Type*) where
  | tick (now : Time)
  | acquire (i : Nat) (holder : R)
  | upsert (i : Nat)
  | readBack (i : Nat)
  | release (holder : R)

namespace Table

/-- Call `i` is suspended again. -/
def goto (s : Table R) (i : Nat) (phase : Phase R) : Table R :=
  { s with phase := Function.update s.phase i phase }

variable [DecidableEq R]

/-- The upsert of a call, as the next statement. -/
def runUpsert (s : Table R) (ttl : Time) (i : Nat) (holder : R) (now : Time) : Table R :=
  let lease := upsertLease s.lease holder now ttl
  let took := lease.any fun row => row.holder = holder
  let call : Call R := ⟨holder, now, s.count⟩
  { s with lease, last := now, count := s.count + 1,
           takes := if took then call :: s.takes else s.takes }.goto i (.read call took)

/-- The release of a holder, as the next statement. -/
def runRelease (s : Table R) (holder : R) : Table R :=
  if s.lease.any fun row => row.holder = holder then
    { s with lease := deleteLease s.lease holder, count := s.count + 1,
             releases := ⟨holder, s.count⟩ :: s.releases }
  else { s with lease := deleteLease s.lease holder, count := s.count + 1 }

end Table

variable [DecidableEq R]

def callStep (ttl : Time) (s : Table R) : CallEvent R → Option (Table R)
  | .tick now => if s.clock ≤ now then some { s with clock := now } else none
  | .acquire i holder =>
    match s.phase i with
    | .idle => some (s.goto i (.upsert holder s.clock))
    | _ => none
  | .upsert i =>
    match s.phase i with
    | .upsert holder now => if s.last ≤ now then some (s.runUpsert ttl i holder now) else none
    | _ => none
  | .readBack i =>
    match s.phase i with
    | .read call _ =>
      some ({ s with answers := (call, holdsLease s.lease call.holder call.now) :: s.answers }.goto i
        .idle)
    | _ => none
  | .release holder => some (s.runRelease holder)

/-- The calls of one holder do not overlap: it makes the next when the last one has returned. -/
def NoOverlap (s : Table R) : CallEvent R → Prop
  | .acquire _ holder | .release holder => ∀ i, (s.phase i).holder ≠ some holder
  | _ => True

/-! ## The properties -/

/-- `x` came first and its holder released before `y`. -/
def ReleasedBetween (s : Table R) (x y : Call R) : Prop :=
  ∃ r ∈ s.releases, r.holder = x.holder ∧ x.start < r.at_ ∧ r.at_ < y.start

/-- Two holders that are answered True within one ttl: the first released before the second. -/
def OneHolder (ttl : Time) (s : Table R) : Prop :=
  ∀ x y, (x, true) ∈ s.answers → (y, true) ∈ s.answers → y.holder ≠ x.holder → x.now ≤ y.now →
    y.now < x.now + ttl → ReleasedBetween s x y

/-- The safety of the lease. Two calls with the same clock reading may be in either order. -/
structure LeaseSafe (ttl : Time) (s : Table R) : Prop where
  exclusive : ∀ x y, (x, true) ∈ s.answers → (y, true) ∈ s.answers → y.holder ≠ x.holder →
    x.now ≤ y.now → y.now < x.now + ttl →
      ReleasedBetween s x y ∨ (x.now = y.now ∧ ReleasedBetween s y x)
  renew : ∀ i call, s.phase i = .read call true → s.clock ≤ call.now + ttl →
    holdsLease s.lease call.holder call.now = true
  own : ∀ i s' call took row, callStep ttl s (.upsert i) = some s' → s'.phase i = .read call took →
    s.lease = some row → row.holder = call.holder → took = true
  foreign : ∀ holder s' row, callStep ttl s (.release holder) = some s' → s.lease = some row →
    row.holder ≠ holder → s'.lease = s.lease ∧ s'.releases = s.releases
  expired : ∀ i s' call took row, callStep ttl s (.upsert i) = some s' →
    s'.phase i = .read call took → s.lease = some row → row.expiresAt < call.now →
      took = true ∧ s'.lease = some ⟨call.holder, call.now + ttl⟩

/-! ## The invariant -/

/-- The row is not the holder's. -/
def NotOwn (lease : Option (Lease R)) (holder : R) : Prop :=
  ∀ row, lease = some row → row.holder ≠ holder

/-- What a take leaves: a release, the row, or an expiry that some upsert has seen. -/
def Kept (ttl : Time) (s : Table R) (x : Call R) : Prop :=
  (∃ r ∈ s.releases, r.holder = x.holder ∧ x.start < r.at_) ∨
    (∃ e, s.lease = some ⟨x.holder, e⟩ ∧ x.now + ttl ≤ e) ∨ x.now + ttl < s.last

/-- The row a call finds when it reads it back. -/
def Finds (ttl : Time) (s : Table R) (call : Call R) (took : Bool) : Prop :=
  if took then s.lease = some ⟨call.holder, call.now + ttl⟩ ∨
    (call.now + ttl < s.last ∧ NotOwn s.lease call.holder)
  else NotOwn s.lease call.holder

structure CallInv (ttl : Time) (s : Table R) : Prop where
  clock : s.last ≤ s.clock
  pending : ∀ i holder now, s.phase i = .upsert holder now → now ≤ s.clock
  single : ∀ i j holder, (s.phase i).holder = some holder → (s.phase j).holder = some holder → i = j
  finds : ∀ i call took, s.phase i = .read call took → Finds ttl s call took
  flight : ∀ i call, s.phase i = .read call true → call ∈ s.takes
  taken : ∀ x ∈ s.takes, x.now ≤ s.last ∧ x.start < s.count
  ordered : ∀ x ∈ s.takes, ∀ y ∈ s.takes, x.start < y.start → x.now ≤ y.now
  distinct : ∀ x ∈ s.takes, ∀ y ∈ s.takes, x.start = y.start → x = y
  released : ∀ r ∈ s.releases, r.at_ < s.count
  kept : ∀ x ∈ s.takes, Kept ttl s x
  exclusive : ∀ x ∈ s.takes, ∀ y ∈ s.takes, y.holder ≠ x.holder → x.start < y.start →
    y.now ≤ x.now + ttl → ReleasedBetween s x y
  answered : ∀ x, (x, true) ∈ s.answers → x ∈ s.takes

omit [DecidableEq R] in
theorem CallInv.init (ttl t : Time) : CallInv ttl (.init t : Table R) := by
  refine ⟨le_refl t, ?_, ?_, ?_, ?_, ?_, ?_, ?_, ?_, ?_, ?_, ?_⟩
  all_goals simp [Table.init, Phase.holder]

section Steps

variable {ttl : Time} {s : Table R} {i : Nat} {holder : R} {now : Time}

omit [DecidableEq R] in
theorem Table.goto_phase (s : Table R) (i : Nat) (phase : Phase R) (j : Nat) :
    (s.goto i phase).phase j = if j = i then phase else s.phase j := Function.update_apply ..

/-- The two outcomes of an upsert: it takes the lease, or leaves that of another, unexpired. -/
theorem runUpsert_cases (s : Table R) (ttl : Time) (i : Nat) (holder : R) (now : Time) :
    (s.runUpsert ttl i holder now = { s with
        lease := some ⟨holder, now + ttl⟩, last := now, count := s.count + 1,
        takes := ⟨holder, now, s.count⟩ :: s.takes }.goto i (.read ⟨holder, now, s.count⟩ true) ∧
      ∀ row, s.lease = some row → row.expiresAt < now ∨ row.holder = holder) ∨
    ∃ row, s.lease = some row ∧ row.holder ≠ holder ∧ now ≤ row.expiresAt ∧
      s.runUpsert ttl i holder now = { s with last := now, count := s.count + 1 }.goto i
        (.read ⟨holder, now, s.count⟩ false) := by
  obtain h | ⟨row, hrow, hne, hlive, h⟩ := upsertLease_cases s.lease holder now ttl
  · refine .inl ⟨by simp [Table.runUpsert, h], fun row hrow => ?_⟩
    by_contra hno
    obtain ⟨hexp, hne⟩ := not_or.mp hno
    rw [hrow, upsertLease_of_live hne (not_lt.mp hexp)] at h
    cases h
    exact hne rfl
  · refine .inr ⟨row, hrow, hne, hlive, ?_⟩
    simp only [Table.runUpsert, h, Option.any_some, hne, decide_false, Bool.false_eq_true, if_false]
    rw [← hrow]

omit [DecidableEq R] in
/-- Where a holder has a call in flight it makes no other. -/
theorem single_goto {phase : Phase R}
    (hs : ∀ j k h, (s.phase j).holder = some h → (s.phase k).holder = some h → j = k)
    (hnew : ∀ h, phase.holder = some h →
      (s.phase i).holder = some h ∨ ∀ j, (s.phase j).holder ≠ some h) :
    ∀ j k h, ((s.goto i phase).phase j).holder = some h →
      ((s.goto i phase).phase k).holder = some h → j = k := by
  intro j k h hj hk
  rw [Table.goto_phase] at hj hk
  split_ifs at hj hk with hji hki hki
  · rw [hji, hki]
  · obtain hi | hnone := hnew h hj
    · exact hji.trans (hs i k h hi hk)
    · exact absurd hk (hnone k)
  · obtain hi | hnone := hnew h hk
    · exact (hs j i h hj hi).trans hki.symm
    · exact absurd hj (hnone j)
  · exact hs j k h hj hk

omit [DecidableEq R] in
theorem inv_acquire (hi : CallInv ttl s)
    (hfree : ∀ j, (s.phase j).holder ≠ some holder) :
    CallInv ttl (s.goto i (.upsert holder s.clock)) := by
  refine ⟨hi.clock, ?_, ?_, ?_, ?_, hi.taken, hi.ordered, hi.distinct, hi.released, hi.kept,
    hi.exclusive, hi.answered⟩
  · intro j h now hj
    rw [Table.goto_phase] at hj
    split_ifs at hj with hji
    · cases hj
      exact le_refl _
    · exact hi.pending j h now hj
  · refine single_goto hi.single fun h hh => .inr ?_
    cases hh
    exact hfree
  · intro j call took hj
    rw [Table.goto_phase] at hj
    split_ifs at hj
    exact hi.finds j call took hj
  · intro j call hj
    rw [Table.goto_phase] at hj
    split_ifs at hj
    exact hi.flight j call hj

theorem inv_readBack {call : Call R} {took : Bool} (hi : CallInv ttl s)
    (hread : s.phase i = .read call took) :
    CallInv ttl ({ s with answers :=
      (call, holdsLease s.lease call.holder call.now) :: s.answers }.goto i .idle) := by
  refine ⟨hi.clock, ?_, ?_, ?_, ?_, hi.taken, hi.ordered, hi.distinct, hi.released, hi.kept,
    hi.exclusive, ?_⟩
  · intro j h now hj
    rw [Table.goto_phase] at hj
    split_ifs at hj
    exact hi.pending j h now hj
  · exact @single_goto _ { s with answers := _ } i .idle hi.single fun h hh => by cases hh
  · intro j c t hj
    rw [Table.goto_phase] at hj
    split_ifs at hj
    exact hi.finds j c t hj
  · intro j c hj
    rw [Table.goto_phase] at hj
    split_ifs at hj
    exact hi.flight j c hj
  · intro x hx
    obtain hx | hx := List.mem_cons.mp hx
    · obtain ⟨rfl, hholds⟩ := Prod.mk.inj hx
      obtain ⟨row, hrow, hown, -⟩ := holdsLease_eq_true.mp hholds.symm
      -- an upsert that did not take the lease finds no row of its holder
      have hfinds := hi.finds i x took hread
      cases took with
      | true => exact hi.flight i x hread
      | false => exact absurd hown (hfinds row hrow)
    · exact hi.answered x hx

omit [DecidableEq R] in
theorem single_upsert {call : Call R} {took : Bool} (hi : CallInv ttl s)
    (hphase : s.phase i = .upsert holder now) (hcall : call.holder = holder) :
    ∀ j k h, ((s.goto i (.read call took)).phase j).holder = some h →
      ((s.goto i (.read call took)).phase k).holder = some h → j = k := by
  refine single_goto hi.single fun h hh => .inl ?_
  rw [hphase, ← hh, Phase.holder, Phase.holder, hcall]

omit [DecidableEq R] in
theorem pending_upsert {call : Call R} {took : Bool} (hi : CallInv ttl s) :
    ∀ j h t, (s.goto i (.read call took)).phase j = .upsert h t → t ≤ s.clock := by
  intro j h t hj
  rw [Table.goto_phase] at hj
  split_ifs at hj
  exact hi.pending j h t hj

omit [DecidableEq R] in
/-- What the earlier takes leave when the lease is taken. -/
theorem kept_take (hi : CallInv ttl s) (hlast : s.last ≤ now)
    (htake : ∀ row, s.lease = some row → row.expiresAt < now ∨ row.holder = holder) {x : Call R}
    (hx : x ∈ s.takes) :
    (∃ r ∈ s.releases, r.holder = x.holder ∧ x.start < r.at_) ∨
      (x.holder = holder ∧ x.now + ttl ≤ now + ttl) ∨ x.now + ttl < now := by
  obtain hrel | ⟨e, he, hle⟩ | hold := hi.kept x hx
  · exact .inl hrel
  · obtain hexp | hown := htake _ he
    · exact .inr (.inr (lt_of_le_of_lt hle hexp))
    · have hnow := (hi.taken x hx).1.trans hlast
      exact .inr (.inl ⟨hown, by linarith⟩)
  · exact .inr (.inr (lt_of_lt_of_le hold hlast))

omit [DecidableEq R] in
/-- The call takes the lease: the row is its holder's for a new ttl. -/
theorem inv_take (hi : CallInv ttl s) (hphase : s.phase i = .upsert holder now)
    (hlast : s.last ≤ now)
    (htake : ∀ row, s.lease = some row → row.expiresAt < now ∨ row.holder = holder) :
    CallInv ttl ({ s with
      lease := some ⟨holder, now + ttl⟩, last := now, count := s.count + 1,
      takes := ⟨holder, now, s.count⟩ :: s.takes }.goto i (.read ⟨holder, now, s.count⟩ true)) := by
  -- the new take starts after the others
  have hlater : ∀ x ∈ s.takes, x.start < s.count := fun x hx => (hi.taken x hx).2
  refine ⟨hi.pending i holder now hphase, pending_upsert (s := s) hi,
    single_upsert (s := s) hi hphase rfl,
    ?finds, ?flight, ?taken, ?ordered, ?distinct, fun r hr => Nat.lt_succ_of_lt (hi.released r hr),
    ?kept, ?exclusive, fun x hx => List.mem_cons_of_mem _ (hi.answered x hx)⟩
  case finds =>
    intro j call took hj
    rw [Table.goto_phase] at hj
    split_ifs at hj with hji
    · cases hj
      exact .inl rfl
    · have hne : call.holder ≠ holder := by
        intro heq
        refine hji (hi.single j i holder ?_ ?_)
        · rw [hj, ← heq]
          rfl
        · rw [hphase]
          rfl
      have hfinds := hi.finds j call took hj
      cases took with
      | true =>
        refine .inr ⟨?_, fun row hrow => by cases hrow; exact hne.symm⟩
        obtain hmine | ⟨hold, -⟩ := hfinds
        · obtain hexp | hown := htake _ hmine
          · exact hexp
          · exact absurd hown hne
        · exact lt_of_lt_of_le hold hlast
      | false =>
        intro row hrow
        cases hrow
        exact hne.symm
  case flight =>
    intro j call hj
    rw [Table.goto_phase] at hj
    split_ifs at hj with hji
    · cases hj
      exact List.mem_cons_self
    · exact List.mem_cons_of_mem _ (hi.flight j call hj)
  case taken =>
    intro x hx
    obtain rfl | hx := List.mem_cons.mp hx
    · exact ⟨le_refl _, Nat.lt_succ_self _⟩
    · exact ⟨(hi.taken x hx).1.trans hlast, Nat.lt_succ_of_lt (hlater x hx)⟩
  case ordered =>
    intro x hx y hy hlt
    obtain rfl | hx := List.mem_cons.mp hx <;> obtain rfl | hy := List.mem_cons.mp hy
    · exact le_refl _
    · exact absurd hlt (hlater y hy).asymm
    · exact (hi.taken x hx).1.trans hlast
    · exact hi.ordered x hx y hy hlt
  case distinct =>
    intro x hx y hy hxy
    obtain rfl | hx := List.mem_cons.mp hx <;> obtain rfl | hy := List.mem_cons.mp hy
    · rfl
    · exact absurd hxy (hlater y hy).ne'
    · exact absurd hxy (hlater x hx).ne
    · exact hi.distinct x hx y hy hxy
  case kept =>
    intro x hx
    obtain rfl | hx := List.mem_cons.mp hx
    · exact .inr (.inl ⟨_, rfl, le_refl _⟩)
    · obtain hrel | ⟨hown, hle⟩ | hold := kept_take hi hlast htake hx
      · exact .inl hrel
      · exact .inr (.inl ⟨_, by rw [hown]; rfl, hle⟩)
      · exact .inr (.inr hold)
  case exclusive =>
    intro x hx y hy hne hlt hle
    obtain rfl | hx := List.mem_cons.mp hx <;> obtain rfl | hy := List.mem_cons.mp hy
    · exact absurd rfl hne
    · exact absurd hlt (hlater y hy).asymm
    · -- the new take against an old one: within its ttl only a release makes way
      obtain ⟨r, hr, hown, hafter⟩ | ⟨hown, -⟩ | hold := kept_take hi hlast htake hx
      · exact ⟨r, hr, hown, hafter, hi.released r hr⟩
      · exact absurd hown.symm hne
      · exact absurd hold (not_lt.mpr hle)
    · exact hi.exclusive x hx y hy hne hlt hle

omit [DecidableEq R] in
/-- Another holds the lease: only the newest reading moves. -/
theorem inv_refused {row : Lease R} (hi : CallInv ttl s) (hphase : s.phase i = .upsert holder now)
    (hlast : s.last ≤ now) (hrow : s.lease = some row) (hne : row.holder ≠ holder) :
    CallInv ttl ({ s with last := now, count := s.count + 1 }.goto i
      (.read ⟨holder, now, s.count⟩ false)) := by
  refine ⟨hi.pending i holder now hphase, pending_upsert (s := s) hi,
    single_upsert (s := s) hi hphase rfl,
    ?finds, ?flight,
    fun x hx => ⟨(hi.taken x hx).1.trans hlast, Nat.lt_succ_of_lt (hi.taken x hx).2⟩, hi.ordered,
    hi.distinct, fun r hr => Nat.lt_succ_of_lt (hi.released r hr), ?kept, hi.exclusive, hi.answered⟩
  case finds =>
    intro j call took hj
    rw [Table.goto_phase] at hj
    split_ifs at hj with hji
    · cases hj
      intro r hr
      cases hrow.symm.trans hr
      exact hne
    · have hfinds := hi.finds j call took hj
      cases took with
      | true =>
        obtain hmine | ⟨hold, hno⟩ := hfinds
        · exact .inl hmine
        · exact .inr ⟨lt_of_lt_of_le hold hlast, hno⟩
      | false => exact hfinds
  case flight =>
    intro j call hj
    rw [Table.goto_phase] at hj
    split_ifs at hj with hji
    · cases hj
    · exact hi.flight j call hj
  case kept =>
    intro x hx
    obtain hrel | hrow | hold := hi.kept x hx
    · exact .inl hrel
    · exact .inr (.inl hrow)
    · exact .inr (.inr (lt_of_lt_of_le hold hlast))

theorem inv_upsert (hi : CallInv ttl s) (hphase : s.phase i = .upsert holder now)
    (hlast : s.last ≤ now) : CallInv ttl (s.runUpsert ttl i holder now) := by
  obtain ⟨heq, htake⟩ | ⟨row, hrow, hne, -, heq⟩ := runUpsert_cases s ttl i holder now <;> rw [heq]
  · exact inv_take hi hphase hlast htake
  · exact inv_refused hi hphase hlast hrow hne

/-- A release of the holder itself, or one that changes nothing. -/
theorem runRelease_cases (s : Table R) (holder : R) :
    (∃ row, s.lease = some row ∧ row.holder = holder ∧ s.runRelease holder = { s with
        lease := none, count := s.count + 1, releases := ⟨holder, s.count⟩ :: s.releases }) ∨
      (NotOwn s.lease holder ∧ s.runRelease holder = { s with count := s.count + 1 }) := by
  unfold Table.runRelease
  by_cases hown : s.lease.any (fun row => row.holder = holder) = true
  · obtain ⟨row, hrow, hholder⟩ := (Option.any_eq_true _ _).mp hown
    have hholder : row.holder = holder := by simpa using hholder
    refine .inl ⟨row, hrow, hholder, ?_⟩
    rw [if_pos hown, hrow, deleteLease, if_pos hholder]
  · have hno : NotOwn s.lease holder := by
      intro row hrow heq
      exact hown (by rw [hrow]; simpa using heq)
    have hsame : deleteLease s.lease holder = s.lease := by
      cases hl : s.lease with
      | none => rfl
      | some row => exact deleteLease_of_ne (hno row hl)
    refine .inr ⟨hno, ?_⟩
    rw [if_neg hown, hsame]

theorem inv_release (hi : CallInv ttl s) (hfree : ∀ j, (s.phase j).holder ≠ some holder) :
    CallInv ttl (s.runRelease holder) := by
  have hother : ∀ j call took, s.phase j = .read call took → call.holder ≠ holder :=
    fun j call took hj heq => hfree j (by rw [hj, ← heq]; rfl)
  have hcount (n : Nat) (h : n < s.count) : n < s.count + 1 := Nat.lt_succ_of_lt h
  obtain ⟨row, hrow, hown, heq⟩ | ⟨-, heq⟩ := runRelease_cases s holder
  · rw [heq]
    refine ⟨hi.clock, hi.pending, hi.single, ?_, hi.flight,
      fun x hx => ⟨(hi.taken x hx).1, hcount _ (hi.taken x hx).2⟩, hi.ordered, hi.distinct, ?_, ?_,
      ?_, hi.answered⟩
    · intro j call took hj
      have hfinds := hi.finds j call took hj
      have hne := hother j call took hj
      cases took with
      | true =>
        obtain hmine | ⟨hold, -⟩ := hfinds
        · rw [hrow] at hmine
          cases hmine
          exact absurd hown hne
        · exact .inr ⟨hold, fun r hr => by cases hr⟩
      | false => exact fun r hr => by cases hr
    · intro r hr
      obtain rfl | hr := List.mem_cons.mp hr
      · exact Nat.lt_succ_self _
      · exact hcount _ (hi.released r hr)
    · intro x hx
      obtain ⟨r, hr, hrel⟩ | ⟨e, he, -⟩ | hold := hi.kept x hx
      · exact .inl ⟨r, List.mem_cons_of_mem _ hr, hrel⟩
      · rw [hrow] at he
        cases he
        exact .inl ⟨_, List.mem_cons_self, hown.symm, (hi.taken x hx).2⟩
      · exact .inr (.inr hold)
    · intro x hx y hy hne hlt hle
      obtain ⟨r, hr, hrel⟩ := hi.exclusive x hx y hy hne hlt hle
      exact ⟨r, List.mem_cons_of_mem _ hr, hrel⟩
  · rw [heq]
    exact ⟨hi.clock, hi.pending, hi.single, hi.finds, hi.flight,
      fun x hx => ⟨(hi.taken x hx).1, hcount _ (hi.taken x hx).2⟩, hi.ordered, hi.distinct,
      fun r hr => hcount _ (hi.released r hr), hi.kept, hi.exclusive, hi.answered⟩

theorem inv_step {s' : Table R} {e : CallEvent R} (hi : CallInv ttl s)
    (hguard : NoOverlap s e) (h : callStep ttl s e = some s') : CallInv ttl s' := by
  cases e with
  | tick now =>
    simp only [callStep] at h
    split_ifs at h with hle
    cases h
    exact ⟨hi.clock.trans hle, fun i h t hp => (hi.pending i h t hp).trans hle, hi.single, hi.finds,
      hi.flight, hi.taken, hi.ordered, hi.distinct, hi.released, hi.kept, hi.exclusive, hi.answered⟩
  | acquire i holder =>
    simp only [callStep] at h
    split at h
    · cases h
      exact inv_acquire hi hguard
    · cases h
  | upsert i =>
    simp only [callStep] at h
    split at h
    next holder now hphase =>
      split_ifs at h with hle
      cases h
      exact inv_upsert hi hphase hle
    next => cases h
  | readBack i =>
    simp only [callStep] at h
    split at h
    next call took hphase =>
      cases h
      exact inv_readBack hi hphase
    next => cases h
  | release holder =>
    cases h
    exact inv_release hi hguard

end Steps

/-! ## The safety of the lease -/

section Safe

variable {ttl t : Time} {s : Table R}

theorem callInv_of_reach (h : Reach (callStep ttl) NoOverlap (.init t) s) : CallInv ttl s :=
  h.invariant (I := CallInv ttl) (.init ttl t) fun hi hG he => inv_step hi hG he

omit [DecidableEq R] in
/-- Of two takes within a ttl the holder of the first has released. -/
theorem CallInv.apart (hi : CallInv ttl s) {x y : Call R} (httl : 0 < ttl) (hx : x ∈ s.takes)
    (hy : y ∈ s.takes) (hne : y.holder ≠ x.holder) (hle : x.now ≤ y.now)
    (hlt : y.now < x.now + ttl) :
    ReleasedBetween s x y ∨ (x.now = y.now ∧ ReleasedBetween s y x) := by
  obtain h | h | h := lt_trichotomy x.start y.start
  · exact .inl (hi.exclusive x hx y hy hne h hlt.le)
  · exact absurd (congrArg Call.holder (hi.distinct x hx y hy h)).symm hne
  · have hsame : x.now = y.now := le_antisymm hle (hi.ordered y hy x hx h)
    exact .inr ⟨hsame, hi.exclusive y hy x hx hne.symm h (by linarith)⟩

theorem CallInv.renews (hi : CallInv ttl s) (httl : 0 < ttl) {i : Nat} {call : Call R}
    (hread : s.phase i = .read call true) (hclock : s.clock ≤ call.now + ttl) :
    holdsLease s.lease call.holder call.now = true := by
  obtain hmine | ⟨hold, -⟩ := hi.finds i call true hread
  · exact holdsLease_eq_true.mpr ⟨_, hmine, rfl, by linarith⟩
  · exact absurd (hi.clock.trans hclock) (not_le.mpr hold)

/-- What an upsert does to a lease that it may take. -/
theorem callStep_upsert {i : Nat} {s' : Table R} {call : Call R} {took : Bool} {row : Lease R}
    (h : callStep ttl s (.upsert i) = some s') (hread : s'.phase i = .read call took)
    (hrow : s.lease = some row) (hfree : row.expiresAt < call.now ∨ row.holder = call.holder) :
    took = true ∧ s'.lease = some ⟨call.holder, call.now + ttl⟩ := by
  simp only [callStep] at h
  split at h
  next holder now hphase =>
    split_ifs at h with hle
    cases h
    obtain ⟨heq, -⟩ | ⟨row', hrow', hne, hlive, heq⟩ := runUpsert_cases s ttl i holder now
    · rw [heq, Table.goto_phase, if_pos rfl] at hread
      rw [heq]
      cases hread
      exact ⟨rfl, rfl⟩
    · rw [heq, Table.goto_phase, if_pos rfl] at hread
      cases hread
      cases hrow.symm.trans hrow'
      obtain hexp | hown := hfree
      · exact absurd hexp (not_lt.mpr hlive)
      · exact absurd hown hne
  next => cases h

/-- **The lease is safe** where the calls of one holder do not overlap. -/
theorem leaseSafe_of_reach (httl : 0 < ttl)
    (h : Reach (callStep ttl) NoOverlap (.init t) s) : LeaseSafe ttl s := by
  have hi := callInv_of_reach h
  refine ⟨?_, ?_, ?_, ?_, ?_⟩
  · intro x y hx hy hne hle hlt
    exact hi.apart httl (hi.answered x hx) (hi.answered y hy) hne hle hlt
  · exact fun i call hread hclock => hi.renews httl hread hclock
  · exact fun i s' call took row hstep hread hrow hown =>
      (callStep_upsert hstep hread hrow (.inr hown)).1
  · intro holder s' row hstep hrow hne
    cases hstep
    obtain ⟨row', hrow', hown, -⟩ | ⟨-, heq⟩ := runRelease_cases s holder
    · cases hrow.symm.trans hrow'
      exact absurd hown hne
    · rw [heq]
      exact ⟨rfl, rfl⟩
  · exact fun i s' call took row hstep hread hrow hexp =>
      callStep_upsert hstep hread hrow (.inl hexp)

end Safe

/-- Two holders in turn: A acquires and releases, then B acquires within A's ttl. -/
def handedOver : List (CallEvent Bool) :=
  [.acquire 0 true, .upsert 0, .readBack 0, .tick 3, .release true, .acquire 1 false, .upsert 1,
    .readBack 1]

/-- After the first three events no call is in flight. -/
theorem idle_of_handedOver {s₁ s₂ s₃ : Table Bool}
    (h₁ : callStep 10 (.init 0) (.acquire 0 true) = some s₁)
    (h₂ : callStep 10 s₁ (.upsert 0) = some s₂) (h₃ : callStep 10 s₂ (.readBack 0) = some s₃) :
    s₃.phase = fun _ => .idle := by
  cases h₁
  cases h₂
  cases h₃
  funext j
  by_cases hj : j = 0
  · rw [Table.goto_phase, if_pos hj]
  · simp [Table.goto_phase, hj, Table.runUpsert, Table.init]

theorem leaseSafe_handedOver : ∃ s, run (callStep 10) (.init 0) handedOver = some s ∧
    s.answers.map Prod.snd = [true, true] ∧ LeaseSafe 10 s := by
  have hany : (run (callStep 10) (.init 0) handedOver).any
      (fun s => s.answers.map Prod.snd = [true, true]) = true := by decide +kernel
  obtain ⟨s, hrun, hanswers⟩ := (Option.any_eq_true _ _).mp hany
  have halong : Along (callStep 10) NoOverlap (.init 0) handedOver := by
    refine ⟨fun i h => (by cases h), fun s₁ h₁ => ⟨trivial, fun s₂ h₂ => ⟨trivial, fun s₃ h₃ =>
      ⟨trivial, fun s₄ h₄ => ⟨fun j => ?_, fun s₅ h₅ => ⟨fun j => ?_, fun _ _ => ⟨trivial,
        fun _ _ => ⟨trivial, fun _ _ => trivial⟩⟩⟩⟩⟩⟩⟩⟩
    all_goals
      have hidle := idle_of_handedOver h₁ h₂ h₃
      simp only [callStep] at h₄
      split_ifs at h₄
      cases h₄
    · rw [hidle]
      simp [Phase.holder]
    · cases h₅
      have hkeeps (s : Table Bool) (holder : Bool) : (s.runRelease holder).phase = s.phase := by
        unfold Table.runRelease
        split_ifs <;> rfl
      rw [hkeeps, hidle]
      simp [Phase.holder]
  exact ⟨s, hrun, by simpa using hanswers,
    leaseSafe_of_reach (by norm_num) (Reach.of_guarded_run hrun halong)⟩

/-- A acquires at 0. A call of B reads the clock at 9 and is refused; after A's expiry another call of
B takes the lease, and the first one reads it back. -/
def overlapping : List (CallEvent Bool) :=
  [.acquire 0 true, .upsert 0, .readBack 0, .tick 9, .acquire 1 false, .upsert 1, .tick 11,
    .acquire 2 false, .upsert 2, .readBack 1]

/-- **An answer that another call has earned.** The refused call, made within A's ttl, returns True,
and nobody has released. -/
theorem late_answer :
    ∃ s : Table Bool, Reach (callStep 10) anyEvent (.init 0) s ∧ ¬ OneHolder 10 s := by
  have hany : (run (callStep 10) (.init 0) overlapping).any (fun s =>
      s.answers.map (fun a => (a.1.holder, a.1.now, a.2)) = [(false, 9, true), (true, 0, true)] ∧
        s.releases.length = 0) = true := by decide +kernel
  obtain ⟨s, hrun, hs⟩ := (Option.any_eq_true _ _).mp hany
  obtain ⟨hanswers, hnone⟩ := of_decide_eq_true hs
  refine ⟨s, Reach.of_run hrun, fun hex => ?_⟩
  obtain ⟨late, _, ha, hlate, htail⟩ := List.map_eq_cons_iff.mp hanswers
  obtain ⟨first, _, rfl, hfirst, -⟩ := List.map_eq_cons_iff.mp htail
  obtain ⟨late, _⟩ := late
  obtain ⟨first, _⟩ := first
  simp only [Prod.mk.injEq] at hlate hfirst
  obtain ⟨hB, hnine, rfl⟩ := hlate
  obtain ⟨hA, hzero, rfl⟩ := hfirst
  obtain ⟨r, hr, -⟩ := hex first late (by simp [ha]) (by simp [ha]) (by simp [hA, hB])
    (by rw [hzero, hnine]; norm_num) (by rw [hzero, hnine]; norm_num)
  simp [List.length_eq_zero_iff.mp hnone] at hr

end Llmops.Leader
