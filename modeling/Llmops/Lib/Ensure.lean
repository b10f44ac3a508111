import Llmops.Lib.Run

/-!
# Making what is missing, by several processes

Processes run one program against one database. An instruction makes a thing unless it is there: at
once (`atomic`), or by a look and a later step (`checked`), at which a thing that is there meanwhile
is an error. A lock keeps processes apart; who fails or dies gives it up. Which process moves next,
which instruction the database refuses and who dies is open.

* `Inv.step`: what holds of every process in every run of a `Sound` program;
* `Inv.cause`, `Inv.done`: a process fails by a refusal, or by a thing that `Collides`; one at the end
  of the program has made everything;
* `Inv.enabled`: nobody waits for a process that cannot move;
* `count_run`: how often a process moves;
* `exists_collision`: two processes that check for a missing thing outside the lock can collide.
-/

namespace Llmops.Lib.Ensure

variable {ι δ κ : Type*}

/-- Things that a database may have, and how one is made: `none` where what it needs is missing. -/
structure Things (δ κ : Type*) where
  has : δ → κ → Bool
  make : δ → κ → Option δ
  has_make : ∀ {d d' c}, make d c = some d' → has d' c = true
  kept : ∀ {d d' c x}, make d c = some d' → has d x = true → has d' x = true

/-! ## Programs -/

/-- An instruction. -/
inductive Instr (κ : Type*) where
  | lock
  | unlock
  | atomic (c : κ)
  | checked (c : κ)
  deriving DecidableEq, Repr

/-- The thing that an instruction makes. -/
def Instr.thing : Instr κ → Option κ
  | .atomic c | .checked c => some c
  | .lock | .unlock => none

/-- Whether the lock is held after an instruction. -/
def Instr.after (b : Bool) : Instr κ → Bool
  | .lock => true
  | .unlock => false
  | .atomic _ | .checked _ => b

/-- The things that a program makes. -/
def things (prog : List (Instr κ)) : List κ := prog.filterMap Instr.thing

/-- The instructions, each with whether the lock is held at it. -/
def tagged : Bool → List (Instr κ) → List (Bool × Instr κ)
  | _, [] => []
  | b, x :: rest => (b, x) :: tagged (x.after b) rest

/-- The lock is taken when it is not held, given back when it is, and not held at the end. -/
def Bracketed : Bool → List (Instr κ) → Prop
  | b, [] => b = false
  | b, x :: rest => (x = .lock → b = false) ∧ (x = .unlock → b = true) ∧ Bracketed (x.after b) rest

section Programs

variable {b : Bool} {xs rest : List (Instr κ)}

theorem things_append (before rest : List (Instr κ)) :
    things (before ++ rest) = things before ++ things rest := List.filterMap_append

theorem after_of_thing {x : Instr κ} {c : κ} (h : x.thing = some c) : x.after b = b := by
  cases x with
  | lock => cases h
  | unlock => cases h
  | atomic c => rfl
  | checked c => rfl

/-- Instructions that make things do nothing about the lock. -/
theorem bracketed_append (hxs : ∀ x ∈ xs, ∃ c, x.thing = some c) :
    Bracketed b (xs ++ rest) ↔ Bracketed b rest := by
  induction xs with
  | nil => rfl
  | cons x xs ih =>
    obtain ⟨⟨c, hc⟩, hxs⟩ := List.forall_mem_cons.mp hxs
    rw [List.cons_append, Bracketed, after_of_thing hc, ih hxs]
    refine ⟨fun h => h.2.2, fun h => ⟨?_, ?_, h⟩⟩ <;> rintro rfl <;> cases hc

theorem tagged_append (hxs : ∀ x ∈ xs, ∃ c, x.thing = some c) :
    tagged b (xs ++ rest) = xs.map (Prod.mk b) ++ tagged b rest := by
  induction xs with
  | nil => rfl
  | cons x xs ih =>
    obtain ⟨⟨c, hc⟩, hxs⟩ := List.forall_mem_cons.mp hxs
    rw [List.cons_append, tagged, after_of_thing hc, ih hxs]
    rfl

end Programs

/-! ## Runs -/

/-- Why a process failed. -/
inductive Cause (κ : Type*) where
  | refused
  | duplicate (c : κ)
  | missing (c : κ)
  deriving DecidableEq, Repr

/-- Where a process is: before its next instruction, after a look at which `c` was not there, on its
way out, or out. -/
inductive Pc (κ : Type*) where
  | next (rest : List (Instr κ))
  | making (c : κ) (rest : List (Instr κ))
  | raised (cause : Cause κ)
  | failed (cause : Cause κ)
  | gone
  deriving DecidableEq, Repr

/-- The database, who holds the lock, and where each process is. -/
structure State (ι δ κ : Type*) where
  db : δ
  lock : Option ι := none
  pc : ι → Pc κ

/-- A process moves, the database refuses its instruction, or it dies. -/
inductive Event (ι : Type*) where
  | go (i : ι)
  | refuse (i : ι)
  | die (i : ι)
  deriving DecidableEq, Repr

/-- The process of an event. -/
def Event.who : Event ι → ι
  | .go i | .refuse i | .die i => i

section Step

variable [DecidableEq ι] (K : Things δ κ)

/-- A state in which `i` goes on at `p`. -/
def State.goto (s : State ι δ κ) (i : ι) (p : Pc κ) : State ι δ κ :=
  { s with pc := Function.update s.pc i p }

/-- A state in which `i` does not hold the lock. -/
def State.release (s : State ι δ κ) (i : ι) : State ι δ κ :=
  { s with lock := if s.lock = some i then none else s.lock }

/-- Process `i` makes `c`. -/
def State.make (s : State ι δ κ) (i : ι) (c : κ) (rest : List (Instr κ)) : State ι δ κ :=
  match K.make s.db c with
  | some d => ({ s with db := d } : State ι δ κ).goto i (.next rest)
  | none => s.goto i (.raised (.missing c))

/-- The next step of process `i`. -/
def State.go (s : State ι δ κ) (i : ι) : Option (State ι δ κ) :=
  match s.pc i with
  | .next [] | .failed _ | .gone => none
  | .next (.lock :: rest) =>
    if s.lock = none then some (({ s with lock := some i } : State ι δ κ).goto i (.next rest))
    else none
  | .next (.unlock :: rest) => some ((s.release i).goto i (.next rest))
  | .next (.atomic c :: rest) =>
    some (if K.has s.db c then s.goto i (.next rest) else s.make K i c rest)
  | .next (.checked c :: rest) =>
    some (s.goto i (if K.has s.db c then .next rest else .making c rest))
  | .making c rest =>
    some (if K.has s.db c then s.goto i (.raised (.duplicate c)) else s.make K i c rest)
  | .raised cause => some ((s.release i).goto i (.failed cause))

/-- The database refuses what process `i` sends. -/
def State.refuse (s : State ι δ κ) (i : ι) : Option (State ι δ κ) :=
  match s.pc i with
  | .next (_ :: _) | .making _ _ => some (s.goto i (.raised .refused))
  | .next [] | .raised _ | .failed _ | .gone => none

/-- Process `i` dies. -/
def State.die (s : State ι δ κ) (i : ι) : Option (State ι δ κ) :=
  match s.pc i with
  | .gone => none
  | _ => some ((s.release i).goto i .gone)

/-- What an event does. -/
def step (s : State ι δ κ) : Event ι → Option (State ι δ κ)
  | .go i => s.go K i
  | .refuse i => s.refuse i
  | .die i => s.die i

end Step

/-! ## What holds in every run -/

section Invariant

variable (K : Things δ κ) (Good : δ → Prop) (Collides : κ → Prop) (prog : List (Instr κ))

/-- A program whose instructions find what they need in a good database. What it checks under the lock
is made by nobody outside of it; what it checks outside and does not find `Collides`. -/
structure Sound : Prop where
  bracketed : Bracketed false prog
  good : ∀ {c d d'}, c ∈ things prog → Good d → K.has d c = false → K.make d c = some d' → Good d'
  feasible : ∀ {before x c rest d}, prog = before ++ x :: rest → x.thing = some c → Good d →
    (∀ y ∈ things before, K.has d y = true) → K.has d c = false → (K.make d c).isSome
  apart : ∀ {c x y d d'}, (true, .checked c) ∈ tagged false prog → (false, x) ∈ tagged false prog →
    x.thing = some y → K.make d y = some d' → K.has d c = false → K.has d' c = false
  collides : ∀ {before c rest d}, prog = before ++ .checked c :: rest →
    (false, .checked c) ∈ tagged false prog → Good d → (∀ y ∈ things before, K.has d y = true) →
    K.has d c = false → Collides c

/-- What is left of a program. -/
structure Placed (db : δ) (b : Bool) (rest : List (Instr κ)) : Prop where
  reached : ∃ before, prog = before ++ rest ∧ ∀ c ∈ things before, K.has db c = true
  bracketed : Bracketed b rest
  within : tagged b rest ⊆ tagged false prog

/-- A process fails by a refusal, or where another made what it had not found. -/
def Excused (db : δ) (cause : Cause κ) : Prop :=
  cause = .refused ∨ ∃ c, cause = .duplicate c ∧ Collides c ∧ K.has db c = true

/-- One process; `b` tells whether it holds the lock. -/
def Fine (db : δ) (b : Bool) : Pc κ → Prop
  | .next rest => Placed K prog db b rest
  | .making c rest =>
    Placed K prog db b (.checked c :: rest) ∧ if b then K.has db c = false else Collides c
  | .raised cause => Excused K Collides db cause
  | .failed cause => b = false ∧ Excused K Collides db cause
  | .gone => b = false

/-- The database is good, and every process is fine. -/
structure Inv [DecidableEq ι] (s : State ι δ κ) : Prop where
  good : Good s.db
  fine : ∀ i, Fine K Collides prog s.db (decide (s.lock = some i)) (s.pc i)

end Invariant

section Keeps

variable {K : Things δ κ} {Good : δ → Prop} {Collides : κ → Prop} {prog rest : List (Instr κ)}
  {db db' : δ} {b : Bool} {x : Instr κ} {c : κ} {p : Pc κ}

theorem Placed.mem (h : Placed K prog db b (x :: rest)) : (b, x) ∈ tagged false prog :=
  h.within (List.mem_cons_self ..)

theorem Placed.mono (h : Placed K prog db b rest)
    (hkept : ∀ c, K.has db c = true → K.has db' c = true) : Placed K prog db' b rest := by
  obtain ⟨before, rfl, hbefore⟩ := h.reached
  exact ⟨⟨before, rfl, fun c hc => hkept c (hbefore c hc)⟩, h.bracketed, h.within⟩

/-- One instruction further. -/
theorem Placed.tail (h : Placed K prog db b (x :: rest))
    (hx : ∀ c, x.thing = some c → K.has db c = true) : Placed K prog db (x.after b) rest := by
  obtain ⟨before, rfl, hbefore⟩ := h.reached
  refine ⟨⟨before ++ [x], by simp, fun c hc => ?_⟩, h.bracketed.2.2,
    fun y hy => h.within (List.mem_cons_of_mem _ hy)⟩
  rw [things_append, List.mem_append] at hc
  obtain hc | hc := hc
  · exact hbefore c hc
  · obtain ⟨y, hy, hc⟩ := List.mem_filterMap.mp hc
    rw [List.mem_singleton.mp hy] at hc
    exact hx c hc

theorem Excused.mono {cause : Cause κ} (h : Excused K Collides db cause)
    (hkept : ∀ c, K.has db c = true → K.has db' c = true) : Excused K Collides db' cause := by
  obtain rfl | ⟨c, rfl, hc, hdb⟩ := h
  · exact .inl rfl
  · exact .inr ⟨c, rfl, hc, hkept c hdb⟩

/-- What a process has, where another one moves. -/
theorem Fine.mono (h : Fine K Collides prog db b p)
    (hkept : ∀ c, K.has db c = true → K.has db' c = true)
    (hapart : b = true → ∀ c, (true, .checked c) ∈ tagged false prog → K.has db c = false →
      K.has db' c = false) : Fine K Collides prog db' b p := by
  cases p with
  | next rest => exact Placed.mono h hkept
  | making c rest =>
    refine ⟨h.1.mono hkept, ?_⟩
    obtain ⟨hplaced, hc⟩ := h
    cases b with
    | false => exact hc
    | true => exact hapart rfl c hplaced.mem hc
  | raised cause => exact Excused.mono h hkept
  | failed cause => exact ⟨h.1, h.2.mono hkept⟩
  | gone => exact h

variable [DecidableEq ι] {s s' : State ι δ κ} {i : ι}

/-- **One process moves**: to `p`, with what that needs. -/
theorem Inv.set (h : Inv K Good Collides prog s) (hpc : s'.pc = Function.update s.pc i p)
    (hgood : Good s'.db)
    (hlock : ∀ j, j ≠ i → (s'.lock = some j ↔ s.lock = some j))
    (hkept : ∀ c, K.has s.db c = true → K.has s'.db c = true)
    (hapart : ∀ j, j ≠ i → s.lock = some j → ∀ c, (true, .checked c) ∈ tagged false prog →
      K.has s.db c = false → K.has s'.db c = false)
    (hp : Fine K Collides prog s'.db (decide (s'.lock = some i)) p) : Inv K Good Collides prog s' := by
  refine ⟨hgood, fun j => ?_⟩
  rw [hpc]
  by_cases hj : j = i
  · subst hj
    rwa [Function.update_self]
  · rw [Function.update_of_ne hj]
    simp only [hlock j hj]
    exact (h.fine j).mono hkept fun hb => hapart j hj (of_decide_eq_true hb)

/-- The same, where the database stays. -/
theorem Inv.goto {lock : Option ι} (h : Inv K Good Collides prog s)
    (hlock : ∀ j, j ≠ i → (lock = some j ↔ s.lock = some j))
    (hp : Fine K Collides prog s.db (decide (lock = some i)) p) :
    Inv K Good Collides prog (({ s with lock := lock } : State ι δ κ).goto i p) := by
  refine h.set ?_ h.good hlock (fun _ hc => hc) (fun _ _ _ _ _ hc => hc) hp
  rfl

omit [DecidableEq ι] in
theorem release_iff [DecidableEq ι] (s : State ι δ κ) {j : ι} (hj : j ≠ i) :
    (s.release i).lock = some j ↔ s.lock = some j := by
  unfold State.release
  dsimp only
  split_ifs with hi
  · rw [hi, Option.some_inj]
    exact iff_of_false (fun h => by cases h) (Ne.symm hj)
  · rfl

theorem release_self (s : State ι δ κ) : decide ((s.release i).lock = some i) = false := by
  unfold State.release
  dsimp only
  split_ifs with hi
  · rfl
  · exact decide_eq_false hi

/-- A process that makes the thing of its next instruction. -/
theorem Inv.make (hs : Sound K Good Collides prog) (h : Inv K Good Collides prog s)
    (hx : x.thing = some c)
    (hplaced : Placed K prog s.db (decide (s.lock = some i)) (x :: rest))
    (hc : K.has s.db c = false) : Inv K Good Collides prog (s.make K i c rest) := by
  obtain ⟨before, hprog, hbefore⟩ := hplaced.reached
  obtain ⟨d, hd⟩ := Option.isSome_iff_exists.mp (hs.feasible hprog hx h.good hbefore hc)
  have hmem : c ∈ things prog := by
    rw [hprog]
    exact List.mem_filterMap.mpr ⟨x, List.mem_append_right _ (List.mem_cons_self ..), hx⟩
  unfold State.make
  rw [hd]
  refine h.set rfl (hs.good hmem h.good hc hd) (fun _ _ => Iff.rfl) (fun _ => K.kept hd)
    (fun j hj hlock y hy => ?_) ?_
  · -- the lock is not with `i`, so what `i` makes is not checked under it
    have hfree : decide (s.lock = some i) = false :=
      decide_eq_false fun hi => hj (Option.some.inj (hlock.symm.trans hi))
    have htag := hplaced.mem
    rw [hfree] at htag
    exact hs.apart hy htag hx hd
  · have htail := (hplaced.mono fun _ => K.kept hd).tail fun y hy => by
      rw [hx, Option.some_inj] at hy
      exact hy ▸ K.has_make hd
    rwa [after_of_thing hx] at htail

/-- **A step keeps everybody fine.** -/
theorem Inv.step (hs : Sound K Good Collides prog) (h : Inv K Good Collides prog s) {e : Event ι}
    (he : step K s e = some s') : Inv K Good Collides prog s' := by
  cases e with
  | go i =>
    have hi := h.fine i
    simp only [Ensure.step, State.go] at he
    split at he
    · cases he
    · cases he
    · cases he
    · rename_i rest hpc
      rw [hpc] at hi
      split_ifs at he with hnone
      cases he
      refine h.goto (fun j hj => ?_) ?_
      · rw [hnone, Option.some_inj]
        exact iff_of_false (Ne.symm hj) fun h => by cases h
      · rw [decide_eq_true rfl]
        exact Placed.tail hi fun y hy => by cases hy
    · rename_i rest hpc
      rw [hpc] at hi
      cases he
      refine h.goto (fun j hj => release_iff s hj) ?_
      have hfree := release_self s (i := i)
      unfold State.release at hfree
      rw [hfree]
      exact Placed.tail hi fun y hy => by cases hy
    · rename_i c rest hpc
      rw [hpc] at hi
      cases he
      split_ifs with hc
      · exact h.goto (fun _ _ => Iff.rfl) (Placed.tail hi fun y hy => Option.some.inj hy ▸ hc)
      · exact h.make hs rfl hi (Bool.eq_false_of_not_eq_true hc)
    · rename_i c rest hpc
      rw [hpc] at hi
      cases he
      refine h.goto (fun _ _ => Iff.rfl) ?_
      split_ifs with hc
      · exact Placed.tail hi fun y hy => Option.some.inj hy ▸ hc
      · refine ⟨hi, ?_⟩
        split_ifs with hlock
        · exact Bool.eq_false_of_not_eq_true hc
        · have htag := Placed.mem hi
          rw [Bool.eq_false_of_not_eq_true hlock] at htag
          obtain ⟨before, hprog, hbefore⟩ := hi.reached
          exact hs.collides hprog htag h.good hbefore (Bool.eq_false_of_not_eq_true hc)
    · rename_i c rest hpc
      rw [hpc] at hi
      cases he
      split_ifs with hc
      · refine h.goto (fun _ _ => Iff.rfl) (.inr ⟨c, rfl, ?_, hc⟩)
        have hfine := hi.2
        split_ifs at hfine
        · rw [hfine] at hc
          cases hc
        · exact hfine
      · exact h.make hs rfl hi.1 (Bool.eq_false_of_not_eq_true hc)
    · rename_i cause hpc
      rw [hpc] at hi
      cases he
      exact h.goto (fun j hj => release_iff s hj) ⟨release_self s, hi⟩
  | refuse i =>
    simp only [Ensure.step, State.refuse] at he
    split at he <;> cases he <;> exact h.goto (fun _ _ => Iff.rfl) (.inl rfl)
  | die i =>
    simp only [Ensure.step, State.die] at he
    split at he <;> cases he
    exact h.goto (fun j hj => release_iff s hj) (release_self s)

/-- Nothing is ever taken away. -/
theorem has_step {e : Event ι} (he : step K s e = some s') (hc : K.has s.db c = true) :
    K.has s'.db c = true := by
  have hmake (i : ι) (x : κ) (rest : List (Instr κ)) : K.has (s.make K i x rest).db c = true := by
    unfold State.make
    split
    · rename_i d hd
      exact K.kept hd hc
    · exact hc
  cases e with
  | go i =>
    simp only [Ensure.step, State.go] at he
    split at he
    · cases he
    · cases he
    · cases he
    · split_ifs at he
      cases he
      exact hc
    · cases he
      exact hc
    · cases he
      split_ifs
      · exact hc
      · exact hmake _ _ _
    · cases he
      exact hc
    · cases he
      split_ifs
      · exact hc
      · exact hmake _ _ _
    · cases he
      exact hc
  | refuse i =>
    simp only [Ensure.step, State.refuse] at he
    split at he <;> cases he <;> exact hc
  | die i =>
    simp only [Ensure.step, State.die] at he
    split at he <;> cases he
    exact hc

/-- **A whole run** does. -/
theorem Inv.run (hs : Sound K Good Collides prog) (h : Inv K Good Collides prog s)
    (hrun : Reach (Ensure.step K) anyEvent s s') : Inv K Good Collides prog s' :=
  hrun.invariant h fun ha _ he => ha.step hs he

/-- Where it begins. -/
theorem Inv.start (hs : Sound K Good Collides prog) (hgood : Good db) :
    Inv K Good Collides prog (⟨db, none, fun _ => .next prog⟩ : State ι δ κ) :=
  ⟨hgood, fun _ => ⟨⟨[], rfl, fun c hc => by cases hc⟩, hs.bracketed, fun _ hx => hx⟩⟩

/-- **Why a process failed**, in every run. -/
theorem Inv.cause (h : Inv K Good Collides prog s) {cause : Cause κ} (hpc : s.pc i = .failed cause) :
    Excused K Collides s.db cause := by
  have hi := h.fine i
  rw [hpc] at hi
  exact hi.2

/-- **A process at the end** has made everything. -/
theorem Inv.done (h : Inv K Good Collides prog s) (hpc : s.pc i = .next []) (hc : c ∈ things prog) :
    K.has s.db c = true := by
  have hi := h.fine i
  rw [hpc] at hi
  obtain ⟨before, hprog, hbefore⟩ := Placed.reached hi
  rw [List.append_nil] at hprog
  exact hbefore c (hprog ▸ hc)

/-- A process that is through. -/
def Pc.Over : Pc κ → Prop
  | .next [] | .failed _ | .gone => True
  | _ => False

/-- Who holds the lock can move. -/
theorem Inv.holder (h : Inv K Good Collides prog s) (hlock : s.lock = some i) : (s.go K i).isSome := by
  have hi := h.fine i
  rw [decide_eq_true hlock] at hi
  unfold State.go
  cases hpc : s.pc i with
  | next rest =>
    rw [hpc] at hi
    cases rest with
    | nil => cases hi.bracketed
    | cons x rest =>
      cases x with
      | lock => cases hi.bracketed.1 rfl
      | unlock => rfl
      | atomic c => rfl
      | checked c => rfl
  | making c rest => rfl
  | raised cause => rfl
  | failed cause =>
    rw [hpc] at hi
    cases hi.1
  | gone =>
    rw [hpc] at hi
    cases hi

/-- **Nobody waits for ever**: a process can move, is through, or waits for one that can move. -/
theorem Inv.enabled (h : Inv K Good Collides prog s) (i : ι) :
    (s.pc i).Over ∨ (s.go K i).isSome ∨ ∃ j, s.lock = some j ∧ (s.go K j).isSome := by
  cases hlock : s.lock with
  | some j => exact .inr (.inr ⟨j, rfl, h.holder hlock⟩)
  | none =>
    unfold State.go
    cases hpc : s.pc i with
    | next rest =>
      cases rest with
      | nil => exact .inl trivial
      | cons x rest =>
        refine .inr (.inl ?_)
        cases x with
        | lock =>
          dsimp only
          rw [if_pos hlock]
          rfl
        | unlock => rfl
        | atomic c => rfl
        | checked c => rfl
    | making c rest => exact .inr (.inl rfl)
    | raised cause => exact .inr (.inl rfl)
    | failed cause => exact .inl trivial
    | gone => exact .inl trivial

end Keeps

/-! ## How often a process moves -/

section Count

variable [DecidableEq ι] {K : Things δ κ} {s s' : State ι δ κ}

/-- How many events a process has left, at most. -/
def Pc.left : Pc κ → Nat
  | .next rest => 2 * rest.length + 3
  | .making _ rest => 2 * rest.length + 4
  | .raised _ => 2
  | .failed _ => 1
  | .gone => 0

theorem left_goto {s : State ι δ κ} {p q : Pc κ} {i : ι} (hpc : s.pc i = q) (hp : p.left < q.left)
    (j : ι) : ((s.goto i p).pc j).left + (if i = j then 1 else 0) ≤ (s.pc j).left := by
  unfold State.goto
  dsimp only
  by_cases hj : j = i
  · subst hj
    rw [Function.update_self, if_pos rfl, hpc]
    exact hp
  · rw [Function.update_of_ne hj, if_neg (Ne.symm hj)]
    exact le_refl _

theorem left_make {q : Pc κ} {i : ι} {c : κ} {rest : List (Instr κ)} (hpc : s.pc i = q)
    (hp : (Pc.next rest).left < q.left) (j : ι) :
    ((s.make K i c rest).pc j).left + (if i = j then 1 else 0) ≤ (s.pc j).left := by
  unfold State.make
  split
  · exact left_goto (s := { s with db := _ }) hpc hp j
  · exact left_goto hpc (lt_trans (by simp only [Pc.left]; omega) hp) j

/-- An event takes one of those that its process has left, and none of another. -/
theorem left_step {e : Event ι} (he : step K s e = some s') (j : ι) :
    (s'.pc j).left + (if e.who = j then 1 else 0) ≤ (s.pc j).left := by
  cases e with
  | go i =>
    simp only [step, State.go] at he
    split at he
    · cases he
    · cases he
    · cases he
    · rename_i rest hpc
      split_ifs at he
      cases he
      exact left_goto (s := { s with lock := some i }) hpc (by simp [Pc.left]) j
    · rename_i rest hpc
      cases he
      exact left_goto (s := s.release i) hpc (by simp [Pc.left]) j
    · rename_i c rest hpc
      cases he
      by_cases hc : K.has s.db c = true
      · rw [if_pos hc]
        exact left_goto hpc (by simp [Pc.left]) j
      · rw [if_neg hc]
        exact left_make hpc (by simp [Pc.left]) j
    · rename_i c rest hpc
      cases he
      refine left_goto hpc ?_ j
      split_ifs <;> simp only [Pc.left, List.length_cons] <;> omega
    · rename_i c rest hpc
      cases he
      by_cases hc : K.has s.db c = true
      · rw [if_pos hc]
        exact left_goto hpc (by simp [Pc.left]) j
      · rw [if_neg hc]
        exact left_make hpc (by simp [Pc.left]) j
    · rename_i cause hpc
      cases he
      exact left_goto (s := s.release i) hpc (by simp [Pc.left]) j
  | refuse i =>
    simp only [step, State.refuse] at he
    split at he <;> rename_i hpc <;> cases he <;> exact left_goto hpc (by simp [Pc.left]) j
  | die i =>
    simp only [step, State.die] at he
    split at he <;> cases he
    rename_i hgone
    refine left_goto (s := s.release i) rfl ?_ j
    change 0 < (s.pc i).left
    cases hpc : s.pc i <;> first | exact absurd hpc hgone | simp [Pc.left]

/-- **How often a process moves** in a run. -/
theorem count_run {es : List (Event ι)} (h : run (step K) s es = some s') (j : ι) :
    (es.filter fun e => e.who = j).length + (s'.pc j).left ≤ (s.pc j).left := by
  induction es generalizing s with
  | nil =>
    rw [show s = s' from Option.some.inj h]
    simp
  | cons e es ih =>
    obtain ⟨t, ht, h⟩ := Option.bind_eq_some_iff.mp h
    have hstep := left_step ht j
    have hrest := ih h
    rw [List.filter_cons]
    split_ifs with hwho
    · rw [if_pos (of_decide_eq_true hwho)] at hstep
      rw [List.length_cons]
      omega
    · omega

end Count

/-! ## Two processes that collide -/

section Collide

variable [DecidableEq ι] {K : Things δ κ} {Good : δ → Prop} {Collides : κ → Prop}
  {prog xs rest rest' : List (Instr κ)} {s : State ι δ κ} {i j : ι} {c : κ}

theorem goto_goto (s : State ι δ κ) (i : ι) (p q : Pc κ) : (s.goto i p).goto i q = s.goto i q := by
  unfold State.goto
  dsimp only
  rw [Function.update_idem]

theorem goto_self {p : Pc κ} (h : s.pc i = p) : s.goto i p = s := by
  unfold State.goto
  rw [← h, Function.update_eq_self]

theorem goto_pc (s : State ι δ κ) (i : ι) (p : Pc κ) : (s.goto i p).pc i = p := Function.update_self ..

theorem goto_pc_of_ne (h : j ≠ i) (p : Pc κ) : (s.goto i p).pc j = s.pc j := Function.update_of_ne h ..

/-- A step of a run. -/
theorem reach_go {s' : State ι δ κ} (h : s.go K i = some s') : Reach (step K) anyEvent s s' :=
  Reach.refl.tail (e := .go i) trivial h

/-- A process goes past what is there. -/
theorem reach_past (hpc : s.pc i = .next (xs ++ rest))
    (hxs : ∀ x ∈ xs, ∃ c, x.thing = some c ∧ K.has s.db c = true) :
    Reach (step K) anyEvent s (s.goto i (.next rest)) := by
  induction xs generalizing s with
  | nil =>
    rw [List.nil_append] at hpc
    rw [goto_self hpc]
    exact Reach.refl
  | cons x xs ih =>
    obtain ⟨⟨c, hthing, hc⟩, hxs⟩ := List.forall_mem_cons.mp hxs
    have hgo : s.go K i = some (s.goto i (.next (xs ++ rest))) := by
      unfold State.go
      rw [hpc]
      cases x with
      | lock => cases hthing
      | unlock => cases hthing
      | atomic y =>
        obtain rfl := Option.some.inj hthing
        exact congrArg some (if_pos hc)
      | checked y =>
        obtain rfl := Option.some.inj hthing
        exact congrArg (some <| s.goto i ·) (if_pos hc)
    have hrest := ih (s := s.goto i (.next (xs ++ rest))) (goto_pc s i _) hxs
    rw [goto_goto] at hrest
    exact (reach_go hgo).trans hrest

/-- A process makes things, one after another; `Q` is a property of the database that they leave. -/
theorem reach_made {Q : δ → Prop} (hs : Sound K Good Collides prog) (h : Inv K Good Collides prog s)
    (hpc : s.pc i = .next (xs ++ rest)) (hxs : ∀ x ∈ xs, ∃ c, x = .atomic c)
    (hQ : ∀ {c d d'}, .atomic c ∈ xs → K.has d c = false → K.make d c = some d' → Q d → Q d')
    (hq : Q s.db) :
    ∃ d, Q d ∧ Reach (step K) anyEvent s (({ s with db := d } : State ι δ κ).goto i (.next rest)) := by
  induction xs generalizing s with
  | nil =>
    rw [List.nil_append] at hpc
    refine ⟨s.db, hq, ?_⟩
    rw [show ({ s with db := s.db } : State ι δ κ) = s from rfl, goto_self hpc]
    exact Reach.refl
  | cons x xs ih =>
    obtain ⟨⟨c, rfl⟩, htail⟩ := List.forall_mem_cons.mp hxs
    have hgo : ∃ d, Q d ∧
        s.go K i = some (({ s with db := d } : State ι δ κ).goto i (.next (xs ++ rest))) := by
      unfold State.go
      rw [hpc]
      by_cases hc : K.has s.db c = true
      · exact ⟨s.db, hq, congrArg some (if_pos hc)⟩
      · have hi := h.fine i
        rw [hpc] at hi
        obtain ⟨before, hprog, hbefore⟩ := Placed.reached hi
        have hfalse := Bool.eq_false_of_not_eq_true hc
        obtain ⟨d, hd⟩ := Option.isSome_iff_exists.mp
          (hs.feasible hprog rfl h.good hbefore hfalse)
        refine ⟨d, hQ (List.mem_cons_self ..) hfalse hd hq, ?_⟩
        rw [List.cons_append]
        dsimp only
        rw [if_neg hc, State.make, hd]
    obtain ⟨d, hd, hgo⟩ := hgo
    obtain ⟨d', hd', hrest⟩ := ih (s := ({ s with db := d } : State ι δ κ).goto i (.next (xs ++ rest)))
      (h.step hs (e := .go i) hgo) (goto_pc _ i _) htail
      (fun hc => hQ (List.mem_cons_of_mem _ hc)) hd
    refine ⟨d', hd', (reach_go hgo).trans ?_⟩
    have hsame : ({ (({ s with db := d } : State ι δ κ).goto i (.next (xs ++ rest))) with
        db := d' } : State ι δ κ).goto i (.next rest) =
        ({ s with db := d' } : State ι δ κ).goto i (.next rest) := by
      exact goto_goto ({ s with db := d' } : State ι δ κ) i _ _
    rwa [hsame] at hrest

/-- **Both look, both make**: the second one fails. -/
theorem exists_duplicate (hs : Sound K Good Collides prog) (h : Inv K Good Collides prog s)
    (hij : i ≠ j)
    (hi : s.pc i = .next (.checked c :: rest)) (hj : s.pc j = .next (.checked c :: rest'))
    (hc : K.has s.db c = false) :
    ∃ s', Reach (step K) anyEvent s s' ∧ s'.pc j = .failed (.duplicate c) := by
  have hne : ¬ K.has s.db c = true := by
    rw [hc]
    exact Bool.false_ne_true
  obtain ⟨d, hd⟩ : ∃ d, K.make s.db c = some d := by
    have hfine := h.fine i
    rw [hi] at hfine
    obtain ⟨before, hprog, hbefore⟩ := Placed.reached hfine
    exact Option.isSome_iff_exists.mp (hs.feasible hprog rfl h.good hbefore hc)
  have hlook {t : State ι δ κ} {k : ι} {r : List (Instr κ)} (hdb : t.db = s.db)
      (hk : t.pc k = .next (.checked c :: r)) :
      Reach (step K) anyEvent t (t.goto k (.making c r)) := by
    refine reach_go (i := k) ?_
    unfold State.go
    rw [hk, hdb]
    exact congrArg (some <| t.goto k ·) (if_neg hne)
  -- both are between the look and the making
  let s₂ := (s.goto i (.making c rest)).goto j (.making c rest')
  have hlooked : Reach (step K) anyEvent s s₂ :=
    (hlook rfl hi).trans (hlook rfl ((goto_pc_of_ne (Ne.symm hij) _).trans hj))
  let s₃ := ({ s₂ with db := d } : State ι δ κ).goto i (.next rest)
  have hmade : s₂.go K i = some s₃ := by
    unfold State.go
    rw [show s₂.pc i = .making c rest from (goto_pc_of_ne hij _).trans (goto_pc s i _)]
    dsimp only
    rw [if_neg (show ¬ K.has s₂.db c = true from hne), State.make,
      show K.make s₂.db c = some d from hd]
  have hraised : s₃.go K j = some (s₃.goto j (.raised (.duplicate c))) := by
    unfold State.go
    rw [show s₃.pc j = .making c rest' from (goto_pc_of_ne (Ne.symm hij) _).trans (goto_pc _ j _)]
    exact congrArg some (if_pos (K.has_make hd))
  have hfailed : (s₃.goto j (.raised (.duplicate c))).go K j =
      some (((s₃.goto j (.raised (.duplicate c))).release j).goto j (.failed (.duplicate c))) := by
    unfold State.go
    rw [goto_pc]
  exact ⟨_, hlooked.trans ((reach_go hmade).trans ((reach_go hraised).trans (reach_go hfailed))),
    goto_pc _ j _⟩

/-- The same, where there are other things to go past first. -/
theorem exists_collision (hs : Sound K Good Collides prog) (h : Inv K Good Collides prog s)
    (hij : i ≠ j)
    (hi : s.pc i = .next (xs ++ .checked c :: rest)) (hj : s.pc j = .next (xs ++ .checked c :: rest))
    (hxs : ∀ x ∈ xs, ∃ c, x.thing = some c ∧ K.has s.db c = true) (hc : K.has s.db c = false) :
    ∃ s', Reach (step K) anyEvent s s' ∧ s'.pc j = .failed (.duplicate c) := by
  have hreach := reach_past (K := K) hi hxs
  have hj₁ : (s.goto i (.next (.checked c :: rest))).pc j = .next (xs ++ .checked c :: rest) :=
    (goto_pc_of_ne (Ne.symm hij) _).trans hj
  have hreach' := reach_past (K := K) hj₁ hxs
  obtain ⟨s', hs', hfailed⟩ := exists_duplicate hs ((h.run hs hreach).run hs hreach') hij
    ((goto_pc_of_ne hij _).trans (goto_pc s i _)) (goto_pc _ j _) hc
  exact ⟨s', hreach.trans (hreach'.trans hs'), hfailed⟩

end Collide

end Llmops.Lib.Ensure
