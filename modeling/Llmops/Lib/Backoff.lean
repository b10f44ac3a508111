import Mathlib

/-!
# A retry budget with exponential backoff

A supervisor may retry something `budget` times. A failure with budget left **arms** a retry, which
falls due `base * 2 ^ count` later, and a due retry is **taken** once, which counts. A success gives
a fresh budget.

`Backoff` is the counter and the due time as a supervisor keeps them, with a record beside them of
the failure that armed the retry (`armed`) and of the retries taken since the last success
(`taken`: the failure that armed each, and when it was taken). `Move` is what a supervisor may do
at a time `now`, and `Kept` the invariant that every move keeps. `Kept.spaced` and `Kept.taken_le`
are what a run of moves guarantees: the `k`-th retry keeps its distance from its failure, and there
are at most `budget`.
-/

namespace Llmops.Lib

variable {T : Type*}

/-- The retries of one supervised thing. -/
structure Backoff (T : Type*) where
  count : Nat
  due : Option T
  armed : Option T
  taken : List (Option T × T)

namespace Backoff

/-- Nothing armed, nothing counted. -/
def fresh (armed : Option T) : Backoff T := ⟨0, none, armed, []⟩

variable [Semiring T] [LE T]

/-- What a supervisor may do at time `now`. -/
inductive Move (base : T) (budget : Nat) (now : T) (s : Backoff T) : Backoff T → Prop
  | quiet : Move base budget now s s
  | arm (h : s.count < budget) :
      Move base budget now s { s with due := some (now + base * 2 ^ s.count), armed := some now }
  | clear : Move base budget now s { s with due := none }
  | take (t : T) (hdue : s.due = some t) (ht : t ≤ now) (h : s.count < budget) :
      Move base budget now s
        { s with count := s.count + 1, due := none, taken := s.taken ++ [(s.armed, now)] }
  | reset : Move base budget now s (fresh s.armed)

/-- A retry that was taken as the `k`-th kept its distance from the failure that armed it. -/
def Spaced (base : T) (k : Nat) (retry : Option T × T) : Prop :=
  ∃ t, retry.1 = some t ∧ t + base * 2 ^ k ≤ retry.2

/-- The invariant of a supervisor. -/
structure Kept (base : T) (budget : Nat) (s : Backoff T) : Prop where
  counted : s.taken.length = s.count
  within : s.count ≤ budget
  due : ∀ t, s.due = some t → ∃ a, s.armed = some a ∧ t = a + base * 2 ^ s.count
  spaced : ∀ k retry, s.taken[k]? = some retry → Spaced base k retry

variable {base now : T} {budget : Nat} {s t : Backoff T}

theorem Kept.fresh (armed : Option T) : Kept base budget (fresh armed) where
  counted := rfl
  within := Nat.zero_le budget
  due := by rintro _ ⟨⟩
  spaced := by rintro k retry ⟨⟩

/-- At most `budget` retries are taken between two successes. -/
theorem Kept.taken_le (h : Kept base budget s) : s.taken.length ≤ budget :=
  h.counted ▸ h.within

/-- **Every move keeps the invariant.** -/
theorem Move.kept (hm : Move base budget now s t) (h : Kept base budget s) :
    Kept base budget t := by
  cases hm with
  | quiet => exact h
  | arm hlt =>
    refine ⟨h.counted, h.within, ?_, h.spaced⟩
    rintro _ ⟨⟩
    exact ⟨now, rfl, rfl⟩
  | clear => exact ⟨h.counted, h.within, by rintro _ ⟨⟩, h.spaced⟩
  | take t hdue ht hlt =>
    refine ⟨?_, hlt, by rintro _ ⟨⟩, ?_⟩
    · rw [List.length_append, h.counted, List.length_singleton]
    · intro k retry hk
      obtain hlt | hge := Nat.lt_or_ge k s.taken.length
      · rw [List.getElem?_append_left hlt] at hk
        exact h.spaced k retry hk
      · -- the retry just taken: its due time was computed from the count it had
        rw [List.getElem?_append_right hge, List.getElem?_singleton] at hk
        split_ifs at hk with hzero
        cases hk
        obtain ⟨a, ha, rfl⟩ := h.due t hdue
        have hk : k = s.count := by
          have := h.counted
          omega
        exact ⟨a, ha, hk ▸ ht⟩
  | reset => exact .fresh s.armed

end Backoff

end Llmops.Lib
