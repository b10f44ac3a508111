import Mathlib

/-!
# A tally of units held

Holders take a unit of something and give it back; what they hold is counted in a dictionary under
a key of the thing, one number for each key, with no entry for zero. Several things may share a
key. The decrement is the forgiving one: below one it removes the entry.

* `holds`: what a holder holds after a list of changes, when every unit it gives back is the one
  it holds and it never takes a second;
* `Tally.Fits.changes`: a tally that fits its holders still fits them after such changes;
* `Tally.Fits.get_eq`: the number read for a thing is the number of its holders, where the keys
  tell the things apart;
* `Tally.Fits.eq_empty`: nobody holds anything, so the dictionary is empty.
-/

namespace Llmops.Lib

variable {α κ : Type*}

/-- A change of one holder: it takes a unit of `a`, or gives one back. -/
inductive Change (α : Type*) where
  | take (a : α)
  | give (a : α)
  deriving DecidableEq, Repr

/-- What a holder of `h` holds after the changes. -/
def holds [DecidableEq α] : Option α → List (Change α) → Option (Option α)
  | h, [] => some h
  | none, .take a :: cs => holds (some a) cs
  | some b, .give a :: cs => if a = b then holds none cs else none
  | none, .give _ :: _ => none
  | some _, .take _ :: _ => none

theorem holds_append [DecidableEq α] {h h' : Option α} {cs ds : List (Change α)}
    (hcs : holds h cs = some h') : holds h (cs ++ ds) = holds h' ds := by
  induction cs generalizing h with
  | nil => rw [List.nil_append, Option.some.inj hcs]
  | cons c cs ih =>
    rcases h with _ | b <;> rcases c with a | a <;> simp only [holds, reduceCtorEq] at hcs
    · exact ih hcs
    · split_ifs at hcs with hab
      rw [List.cons_append, holds, if_pos hab]
      exact ih hcs

/-- What is held after the changes was held before them, or taken by one of them. -/
theorem holds_cases [DecidableEq α] {h : Option α} {a : α} {cs : List (Change α)}
    (hcs : holds h cs = some (some a)) : h = some a ∨ .take a ∈ cs := by
  induction cs generalizing h with
  | nil => exact .inl (Option.some.inj hcs)
  | cons c cs ih =>
    rcases h with _ | b <;> rcases c with c | c <;> simp only [holds, reduceCtorEq] at hcs
    · rcases ih hcs with hc | hmem
      · obtain rfl := Option.some.inj hc
        exact .inr List.mem_cons_self
      · exact .inr (List.mem_cons_of_mem _ hmem)
    · split_ifs at hcs
      rcases ih hcs with hc | hmem
      · cases hc
      · exact .inr (List.mem_cons_of_mem _ hmem)

/-- The dictionary of the counts. -/
abbrev Tally (κ : Type*) := κ → Option Nat

namespace Tally

/-- The entry for a count. -/
def entry (n : Nat) : Option Nat := if n = 0 then none else some n

/-- The count under a key, `0` when there is no entry. -/
def get (t : Tally κ) (k : κ) : Nat := (t k).getD 0

section Update

variable [DecidableEq κ]

/-- One more under a key. -/
def incr (t : Tally κ) (k : κ) : Tally κ := Function.update t k (some (t.get k + 1))

/-- One less under a key; the entry goes when the count is at most one. -/
def decr (t : Tally κ) (k : κ) : Tally κ :=
  Function.update t k (if t.get k ≤ 1 then none else some (t.get k - 1))

/-- One change of a holder, counted. -/
def change (key : α → κ) (t : Tally κ) : Change α → Tally κ
  | .take a => t.incr (key a)
  | .give a => t.decr (key a)

/-- The changes of a holder, counted in order. -/
def changes (key : α → κ) (t : Tally κ) (cs : List (Change α)) : Tally κ := cs.foldl (change key) t

/-- How many of the holders hold something with the key. -/
def holders (key : α → κ) (hs : List (Option α)) (k : κ) : Nat :=
  hs.countP fun h => h.map key = some k

/-- The tally is the count of the holders. -/
def Fits (key : α → κ) (t : Tally κ) (hs : List (Option α)) : Prop :=
  ∀ k, t k = entry (holders key hs k)

variable {key : α → κ} {t : Tally κ} {hs : List (Option α)} {h h' : Option α} {i : Nat} {a : α}

theorem get_entry (n : Nat) : (entry n).getD 0 = n := by
  unfold entry
  split_ifs with hn
  · exact hn.symm
  · rfl

theorem Fits.get_key (ht : Fits key t hs) (k : κ) : t.get k = holders key hs k := by
  rw [get, ht k, get_entry]

/-- Replacing one holder changes the count by what it held and what it holds now. -/
theorem holders_set (key : α → κ) (h' : Option α) (hi : hs[i]? = some h) (k : κ) :
    holders key (hs.set i h') k + (if h.map key = some k then 1 else 0) =
      holders key hs k + (if h'.map key = some k then 1 else 0) := by
  obtain ⟨hlt, hget⟩ := List.getElem?_eq_some_iff.mp hi
  have hpos : h.map key = some k → 0 < holders key hs k := fun hk =>
    List.countP_pos_iff.mpr ⟨h, List.mem_of_getElem? hi, decide_eq_true hk⟩
  unfold holders at hpos ⊢
  rw [List.countP_set hlt, hget]
  simp only [decide_eq_true_eq]
  split_ifs with h1 h2 h2
  · have := hpos h1
    omega
  · have := hpos h1
    omega
  · omega
  · omega

theorem fits_nil : Fits key (fun _ => none) ([] : List (Option α)) := by
  intro k
  rfl

/-- A new holder, of nothing. -/
theorem Fits.join (ht : Fits key t hs) : Fits key t (hs ++ [none]) := by
  intro k
  rw [ht k, holders, holders, List.countP_append]
  simp

theorem Fits.take (ht : Fits key t hs) (hi : hs[i]? = some none) :
    Fits key (t.incr (key a)) (hs.set i (some a)) := by
  intro k
  have hset := holders_set key (some a) hi k
  simp only [Option.map_none, Option.map_some, Option.some.injEq, reduceCtorEq, if_false] at hset
  rw [incr, Function.update_apply, ht.get_key]
  split_ifs with hk
  · subst hk
    rw [if_pos rfl] at hset
    rw [entry, if_neg (by omega)]
    congr 1
    omega
  · rw [if_neg fun h => hk h.symm] at hset
    rw [ht k]
    congr 1
    omega

theorem Fits.give (ht : Fits key t hs) (hi : hs[i]? = some (some a)) :
    Fits key (t.decr (key a)) (hs.set i none) := by
  intro k
  have hset := holders_set key none hi k
  simp only [Option.map_none, Option.map_some, Option.some.injEq, reduceCtorEq, if_false] at hset
  rw [decr, Function.update_apply, ht.get_key]
  split_ifs with hk hle
  · subst hk
    rw [if_pos rfl] at hset
    rw [entry, if_pos (by omega)]
  · subst hk
    rw [if_pos rfl] at hset
    rw [entry, if_neg (by omega)]
    congr 1
    omega
  · rw [if_neg fun h => hk h.symm] at hset
    rw [ht k]
    congr 1
    omega

/-- **The tally follows the holders** through changes that give back what was taken. -/
theorem Fits.changes [DecidableEq α] {cs : List (Change α)} (ht : Fits key t hs)
    (hi : hs[i]? = some h) (hcs : holds h cs = some h') :
    Fits key (t.changes key cs) (hs.set i h') := by
  induction cs generalizing t hs h with
  | nil =>
    obtain ⟨hlt, hget⟩ := List.getElem?_eq_some_iff.mp hi
    rw [← Option.some.inj hcs, ← hget, List.set_getElem_self]
    exact ht
  | cons c cs ih =>
    have hlt := (List.getElem?_eq_some_iff.mp hi).1
    rcases h with _ | b <;> rcases c with a | a <;> simp only [holds, reduceCtorEq] at hcs
    · have := ih (ht.take (a := a) hi) (List.getElem?_set_self hlt) hcs
      rwa [List.set_set] at this
    · split_ifs at hcs with hab
      subst hab
      have := ih (ht.give hi) (List.getElem?_set_self hlt) hcs
      rwa [List.set_set] at this

/-- **What is read for a thing is the number of its holders**, when the keys tell apart the things
that may be held. -/
theorem Fits.get_eq [DecidableEq α] {U : Set α} (ht : Fits key t hs) (hU : Set.InjOn key U)
    (hheld : ∀ b, some b ∈ hs → b ∈ U) (ha : a ∈ U) : t.get (key a) = hs.count (some a) := by
  rw [ht.get_key, holders, List.count]
  refine List.countP_congr fun h hh => ?_
  simp only [decide_eq_true_eq, beq_iff_eq, Option.map_eq_some_iff]
  constructor
  · rintro ⟨b, rfl, hb⟩
    rw [hU (hheld b hh) ha hb]
  · rintro rfl
    exact ⟨a, rfl, rfl⟩

/-- **Nobody holds anything**, so the tally is empty. -/
theorem Fits.eq_empty (ht : Fits key t hs) (hnone : ∀ h ∈ hs, h = none) (k : κ) : t k = none := by
  rw [ht k, holders, List.countP_eq_zero.mpr, entry, if_pos rfl]
  intro h hh
  simp [hnone h hh]

end Update

end Tally

end Llmops.Lib
