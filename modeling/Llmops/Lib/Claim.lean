import Mathlib

/-!
# One owner by claims on a shared register

Nodes share one register, `owner`. A node can be **live** (it runs the thing that is to run once),
and its clients pass through operations that end by writing the node into the register. An
operation that can make its node live is on its way to `claim` the register; one that only keeps
it live until its outcome is known is on `hold`.

The discipline: an operation enters at a node that is not live only when the register names no
other live node and no other node has an operation on its way, and the register is never moved away
from a live node. `Move.one` keeps the invariant `One`, and `One.unique` reads off that at most
one node is live.
-/

namespace Llmops.Lib

/-- Where a client of a node is. -/
inductive ClaimRole where
  | away | hold | claim
  deriving DecidableEq

/-- The register, the live nodes, and the clients of every node. -/
structure Claims (N A : Type*) where
  owner : Option N
  live : N → Bool
  role : N → A → ClaimRole

namespace Claims

variable {N A : Type*} [DecidableEq N] [DecidableEq A] {s t : Claims N A}

/-- Client `a` of node `n` has moved on, and with it whether `n` is live and who owns. -/
def put (s : Claims N A) (n : N) (a : A) (live : Bool) (role : ClaimRole) (owner : Option N) :
    Claims N A where
  owner := owner
  live := Function.update s.live n live
  role := Function.update s.role n (Function.update (s.role n) a role)

/-- Operations of node `n` alone may be on their way, and the register names no other live node. -/
def Free (s : Claims N A) (n : N) : Prop :=
  (∀ m, s.owner = some m → s.live m = true → m = n) ∧ ∀ m b, s.role m b ≠ .away → m = n

/-- What client `a` of node `n` may do: whether `n` is live after it, where the client goes, and
whom the register names. -/
inductive Allowed (s : Claims N A) (n : N) (a : A) : Bool → ClaimRole → Option N → Prop
  | quiet (l : Bool) (hl : l = true → s.live n = true) :
      Allowed s n a l (s.role n a) s.owner
  | enter (l : Bool) (r : ClaimRole) (hl : l = true → r = .claim ∨ s.live n = true)
      (hfree : s.live n = true ∨ s.Free n) (haway : s.role n a = .away) : Allowed s n a l r s.owner
  | settle (l : Bool) (hold : s.role n a = .hold) : Allowed s n a l .claim s.owner
  | cancel (l : Bool) (hl : l = true → s.live n = true) (hold : s.role n a = .hold) :
      Allowed s n a l .away s.owner
  | abort (hclaim : s.role n a = .claim) : Allowed s n a false .away s.owner
  | commit (l : Bool) (hl : l = true → s.live n = true) (hclaim : s.role n a = .claim) :
      Allowed s n a l .away (some n)
  | disown (o : Option N) (l : Bool) (hl : l = true → s.live n = true)
      (hkeep : ∀ m, s.owner = some m → s.live m = true → o = some m) :
      Allowed s n a l (s.role n a) o

/-- One action on the register and the nodes. -/
inductive Move : Claims N A → Claims N A → Prop
  | act (s : Claims N A) (n : N) (a : A) {l : Bool} {r : ClaimRole} {o : Option N}
      (h : Allowed s n a l r o) : Move s (s.put n a l r o)
  | assign (s : Claims N A) (o : Option N)
      (hkeep : ∀ m, s.owner = some m → s.live m = true → o = some m) : Move s { s with owner := o }

omit [DecidableEq N] [DecidableEq A] in
/-- The invariant of the discipline. -/
structure One (s : Claims N A) : Prop where
  own : ∀ n, s.live n = true → s.owner = some n ∨ ∃ a, s.role n a = .claim
  alone : ∀ n m a b, s.role n a ≠ .away → s.role m b ≠ .away → n = m
  near : ∀ n m a, s.role n a ≠ .away → s.live m = true → m = n

omit [DecidableEq N] [DecidableEq A] in
/-- **At most one node is live.** -/
theorem One.unique (h : One s) {n m : N} (hn : s.live n = true) (hm : s.live m = true) :
    n = m := by
  rcases h.own n hn with hon | ⟨a, ha⟩
  · rcases h.own m hm with hom | ⟨b, hb⟩
    · exact Option.some.inj (hon.symm.trans hom)
    · exact h.near m n b (by rw [hb]; rintro ⟨⟩) hn
  · exact (h.near n m a (by rw [ha]; rintro ⟨⟩) hm).symm

omit [DecidableEq N] [DecidableEq A] in
/-- Nothing is live and nothing is on its way. -/
theorem One.of_none (hlive : ∀ n, s.live n = false) (hrole : ∀ n a, s.role n a = .away) :
    One s where
  own n hn := absurd hn (by simp [hlive n])
  alone n _ a _ hn := absurd (hrole n a) hn
  near n _ a hn := absurd (hrole n a) hn

theorem live_put (s : Claims N A) (n : N) (a : A) (l : Bool) (r : ClaimRole) (o : Option N)
    (m : N) : (s.put n a l r o).live m = if m = n then l else s.live m := Function.update_apply ..

theorem role_put (s : Claims N A) (n : N) (a : A) (l : Bool) (r : ClaimRole) (o : Option N)
    (m : N) (b : A) :
    (s.put n a l r o).role m b = if m = n ∧ b = a then r else s.role m b := by
  show Function.update s.role n (Function.update (s.role n) a r) m b = _
  by_cases hm : m = n
  · subst hm
    rw [Function.update_self, Function.update_apply]
    by_cases hb : b = a <;> simp [hb]
  · rw [Function.update_of_ne hm, if_neg fun h => hm h.1]

/-- A node that stays or becomes live, or keeps an operation on its way, does so alone. -/
theorem One.put (h : One s) {n : N} {a : A} {l : Bool} {r : ClaimRole} {o : Option N}
    (hnear : ∀ m b, s.role m b ≠ .away → l = true ∨ r ≠ .away → m = n)
    (hlive : ∀ m, s.live m = true → r ≠ .away → m = n)
    (hself : l = true → o = some n ∨ r = .claim ∨ ∃ b, b ≠ a ∧ s.role n b = .claim)
    (hother : ∀ m, m ≠ n → s.live m = true → s.owner = some m → o = some m) :
    One (s.put n a l r o) := by
  -- an operation on its way is client `a`'s new one, or an old one
  have split : ∀ m b, (s.put n a l r o).role m b ≠ .away →
      (m = n ∧ r ≠ .away) ∨ s.role m b ≠ .away := by
    intro m b hb
    rw [role_put] at hb
    split_ifs at hb with hmb
    · exact .inl ⟨hmb.1, hb⟩
    · exact .inr hb
  refine ⟨fun m hm => ?_, fun m k b c hb hc => ?_, fun m k b hb hk => ?_⟩
  · rw [live_put] at hm
    split_ifs at hm with hmn
    · subst hmn
      rcases hself hm with ho | hr | ⟨b, hba, hb⟩
      · exact .inl ho
      · exact .inr ⟨a, by rw [role_put, if_pos ⟨rfl, rfl⟩]; exact hr⟩
      · exact .inr ⟨b, by rw [role_put, if_neg fun h => hba h.2]; exact hb⟩
    · rcases h.own m hm with ho | ⟨b, hb⟩
      · exact .inl (hother m hmn hm ho)
      · exact .inr ⟨b, by rw [role_put, if_neg fun h => hmn h.1]; exact hb⟩
  · rcases split m b hb with ⟨rfl, hr⟩ | hb'
    · rcases split k c hc with ⟨rfl, -⟩ | hc'
      · rfl
      · exact (hnear k c hc' (.inr hr)).symm
    · rcases split k c hc with ⟨rfl, hr⟩ | hc'
      · exact hnear m b hb' (.inr hr)
      · exact h.alone m k b c hb' hc'
  · rw [live_put] at hk
    split_ifs at hk with hkn
    · rcases split m b hb with ⟨hmn, -⟩ | hb'
      · rw [hkn, hmn]
      · rw [hkn, hnear m b hb' (.inl hk)]
    · rcases split m b hb with ⟨rfl, hr⟩ | hb'
      · exact absurd (hlive k hk hr) hkn
      · exact h.near m k b hb' hk

/-- **What a client is allowed to do keeps the invariant.** -/
theorem Allowed.one {n : N} {a : A} {l : Bool} {r : ClaimRole} {o : Option N}
    (hal : Allowed s n a l r o) (h : One s) : One (s.put n a l r o) := by
  cases hal with
  | quiet _ hl =>
    refine h.put (fun m b hb hlr => ?_) (fun m hm hr => h.near n m a hr hm) (fun htrue => ?_)
      fun _ _ _ ho => ho
    · rcases hlr with htrue | hr
      · exact (h.near m n b hb (hl htrue)).symm
      · exact h.alone m n b a hb hr
    · rcases h.own n (hl htrue) with ho | ⟨b, hb⟩
      · exact .inl ho
      · by_cases hba : b = a
        · exact .inr (.inl (hba ▸ hb))
        · exact .inr (.inr ⟨b, hba, hb⟩)
  | enter _ _ hl hfree haway =>
    have others : ∀ m b, s.role m b ≠ .away → m = n := fun m b hb => by
      rcases hfree with hn | hfree
      · exact (h.near m n b hb hn).symm
      · exact hfree.2 m b hb
    refine h.put (fun m b hb _ => others m b hb) (fun m hm _ => ?_) (fun htrue => ?_)
      fun _ _ _ ho => ho
    · rcases hfree with hn | hfree
      · exact h.unique hm hn
      · rcases h.own m hm with ho | ⟨b, hb⟩
        · exact hfree.1 m ho hm
        · exact hfree.2 m b (by rw [hb]; rintro ⟨⟩)
    · rcases hl htrue with hr | hn
      · exact .inr (.inl hr)
      · rcases h.own n hn with ho | ⟨b, hb⟩
        · exact .inl ho
        · refine .inr (.inr ⟨b, fun hba => ?_, hb⟩)
          rw [hba, haway] at hb
          cases hb
  | settle _ hold =>
    have hpend : s.role n a ≠ .away := by rw [hold]; rintro ⟨⟩
    exact h.put (fun m b hb _ => h.alone m n b a hb hpend) (fun m hm _ => h.near n m a hpend hm)
      (fun _ => .inr (.inl rfl)) fun _ _ _ ho => ho
  | cancel _ hl hold =>
    refine h.put (fun m b hb hlr => ?_) (fun _ _ hr => absurd rfl hr) (fun htrue => ?_)
      fun _ _ _ ho => ho
    · exact h.alone m n b a hb (by rw [hold]; rintro ⟨⟩)
    · rcases h.own n (hl htrue) with ho | ⟨b, hb⟩
      · exact .inl ho
      · refine .inr (.inr ⟨b, fun hba => ?_, hb⟩)
        rw [hba, hold] at hb
        cases hb
  | abort hclaim =>
    refine h.put (fun m b hb _ => ?_) (fun _ _ hr => absurd rfl hr)
      (by rintro ⟨⟩) fun _ _ _ ho => ho
    exact h.alone m n b a hb (by rw [hclaim]; rintro ⟨⟩)
  | commit _ hl hclaim =>
    have hpend : s.role n a ≠ .away := by rw [hclaim]; rintro ⟨⟩
    refine h.put (fun m b hb _ => h.alone m n b a hb hpend) (fun _ _ hr => absurd rfl hr)
      (fun _ => .inl rfl) fun m hmn hm _ => absurd (h.near n m a hpend hm) hmn
  | disown _ _ hl hkeep =>
    refine h.put (fun m b hb hlr => ?_) (fun m hm hr => h.near n m a hr hm) (fun htrue => ?_)
      fun m _ hm ho => hkeep m ho hm
    · rcases hlr with htrue | hr
      · exact (h.near m n b hb (hl htrue)).symm
      · exact h.alone m n b a hb hr
    · rcases h.own n (hl htrue) with ho | ⟨b, hb⟩
      · exact .inl (hkeep n ho (hl htrue))
      · by_cases hba : b = a
        · exact .inr (.inl (hba ▸ hb))
        · exact .inr (.inr ⟨b, hba, hb⟩)

/-- **Moves keep the invariant.** -/
theorem Move.one (hm : Move s t) (h : One s) : One t := by
  cases hm with
  | act n a hal => exact hal.one h
  | assign o hkeep =>
    refine ⟨fun m hm => ?_, h.alone, h.near⟩
    exact (h.own m hm).imp_left fun ho => hkeep m ho hm

end Claims

end Llmops.Lib
