import Mathlib

/-!
# A slot that should own the one live resource

A **slot** names at most one handle of a resource that clients create, store in the slot, and
release. Creating and storing are two moments, and so are taking a handle for release and clearing
the slot, so a client is somewhere in between (`Role`):

* a creator passes `spawn` (admitted, nothing created yet) and `store p` (created, not stored),
  or `fail`;
* a releaser passes `drain p` (took the handle that the slot held) and `reap p` (handed it to
  whoever destroys it), and clears the slot at the end.

A `Move` is one atomic action of one client or of the outside, with the premises under which the
discipline works: a creator is admitted only when the slot names nothing live and no other client
is in between, and no handle is taken for release while a creator is in between.

* `Move.owned`: moves keep `Owned`;
* `Owned.owner`: every stored live handle that was not given away is the one the slot names.
-/

namespace Llmops.Lib

/-- Where one client of a slot is. -/
inductive Role (P : Type*) where
  | away
  | spawn
  | store (p : P)
  | fail
  | drain (p : P)
  | reap (p : P)

namespace Role

variable {P : Type*}

/-- Between the admission of a creator and its store. -/
def Spawning : Role P → Prop
  | spawn | store _ | fail => True
  | _ => False

/-- Between the two sections of a releaser. -/
def Stopping : Role P → Prop
  | drain _ | reap _ => True
  | _ => False

/-- The releaser took `p`. -/
def Took (p : P) : Role P → Prop
  | drain q | reap q => q = p
  | _ => False

theorem Took.stopping {p : P} : ∀ {r : Role P}, r.Took p → r.Stopping
  | drain _, _ => trivial
  | reap _, _ => trivial

end Role

/-- The slot, the handles, and the clients. `managed` says whether a releaser may take what the
slot names; `given` are the handles passed to whoever destroys them. -/
structure Slot (A P : Type*) where
  held : Option P
  managed : Bool
  born : P → Prop
  live : P → Bool
  stored : P → Bool
  given : P → Bool
  role : A → Role P

namespace Slot

variable {A P : Type*} {s t : Slot A P}

section Slots

variable [DecidableEq A]

/-- Client `a` goes on to `r`. -/
def setRole (s : Slot A P) (a : A) (r : Role P) : Slot A P :=
  { s with role := Function.update s.role a r }

theorem setRole_self {a : A} {r : Role P} (h : s.role a = r) : s.setRole a r = s := by
  subst h
  simp only [setRole, Function.update_eq_self]

theorem role_setRole (s : Slot A P) (a : A) (r : Role P) (b : A) :
    (s.setRole a r).role b = if b = a then r else s.role b := Function.update_apply ..

/-- One action on a slot. -/
inductive Move [DecidableEq P] : Slot A P → Slot A P → Prop
  | quiet (s : Slot A P) : Move s s
  | begin (s : Slot A P) (a : A) (hdead : ∀ p, s.held = some p → s.live p = false)
      (halone : ∀ b, ¬ (s.role b).Spawning ∧ ¬ (s.role b).Stopping) :
      Move s ({ s with managed := true }.setRole a .spawn)
  | create (s : Slot A P) (a : A) (p : P) (hrole : s.role a = .spawn) (hp : ¬ s.born p) :
      Move s ({ s with live := Function.update s.live p true
                       born := fun q => s.born q ∨ q = p }.setRole a (.store p))
  | abort (s : Slot A P) (a : A) (hrole : s.role a = .spawn) : Move s (s.setRole a .fail)
  | store (s : Slot A P) (a : A) (p : P) (hrole : s.role a = .store p) :
      Move s ({ s with held := some p
                       stored := Function.update s.stored p true }.setRole a .away)
  | fail (s : Slot A P) (a : A) (hrole : s.role a = .fail) :
      Move s ({ s with managed := false }.setRole a .away)
  | take (s : Slot A P) (a : A) (p : P) (hheld : s.held = some p)
      (halone : ∀ b, ¬ (s.role b).Spawning) : Move s (s.setRole a (.drain p))
  | drop (s : Slot A P) (hidle : s.managed = false ∨ s.held = none) : Move s { s with held := none }
  | hand (s : Slot A P) (a : A) (p : P) (hrole : s.role a = .drain p) :
      Move s ({ s with given := Function.update s.given p true }.setRole a (.reap p))
  | clear (s : Slot A P) (a : A) (p : P) (hrole : s.role a = .reap p) (hp : s.live p = false) :
      Move s ({ s with held := none }.setRole a .away)
  | lost (s : Slot A P) (p : P) (hheld : s.held = some p) (hp : s.live p = false) :
      Move s { s with held := none }
  | expel (s : Slot A P) (p : P) (hheld : s.held = some p) :
      Move s { s with held := none, given := Function.update s.given p true }
  | exit (s : Slot A P) (p : P) : Move s { s with live := Function.update s.live p false }

end Slots

/-- The invariant of the discipline. -/
structure Owned (s : Slot A P) : Prop where
  owner : ∀ p, s.stored p = true → s.live p = true → s.given p = false → s.held = some p
  managed : ∀ p, s.held = some p → s.live p = true → s.given p = false → s.managed = true
  held_stored : ∀ p, s.held = some p → s.stored p = true
  stored_born : ∀ p, s.stored p = true → s.born p
  pending : ∀ a p, s.role a = .store p → s.born p
  spawn_managed : ∀ a, (s.role a).Spawning → s.managed = true
  spawn_unique : ∀ a b, (s.role a).Spawning → (s.role b).Spawning → a = b
  spawn_alone : ∀ a b, (s.role a).Spawning → ¬ (s.role b).Stopping
  spawn_dead : ∀ a, (s.role a).Spawning → ∀ p, s.held = some p → s.live p = false
  took_held : ∀ a p, (s.role a).Took p → ∀ q, s.held = some q → q = p ∨ s.live q = false

/-- A slot that names nothing, with no client in between. -/
theorem Owned.of_empty (hheld : s.held = none) (hstored : ∀ p, s.stored p = false)
    (hrole : ∀ a, s.role a = .away) : Owned s where
  owner p hp := absurd hp (by simp [hstored p])
  managed p hp := absurd hp (by simp [hheld])
  held_stored p hp := absurd hp (by simp [hheld])
  stored_born p hp := absurd hp (by simp [hstored p])
  pending a p hp := absurd hp (by simp [hrole a])
  spawn_managed a ha := absurd ha (by simp [hrole a, Role.Spawning])
  spawn_unique a _ ha := absurd ha (by simp [hrole a, Role.Spawning])
  spawn_alone a _ ha := absurd ha (by simp [hrole a, Role.Spawning])
  spawn_dead a ha := absurd ha (by simp [hrole a, Role.Spawning])
  took_held a p ha := absurd ha (by simp [hrole a, Role.Took])

/-! ## Each action keeps the invariant

The role of one client and the slot itself are changed one after the other. -/

/-- A client may always go on to a role that claims no more than its present one. -/
theorem Owned.relax [DecidableEq A] (h : Owned s) {a : A} {r : Role P}
    (hspawn : r.Spawning → (s.role a).Spawning) (hstop : r.Stopping → (s.role a).Stopping)
    (htook : ∀ p, r.Took p → (s.role a).Took p)
    (hborn : ∀ p, r = .store p → s.born p) : Owned (s.setRole a r) := by
  have spawning : ∀ b, ((s.setRole a r).role b).Spawning → (s.role b).Spawning := by
    intro b hb
    rw [role_setRole] at hb
    split_ifs at hb with hba
    · rw [hba]; exact hspawn hb
    · exact hb
  have stopping : ∀ b, ((s.setRole a r).role b).Stopping → (s.role b).Stopping := by
    intro b hb
    rw [role_setRole] at hb
    split_ifs at hb with hba
    · rw [hba]; exact hstop hb
    · exact hb
  refine ⟨h.owner, h.managed, h.held_stored, h.stored_born, fun b p hb => ?_,
    fun b hb => h.spawn_managed b (spawning b hb),
    fun b c hb hc => h.spawn_unique b c (spawning b hb) (spawning c hc),
    fun b c hb hc => h.spawn_alone b c (spawning b hb) (stopping c hc),
    fun b hb => h.spawn_dead b (spawning b hb), fun b p hb => ?_⟩
  · rw [role_setRole] at hb
    split_ifs at hb
    · exact hborn p hb
    · exact h.pending b p hb
  · rw [role_setRole] at hb
    split_ifs at hb with hba
    · exact h.took_held a p (htook p hb)
    · exact h.took_held b p hb

/-- A client that is done. -/
theorem Owned.away [DecidableEq A] (h : Owned s) (a : A) : Owned (s.setRole a .away) :=
  h.relax False.elim False.elim (fun _ => False.elim) (by rintro _ ⟨⟩)

theorem Owned.begin [DecidableEq A] (h : Owned s) (a : A)
    (hdead : ∀ p, s.held = some p → s.live p = false)
    (halone : ∀ b, ¬ (s.role b).Spawning ∧ ¬ (s.role b).Stopping) :
    Owned ({ s with managed := true }.setRole a .spawn) := by
  have others : ∀ b, b ≠ a → (({ s with managed := true }.setRole a .spawn).role b) = s.role b :=
    fun b hb => by rw [role_setRole, if_neg hb]
  have self : ({ s with managed := true }.setRole a .spawn).role a = .spawn := by
    rw [role_setRole, if_pos rfl]
  refine ⟨h.owner, fun _ _ _ _ => rfl, h.held_stored, h.stored_born, fun b p hb => ?_,
    fun _ _ => rfl, fun b c hb hc => ?_, fun b c _ hc => ?_, fun _ _ => hdead, fun b p hb => ?_⟩
  · by_cases hba : b = a
    · rw [hba, self] at hb
      cases hb
    · exact h.pending b p (others b hba ▸ hb)
  · by_cases hba : b = a <;> by_cases hca : c = a
    · rw [hba, hca]
    · exact absurd (others c hca ▸ hc) (halone c).1
    · exact absurd (others b hba ▸ hb) (halone b).1
    · exact absurd (others b hba ▸ hb) (halone b).1
  · by_cases hca : c = a
    · rw [hca, self] at hc
      exact hc
    · exact (halone c).2 (others c hca ▸ hc)
  · by_cases hba : b = a
    · rw [hba, self] at hb
      exact hb.elim
    · exact h.took_held b p (others b hba ▸ hb)

/-- A created handle is fresh, so it revives nothing the slot names. -/
theorem Owned.create [DecidableEq P] (h : Owned s) {a : A} {p : P} (hrole : s.role a = .spawn)
    (hp : ¬ s.born p) :
    Owned { s with live := Function.update s.live p true, born := fun q => s.born q ∨ q = p } := by
  have hspawn : (s.role a).Spawning := by rw [hrole]; trivial
  have hne : ∀ q, s.stored q = true → q ≠ p := fun q hq he => hp (he ▸ h.stored_born q hq)
  have live : ∀ q, s.stored q = true → Function.update s.live p true q = s.live q :=
    fun q hq => Function.update_of_ne (hne q hq) ..
  refine ⟨fun q hs hl hg => h.owner q hs (live q hs ▸ hl) hg, fun q hq hl hg => ?_, h.held_stored,
    fun q hq => .inl (h.stored_born q hq), fun b q hb => .inl (h.pending b q hb), h.spawn_managed,
    h.spawn_unique, h.spawn_alone, fun b hb q hq => ?_, fun b q hb q' hq => ?_⟩
  · exact h.spawn_managed a hspawn
  · exact (live q (h.held_stored q hq)).trans (h.spawn_dead b hb q hq)
  · exact (h.took_held b q hb q' hq).imp_right (live q' (h.held_stored q' hq)).trans

/-- The slot stops naming a handle that is dead or was given away. -/
theorem Owned.release (h : Owned s)
    (hp : ∀ q, s.held = some q → s.live q = false ∨ s.given q = true) :
    Owned { s with held := none } := by
  have none_held : ∀ q, (none : Option P) ≠ some q := by
    rintro _ ⟨⟩
  refine ⟨fun q hs hl hg => ?_, fun q hq => absurd hq (none_held q),
    fun q hq => absurd hq (none_held q), h.stored_born, h.pending, h.spawn_managed, h.spawn_unique,
    h.spawn_alone, fun _ _ q hq => absurd hq (none_held q),
    fun _ _ _ q hq => absurd hq (none_held q)⟩
  rcases hp q (h.owner q hs hl hg) with hd | hd
  · exact absurd hl (by simp only [hd, Bool.false_eq_true, not_false_eq_true])
  · exact absurd hg (by simp only [hd, Bool.true_eq_false, not_false_eq_true])

/-- The slot names the handle just created, when nobody is in between. -/
theorem Owned.put [DecidableEq P] (h : Owned s) {p : P} (hborn : s.born p) (hmanaged : s.managed = true)
    (hdead : ∀ q, s.held = some q → s.live q = false)
    (halone : ∀ b, ¬ (s.role b).Spawning ∧ ¬ (s.role b).Stopping) :
    Owned { s with held := some p, stored := Function.update s.stored p true } := by
  have old : ∀ q, q ≠ p → Function.update s.stored p true q = s.stored q :=
    fun q hq => Function.update_of_ne hq ..
  refine ⟨fun q hs hl hg => ?_, fun _ _ _ _ => hmanaged, fun q hq => ?_, fun q hq => ?_, h.pending,
    fun b hb => absurd hb (halone b).1, h.spawn_unique, h.spawn_alone,
    fun b hb => absurd hb (halone b).1, fun b q hb => absurd hb.stopping (halone b).2⟩
  · by_cases hqp : q = p
    · rw [hqp]
    · have hheld := h.owner q ((old q hqp).symm.trans hs) hl hg
      rw [hdead q hheld] at hl
      cases hl
  · rw [← Option.some.inj hq]
    exact Function.update_self ..
  · by_cases hqp : q = p
    · rw [hqp]; exact hborn
    · exact h.stored_born q ((old q hqp).symm.trans hq)

theorem Owned.give [DecidableEq P] (h : Owned s) (p : P) :
    Owned { s with given := Function.update s.given p true } := by
  have mono : ∀ q, Function.update s.given p true q = false → s.given q = false := by
    intro q hq
    rw [Function.update_apply] at hq
    split_ifs at hq
    exact hq
  exact ⟨fun q hs hl hg => h.owner q hs hl (mono q hg),
    fun q hq hl hg => h.managed q hq hl (mono q hg), h.held_stored, h.stored_born, h.pending,
    h.spawn_managed, h.spawn_unique, h.spawn_alone, h.spawn_dead, h.took_held⟩

theorem Owned.exit [DecidableEq P] (h : Owned s) (p : P) :
    Owned { s with live := Function.update s.live p false } := by
  have mono : ∀ q, Function.update s.live p false q = true → s.live q = true := by
    intro q hq
    rw [Function.update_apply] at hq
    split_ifs at hq
    exact hq
  have dead : ∀ q, s.live q = false → Function.update s.live p false q = false := by
    intro q hq
    rw [Function.update_apply]
    split_ifs
    · rfl
    · exact hq
  exact ⟨fun q hs hl hg => h.owner q hs (mono q hl) hg,
    fun q hq hl hg => h.managed q hq (mono q hl) hg, h.held_stored, h.stored_born, h.pending,
    h.spawn_managed, h.spawn_unique, h.spawn_alone,
    fun b hb q hq => dead q (h.spawn_dead b hb q hq),
    fun b q hb q' hq => (h.took_held b q hb q' hq).imp_right (dead q')⟩

theorem Owned.take [DecidableEq A] (h : Owned s) (a : A) {p : P} (hheld : s.held = some p)
    (halone : ∀ b, ¬ (s.role b).Spawning) : Owned (s.setRole a (.drain p)) := by
  have spawning : ∀ b, ¬ ((s.setRole a (.drain p)).role b).Spawning := by
    intro b hb
    rw [role_setRole] at hb
    split_ifs at hb
    · exact hb
    · exact halone b hb
  refine ⟨h.owner, h.managed, h.held_stored, h.stored_born, fun b q hb => ?_,
    fun b hb => absurd hb (spawning b), fun b _ hb => absurd hb (spawning b),
    fun b _ hb => absurd hb (spawning b), fun b hb => absurd hb (spawning b), fun b q hb q' hq => ?_⟩
  · rw [role_setRole] at hb
    split_ifs at hb
    exact h.pending b q hb
  · rw [role_setRole] at hb
    split_ifs at hb with hba
    · exact .inl ((Option.some.inj (hq.symm.trans hheld)).trans hb)
    · exact h.took_held b q hb q' hq

/-- **Moves keep the invariant.** -/
theorem Move.owned [DecidableEq A] [DecidableEq P] (hm : Move s t) (h : Owned s) : Owned t := by
  cases hm with
  | quiet => exact h
  | begin a hdead halone => exact h.begin a hdead halone
  | create a p hrole hp =>
    refine (h.create hrole hp).relax (fun _ => ?_) False.elim (fun _ => False.elim) ?_
    · simp only [hrole, Role.Spawning]
    · intro q hq
      exact .inr (Role.store.inj hq).symm
  | abort a hrole =>
    refine h.relax (fun _ => ?_) False.elim (fun _ => False.elim) (by rintro _ ⟨⟩)
    simp only [hrole, Role.Spawning]
  | store a p hrole =>
    have hspawn : (s.role a).Spawning := by rw [hrole]; trivial
    refine (h.away a).put (h.pending a p hrole) (h.spawn_managed a hspawn) (h.spawn_dead a hspawn)
      fun b => ?_
    rw [role_setRole]
    split_ifs with hba
    · exact ⟨id, id⟩
    · exact ⟨fun hb => hba (h.spawn_unique b a hb hspawn), h.spawn_alone a b hspawn⟩
  | fail a hrole =>
    have hspawn : (s.role a).Spawning := by rw [hrole]; trivial
    have hnone : ∀ b, ¬ ((s.setRole a .away).role b).Spawning := by
      intro b hb
      rw [role_setRole] at hb
      split_ifs at hb with hba
      · exact hb
      · exact hba (h.spawn_unique b a hb hspawn)
    have h' := h.away a
    exact ⟨h'.owner, fun p hp hl => absurd hl (by simp [h.spawn_dead a hspawn p hp, setRole]),
      h'.held_stored, h'.stored_born, h'.pending, fun b hb => absurd hb (hnone b), h'.spawn_unique,
      h'.spawn_alone, h'.spawn_dead, h'.took_held⟩
  | take a p hheld halone => exact h.take a hheld halone
  | drop hidle =>
    refine h.release fun q hq => ?_
    rcases hidle with hm | hn
    · by_contra hcon
      simp only [not_or, Bool.not_eq_false, Bool.not_eq_true] at hcon
      exact absurd (h.managed q hq hcon.1 hcon.2) (by simp only [hm, Bool.false_eq_true,
        not_false_eq_true])
    · cases hn.symm.trans hq
  | hand a p hrole =>
    refine (h.give p).relax False.elim (fun _ => ?_) (fun q hq => ?_) (by rintro _ ⟨⟩)
    · simp only [hrole, Role.Stopping]
    · simp only [hrole, Role.Took]
      exact hq
  | clear a p hrole hp =>
    refine (h.release fun q hq => .inl ?_).away a
    rcases h.took_held a p (by simp only [hrole, Role.Took]) q hq with rfl | hd
    · exact hp
    · exact hd
  | lost p hheld hp =>
    exact h.release fun q hq => .inl (Option.some.inj (hheld.symm.trans hq) ▸ hp)
  | expel p hheld =>
    refine (h.give p).release fun q hq => .inr ?_
    rw [← Option.some.inj (hheld.symm.trans hq)]
    exact Function.update_self ..
  | exit p => exact h.exit p

end Slot

end Llmops.Lib
