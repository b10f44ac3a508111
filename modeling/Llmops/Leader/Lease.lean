import Llmops.Instance

/-!
# The leader lease

The row of `leader_lease` and the statements of `try_acquire_leader` and `release_leader`
(`llmops_store.py:732-761`). Each statement is atomic; a call runs two or one of them, with the
clock reading it took at its start.
-/

namespace Llmops.Leader

variable {R : Type*} [DecidableEq R]

/-- The lease of the control plane: who holds it, until when. -/
structure Lease (R : Type*) where
  holder : R
  expiresAt : Time

/-- The conditional upsert: it takes a free, expired or own lease and leaves any other alone. -/
def upsertLease (lease : Option (Lease R)) (holder : R) (now ttl : Time) : Option (Lease R) :=
  match lease with
  | none => some ⟨holder, now + ttl⟩
  | some row =>
    if row.expiresAt < now ∨ row.holder = holder then some ⟨holder, now + ttl⟩ else some row

/-- The read-back: whether `holder` has the lease, unexpired at the reading of the call. -/
def holdsLease (lease : Option (Lease R)) (holder : R) (now : Time) : Bool :=
  match lease with
  | none => false
  | some row => row.holder = holder && decide (now < row.expiresAt)

/-- `release_leader`: only the holder's row is deleted. -/
def deleteLease (lease : Option (Lease R)) (holder : R) : Option (Lease R) :=
  match lease with
  | none => none
  | some row => if row.holder = holder then none else some row

variable {lease : Option (Lease R)} {row : Lease R} {holder : R} {now ttl : Time}

/-- An upsert takes the lease, or another holder keeps it. -/
theorem upsertLease_cases (lease : Option (Lease R)) (holder : R) (now ttl : Time) :
    upsertLease lease holder now ttl = some ⟨holder, now + ttl⟩ ∨
    ∃ row, lease = some row ∧ row.holder ≠ holder ∧ now ≤ row.expiresAt ∧
      upsertLease lease holder now ttl = some row := by
  cases lease with
  | none => exact .inl rfl
  | some row =>
    by_cases h : row.expiresAt < now ∨ row.holder = holder
    · exact .inl (if_pos h)
    · obtain ⟨hexp, hne⟩ := not_or.mp h
      exact .inr ⟨row, rfl, hne, not_lt.mp hexp, if_neg h⟩

/-- Nobody takes a lease that has not expired. -/
theorem upsertLease_of_live (hne : row.holder ≠ holder) (hlive : now ≤ row.expiresAt) :
    upsertLease (some row) holder now ttl = some row :=
  if_neg (not_or.mpr ⟨not_lt.mpr hlive, hne⟩)

theorem upsertLease_own (h : row.holder = holder) :
    upsertLease (some row) holder now ttl = some ⟨holder, now + ttl⟩ := if_pos (.inr h)

theorem holdsLease_eq_true :
    holdsLease lease holder now = true ↔
      ∃ row, lease = some row ∧ row.holder = holder ∧ now < row.expiresAt := by
  cases lease with
  | none => simp [holdsLease]
  | some row => simp [holdsLease]

theorem deleteLease_of_ne (hne : row.holder ≠ holder) :
    deleteLease (some row) holder = some row := if_neg hne

theorem deleteLease_eq_some (h : deleteLease lease holder = some row) :
    lease = some row ∧ row.holder ≠ holder := by
  cases lease with
  | none => cases h
  | some r =>
    by_cases hr : r.holder = holder
    · rw [deleteLease, if_pos hr] at h
      cases h
    · rw [deleteLease_of_ne hr] at h
      cases h
      exact ⟨rfl, hr⟩

end Llmops.Leader
