import Llmops.Instance
import Llmops.Router.Proxy

/-!
# Drain marks

`mark_draining`, `clear_draining` and `is_draining` (`backend_runtime_state.py:69-89`) on the marks
of one worker, and `set_draining`, `clear_draining` and `list_draining` on the table of the shared
store (`llmops_store.py:772-797`). Both are dictionaries from `make_backend_key` to the time a mark
expires. `is_draining` also drops an expired mark; nobody can tell, so it only reads here.
-/

namespace Llmops.Router

/-- Drain marks: the time each expires, by key. -/
abbrev Marks := String → Option Time

/-- `mark_draining`, and `set_draining` of the store: a mark that expires `ttl` from now. -/
def markDraining (marks : Marks) (b : Backend) (ttl now : Time) : Marks :=
  Function.update marks (makeBackendKey b) (some (now + ttl))

/-- `clear_draining`, of a worker and of the store. -/
def clearDraining (marks : Marks) (b : Backend) : Marks :=
  Function.update marks (makeBackendKey b) none

/-- The marks that have not expired: what `list_draining` of the store answers. -/
def listDraining (marks : Marks) (now : Time) : Marks := fun key => (marks key).filter (now < ·)

/-- `is_draining`. -/
def isDraining (marks : Marks) (b : Backend) (now : Time) : Bool :=
  (listDraining marks now (makeBackendKey b)).isSome

variable {marks : Marks} {b : Backend} {t now : Time}

theorem isDraining_iff :
    isDraining marks b now = true ↔ ∃ expires, marks (makeBackendKey b) = some expires ∧
      now < expires := by
  simp [isDraining, listDraining, Option.any_eq_true]

/-- A list that is read early has, later on, the marks that have not expired by then. -/
theorem listDraining_listDraining (h : t ≤ now) :
    listDraining (listDraining marks t) now = listDraining marks now := by
  funext key
  unfold listDraining
  cases marks key with
  | none => rfl
  | some expires =>
    by_cases hnow : now < expires
    · simp [Option.filter_some, hnow, h.trans_lt hnow]
    · by_cases ht : t < expires <;> simp [Option.filter_some, hnow, ht]

theorem isDraining_markDraining {ttl : Time} :
    isDraining (markDraining marks b ttl t) b now = true ↔ now < t + ttl := by
  rw [isDraining_iff, markDraining, Function.update_self]
  simp

/-- A list that is read has the marks of the store, as long as they last. -/
theorem isDraining_listDraining (h : t ≤ now) :
    isDraining (listDraining marks t) b now = isDraining marks b now := by
  rw [isDraining, listDraining_listDraining h, isDraining]

/-- The marks of the other keys are where they were. -/
theorem isDraining_update {key : String} {mark : Option Time} (h : makeBackendKey b ≠ key) :
    isDraining (Function.update marks key mark) b now = isDraining marks b now := by
  rw [isDraining, isDraining, listDraining, listDraining, Function.update_of_ne h]

end Llmops.Router
