import Mathlib

/-!
# A script whose statements commit one by one

There is no transaction around the script: each statement is applied when the server takes it, and
the first that is not taken ends the run, with everything before it applied. Whether the server takes
a statement may depend on how many came before, on the state and on the statement.

* `execute_spec`: a run applies a beginning of the script, and a run that gets to the end all of it;
* `frame`: what no statement of a list touches is what it was.
-/

namespace Llmops.Lib.Script

variable {σ ε : Type*} (apply : σ → ε → σ) (takes : Nat → σ → ε → Bool)

/-- Execute a script; whether it got to the end, and the state that it left. -/
def execute : Nat → σ → List ε → Bool × σ
  | _, s, [] => (true, s)
  | n, s, e :: script => if takes n s e then execute (n + 1) (apply s e) script else (false, s)

/-- **What a run applies.** -/
theorem execute_spec (n : Nat) (s : σ) (script : List ε) :
    ∃ done, done <+: script ∧ (execute apply takes n s script).2 = done.foldl apply s ∧
      ((execute apply takes n s script).1 = true → done = script) ∧
      ∀ e ∈ done, ∃ m t, takes m t e = true := by
  induction script generalizing n s with
  | nil => exact ⟨[], List.nil_prefix, rfl, fun _ => rfl, by simp⟩
  | cons e script ih =>
    by_cases htakes : takes n s e = true
    · obtain ⟨done, hdone, hstate, hall, htaken⟩ := ih (n + 1) (apply s e)
      rw [execute, if_pos htakes]
      refine ⟨e :: done, (List.prefix_cons_inj e).mpr hdone, hstate, fun h => ?_, ?_⟩
      · rw [hall h]
      · exact List.forall_mem_cons.mpr ⟨⟨n, s, htakes⟩, htaken⟩
    · rw [execute, if_neg htakes]
      exact ⟨[], List.nil_prefix, rfl, fun h => absurd h Bool.false_ne_true, by simp⟩

variable {apply}

/-- **The frame rule**: what no statement of a list touches is what it was. -/
theorem frame {α : Type*} {view : σ → α} {es : List ε}
    (h : ∀ e ∈ es, ∀ s, view (apply s e) = view s) (s : σ) : view (es.foldl apply s) = view s := by
  induction es generalizing s with
  | nil => rfl
  | cons e es ih =>
    rw [List.foldl_cons, ih (fun e' he' => h e' (List.mem_cons_of_mem e he')),
      h e List.mem_cons_self]

end Llmops.Lib.Script
