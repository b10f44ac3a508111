import Mathlib

/-!
# Cutting a stream at a separator

`cut sep xs` cuts at the leftmost occurrence of a separator, `pieces sep xs` again and again: the
pieces before the separators, and the rest. A stream that arrives in parts is cut as it comes: the
rest of the parts before is what the next part is appended to.

* `cut_append`: more input does not change a cut that was made;
* `pieces_append`: so the pieces of `xs ++ ys` are those of `xs` and those of the rest with `ys`;
* `pieces_rest`: no separator is left in the rest.
-/

namespace Llmops.Lib

variable {α : Type*} [DecidableEq α] {sep xs ys a r : List α}

/-- The list before the leftmost occurrence of the separator, and the list after it. -/
def cut (sep : List α) : List α → Option (List α × List α)
  | [] => if sep = [] then some ([], []) else none
  | x :: xs =>
    if sep <+: x :: xs then some ([], (x :: xs).drop sep.length)
    else (cut sep xs).map fun p => (x :: p.1, p.2)

theorem cut_eq_some (h : cut sep xs = some (a, r)) : xs = a ++ (sep ++ r) := by
  induction xs generalizing a with
  | nil =>
    unfold cut at h
    split_ifs at h with hsep
    cases h
    rw [hsep]
    rfl
  | cons x xs ih =>
    unfold cut at h
    split_ifs at h with hstart
    · cases h
      obtain ⟨rest, hrest⟩ := hstart
      rw [← hrest, List.drop_left, List.nil_append]
    · obtain ⟨p, hp, heq⟩ := Option.map_eq_some_iff.mp h
      cases heq
      rw [ih hp, List.cons_append]

theorem cut_eq_none_iff : cut sep xs = none ↔ ¬ sep <:+: xs := by
  induction xs with
  | nil =>
    unfold cut
    rw [List.infix_nil]
    split_ifs with hsep <;> simp [hsep]
  | cons x xs ih =>
    unfold cut
    rw [List.infix_cons_iff, not_or]
    split_ifs with hstart
    · simp [hstart]
    · rw [Option.map_eq_none_iff, ih]
      simp [hstart]

theorem length_rest_lt (hsep : sep ≠ []) (h : cut sep xs = some (a, r)) :
    r.length < xs.length := by
  have hpos := List.length_pos_of_ne_nil hsep
  rw [cut_eq_some h, List.length_append, List.length_append]
  omega

/-- **A cut is stable**: what arrives later comes after the rest. -/
theorem cut_append (h : cut sep xs = some (a, r)) : cut sep (xs ++ ys) = some (a, r ++ ys) := by
  induction xs generalizing a with
  | nil =>
    unfold cut at h
    split_ifs at h with hsep
    cases h
    cases ys <;> simp [cut, hsep]
  | cons x xs ih =>
    unfold cut at h
    split_ifs at h with hstart
    · cases h
      have happend : sep <+: x :: (xs ++ ys) := hstart.trans (List.prefix_append (x :: xs) ys)
      rw [List.cons_append, cut, if_pos happend, ← List.cons_append,
        List.drop_append_of_le_length hstart.length_le]
    · obtain ⟨p, hp, heq⟩ := Option.map_eq_some_iff.mp h
      cases heq
      have hlength : sep.length ≤ (x :: xs).length := by
        rw [cut_eq_some hp]
        simp only [List.length_cons, List.length_append]
        omega
      have hlater : ¬ sep <+: x :: (xs ++ ys) := by
        intro hlater
        exact hstart (List.prefix_of_prefix_length_le hlater (List.prefix_append (x :: xs) ys)
          hlength)
      rw [List.cons_append, cut, if_neg hlater, ih hp]
      rfl

/-- The pieces before the separators, and the rest. -/
def pieces (sep : List α) (hsep : sep ≠ []) (xs : List α) : List (List α) × List α :=
  match h : cut sep xs with
  | none => ([], xs)
  | some (a, r) =>
    have := length_rest_lt hsep h
    let p := pieces sep hsep r
    (a :: p.1, p.2)
termination_by xs.length

variable {hsep : sep ≠ []}

theorem pieces_of_none (h : cut sep xs = none) : pieces sep hsep xs = ([], xs) := by
  rw [pieces]
  split
  · rfl
  · next a r heq =>
    rw [h] at heq
    cases heq

theorem pieces_of_some (h : cut sep xs = some (a, r)) :
    pieces sep hsep xs = (a :: (pieces sep hsep r).1, (pieces sep hsep r).2) := by
  rw [pieces]
  split
  · next heq =>
    rw [h] at heq
    cases heq
  · next a' r' heq =>
    rw [h] at heq
    cases heq
    rfl

/-- **Cutting a stream as it comes.** -/
theorem pieces_append : pieces sep hsep (xs ++ ys) =
    ((pieces sep hsep xs).1 ++ (pieces sep hsep ((pieces sep hsep xs).2 ++ ys)).1,
      (pieces sep hsep ((pieces sep hsep xs).2 ++ ys)).2) := by
  induction hlength : xs.length using Nat.strong_induction_on generalizing xs with
  | _ n ih =>
    cases h : cut sep xs with
    | none => rw [pieces_of_none h, List.nil_append]
    | some p =>
      obtain ⟨a, r⟩ := p
      have hless : r.length < n := hlength ▸ length_rest_lt hsep h
      rw [pieces_of_some h, pieces_of_some (cut_append h), ih r.length hless rfl]
      rfl

/-- No separator is left. -/
theorem pieces_rest : ¬ sep <:+: (pieces sep hsep xs).2 := by
  induction hlength : xs.length using Nat.strong_induction_on generalizing xs with
  | _ n ih =>
    cases h : cut sep xs with
    | none =>
      rw [pieces_of_none h]
      exact cut_eq_none_iff.mp h
    | some p =>
      obtain ⟨a, r⟩ := p
      rw [pieces_of_some h]
      exact ih r.length (hlength ▸ length_rest_lt hsep h) rfl

end Llmops.Lib
