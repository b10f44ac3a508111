import Mathlib

/-!
# Thinning a stream of times

`thin c` goes through times in order and takes each one that is not less than `c` after the last one
it took. It needs no more than that last time.

* `thin_spaced`: any two times that are taken are `c` apart;
* `thin_covers`: a time that is not taken has one less than `c` before it that is;
* `length_le_thin`: no other choice of times that are `c` apart has more of them.
-/

namespace Llmops.Lib

variable {T : Type*} [AddCommGroup T] [LinearOrder T]

/-- The times taken, after one that was taken at `last`. -/
def thin (c : T) : Option T → List T → List T
  | _, [] => []
  | last, t :: ts =>
    if last.any fun s => t - s < c then thin c last ts else t :: thin c (some t) ts

variable {c s t : T} {last : Option T} {ts us : List T}

/-- The last of the times taken, or the one before them. -/
def lastTaken (c : T) (last : Option T) (ts : List T) : Option T :=
  ((thin c last ts).getLast?).or last

theorem thin_cons_of_near (h : ∃ s ∈ last, t - s < c) : thin c last (t :: ts) = thin c last ts := by
  obtain ⟨s, hs, hlt⟩ := h
  rw [thin, Option.mem_def.mp hs]
  simp [hlt]

theorem thin_cons_of_far (h : ∀ s ∈ last, c ≤ t - s) :
    thin c last (t :: ts) = t :: thin c (some t) ts := by
  rw [thin, if_neg]
  cases last with
  | none => simp
  | some s => simpa using h s rfl

theorem near_or_far (c : T) (last : Option T) (t : T) :
    (∃ s ∈ last, t - s < c) ∨ ∀ s ∈ last, c ≤ t - s := by
  by_cases h : ∃ s ∈ last, t - s < c
  · exact .inl h
  · refine .inr fun s hs => ?_
    by_contra hlt
    exact h ⟨s, hs, not_le.mp hlt⟩

theorem thin_sublist : (thin c last ts).Sublist ts := by
  induction ts generalizing last with
  | nil => exact List.Sublist.refl _
  | cons t ts ih =>
    rcases near_or_far c last t with h | h
    · rw [thin_cons_of_near h]
      exact ih.cons t
    · rw [thin_cons_of_far h]
      exact ih.cons_cons t

/-- **One time more**: it is taken exactly if it is far from the last one taken. -/
theorem thin_snoc (c : T) (last : Option T) (ts : List T) (t : T) :
    thin c last (ts ++ [t]) =
      if (lastTaken c last ts).any fun s => t - s < c then thin c last ts
      else thin c last ts ++ [t] := by
  induction ts generalizing last with
  | nil =>
    unfold lastTaken
    rw [thin, List.getLast?_nil, Option.none_or]
    rfl
  | cons u ts ih =>
    rw [List.cons_append]
    rcases near_or_far c last u with h | h
    · have hlast : lastTaken c last (u :: ts) = lastTaken c last ts := by
        unfold lastTaken
        rw [thin_cons_of_near h]
      rw [thin_cons_of_near h, thin_cons_of_near h, hlast, ih]
    · have hlast : lastTaken c last (u :: ts) = lastTaken c (some u) ts := by
        unfold lastTaken
        rw [thin_cons_of_far h, List.getLast?_cons]
        cases (thin c (some u) ts).getLast? <;> rfl
      rw [thin_cons_of_far h, thin_cons_of_far h, hlast, ih]
      split_ifs <;> rfl

section Ordered

variable [IsOrderedAddMonoid T]

/-- What is taken comes `c` after the last one taken before. -/
theorem le_sub_of_mem_thin (hts : ts.Pairwise (· ≤ ·)) (hs : s ∈ last) (ht : t ∈ thin c last ts) :
    c ≤ t - s := by
  induction ts generalizing last s with
  | nil => cases ht
  | cons u ts ih =>
    obtain ⟨hu, hts⟩ := List.pairwise_cons.mp hts
    rcases near_or_far c last u with h | h
    · rw [thin_cons_of_near h] at ht
      exact ih hts hs ht
    · rw [thin_cons_of_far h] at ht
      rcases List.mem_cons.mp ht with rfl | ht
      · exact h s hs
      · exact (h s hs).trans (sub_le_sub_right (hu t (thin_sublist.subset ht)) s)

/-- **Any two times that are taken are apart.** -/
theorem thin_spaced (hts : ts.Pairwise (· ≤ ·)) :
    (thin c last ts).Pairwise fun s t => c ≤ t - s := by
  induction ts generalizing last with
  | nil => exact List.Pairwise.nil
  | cons t ts ih =>
    obtain ⟨-, hts⟩ := List.pairwise_cons.mp hts
    rcases near_or_far c last t with h | h
    · rw [thin_cons_of_near h]
      exact ih hts
    · rw [thin_cons_of_far h]
      exact List.pairwise_cons.mpr ⟨fun u hu => le_sub_of_mem_thin hts rfl hu, ih hts⟩

omit [IsOrderedAddMonoid T] in
/-- **A time that is not taken is near one that is**, and after it. -/
theorem thin_covers (hts : ts.Pairwise (· ≤ ·)) (hlast : ∀ s ∈ last, ∀ t ∈ ts, s ≤ t)
    (ht : t ∈ ts) :
    t ∈ thin c last ts ∨ ∃ s, (s ∈ thin c last ts ∨ s ∈ last) ∧ s ≤ t ∧ t - s < c := by
  induction ts generalizing last with
  | nil => cases ht
  | cons u ts ih =>
    obtain ⟨hu, hts⟩ := List.pairwise_cons.mp hts
    rcases near_or_far c last u with h | h
    · rw [thin_cons_of_near h]
      rcases List.mem_cons.mp ht with rfl | ht
      · obtain ⟨s, hs, hlt⟩ := h
        exact .inr ⟨s, .inr hs, hlast s hs t List.mem_cons_self, hlt⟩
      · exact ih hts (fun s hs v hv => hlast s hs v (List.mem_cons_of_mem u hv)) ht
    · rw [thin_cons_of_far h]
      rcases List.mem_cons.mp ht with rfl | ht
      · exact .inl List.mem_cons_self
      · have hfirst : ∀ s ∈ some u, ∀ v ∈ ts, s ≤ v := fun s hs v hv => Option.some.inj hs ▸ hu v hv
        rcases ih hts hfirst ht with hmem | ⟨s, hs, hle, hlt⟩
        · exact .inl (List.mem_cons_of_mem u hmem)
        · refine .inr ⟨s, .inl ?_, hle, hlt⟩
          rcases hs with hs | hs
          · exact List.mem_cons_of_mem u hs
          · rw [← Option.some.inj hs]
            exact List.mem_cons_self

/-- **No choice of times that are apart has more.** -/
theorem length_le_thin (hts : ts.Pairwise (· ≤ ·)) (hus : us.Sublist ts)
    (hspaced : us.Pairwise fun s t => c ≤ t - s)
    (hlast : ∀ s ∈ last, ∀ u ∈ us.head?, c ≤ u - s) : us.length ≤ (thin c last ts).length := by
  induction ts generalizing last us with
  | nil =>
    rw [List.sublist_nil.mp hus]
    exact Nat.le_refl 0
  | cons t ts ih =>
    obtain ⟨ht, hts⟩ := List.pairwise_cons.mp hts
    rcases near_or_far c last t with h | h
    · rw [thin_cons_of_near h]
      cases hus with
      | cons _ hus => exact ih hts hus hspaced hlast
      | cons_cons _ hus =>
        -- the choice begins too near
        obtain ⟨s, hs, hlt⟩ := h
        exact absurd (hlast s hs t rfl) (not_le.mpr hlt)
    · rw [thin_cons_of_far h, List.length_cons]
      cases us with
      | nil => exact Nat.zero_le _
      | cons u us =>
        obtain ⟨hu, hspaced⟩ := List.pairwise_cons.mp hspaced
        rw [List.length_cons, Nat.add_le_add_iff_right]
        have htu : t ≤ u := by
          cases hus with
          | cons _ hus => exact ht u (hus.subset List.mem_cons_self)
          | cons_cons _ hus => exact le_rfl
        refine ih hts hus.of_cons_cons hspaced fun s hs v hv => ?_
        rw [← Option.some.inj hs]
        exact (hu v (List.mem_of_head? hv)).trans (sub_le_sub_left htu v)

end Ordered

end Llmops.Lib
