import Llmops.Store.Leases

/-!
# What the rows of a lease table were written for

An agent writes a row for a heartbeat, or for an instance that it publishes, and withdraws the address
of an instance that is no longer ready. Here a history of calls on a table is one of such sources, of
withdrawals, and of calls that neither write nor remove a row of the table.

* `latest_callOf`: what a key was last given is the row of its last source;
* `exists_sources`: a read finds the rows of the last sources that have not lapsed.
-/

namespace Llmops.Store

open Lib

variable {τ ρ β : Type} [LinearOrder τ] [Add τ] {T : LeaseTable τ ρ}

/-- How the rows of a table are written for sources. -/
structure Writer (T : LeaseTable τ ρ) (β : Type) where
  call : β → Call τ
  row : β → ρ
  writes_call : ∀ b, T.writes (call b) = some (.upsert (row b))

/-- What happens to a table: the row of a source is written, that of a key is removed, or there is a
call that writes no row and removes none. -/
inductive TableCall (T : LeaseTable τ ρ) (β : Type) where
  | write (b : β)
  | withdraw (k : String) (c : Call τ) (h : T.writes c = some (.remove k))
  | other (c : Call τ) (h : ∀ w, T.writes c = some w → w.lasts = false)

namespace Writer

variable (W : Writer T β) {calls : List (TableCall T β)} {now : τ} {b : β} {k : String}

/-- The call. -/
def callOf : TableCall T β → Call τ
  | .write b => W.call b
  | .withdraw _ c _ | .other c _ => c

/-- The key of a source. -/
def key (b : β) : String := T.key (W.row b)

/-- The last sources, after one more call. -/
def note (last : String → Option β) : TableCall T β → String → Option β
  | .write b => Function.update last (W.key b) (some b)
  | .withdraw k _ _ => Function.update last k none
  | .other _ _ => last

/-- The last source of each key that was not withdrawn since. -/
def last (calls : List (TableCall T β)) : String → Option β := calls.foldl W.note fun _ => none

/-- The last source of a key, which has not lapsed. -/
def Current (calls : List (TableCall T β)) (now : τ) (k : String) (b : β) : Prop :=
  W.last calls k = some b ∧ now < T.expiresAt (W.row b)

/-- What a table last had for a key, after one more call. -/
theorem latest_concat (T : LeaseTable τ ρ) (cs : List (Call τ)) (c : Call τ) :
    T.latest (cs ++ [c]) = ((T.writes c).map (Lapse.Write.note T.key (T.latest cs))).getD
      (T.latest cs) := by
  unfold LeaseTable.latest Lapse.written
  rw [List.filterMap_append, List.foldl_append]
  cases hc : T.writes c with
  | none =>
    rw [List.filterMap_cons_none hc]
    rfl
  | some w =>
    rw [List.filterMap_cons_some hc]
    rfl

theorem last_concat (calls : List (TableCall T β)) (c : TableCall T β) :
    W.last (calls ++ [c]) = W.note (W.last calls) c := List.foldl_concat W.note _ c calls

variable {W}

theorem key_of_last (h : W.last calls k = some b) : W.key b = k := by
  induction calls using List.reverseRecOn with
  | nil => cases h
  | append_singleton calls c ih =>
    rw [last_concat] at h
    cases c with
    | write b' =>
      by_cases hk : k = W.key b'
      · subst hk
        rw [note, Function.update_self] at h
        rw [Option.some.inj h]
      · rw [note, Function.update_of_ne hk] at h
        exact ih h
    | withdraw k' c hc =>
      by_cases hk : k = k'
      · subst hk
        rw [note, Function.update_self] at h
        cases h
      · rw [note, Function.update_of_ne hk] at h
        exact ih h
    | other c hc => exact ih h

theorem mem_of_last (h : W.last calls k = some b) : .write b ∈ calls := by
  induction calls using List.reverseRecOn with
  | nil => cases h
  | append_singleton calls c ih =>
    rw [last_concat] at h
    cases c with
    | write b' =>
      by_cases hk : k = W.key b'
      · subst hk
        rw [note, Function.update_self] at h
        rw [Option.some.inj h]
        exact List.mem_append_right _ List.mem_cons_self
      · rw [note, Function.update_of_ne hk] at h
        exact List.mem_append_left _ (ih h)
    | withdraw k' c hc =>
      by_cases hk : k = k'
      · subst hk
        rw [note, Function.update_self] at h
        cases h
      · rw [note, Function.update_of_ne hk] at h
        exact List.mem_append_left _ (ih h)
    | other c hc => exact List.mem_append_left _ (ih h)

/-- **What a key was last given** is the row of its last source. -/
theorem latest_callOf : T.latest (calls.map W.callOf) = fun k => (W.last calls k).map W.row := by
  induction calls using List.reverseRecOn with
  | nil => rfl
  | append_singleton calls c ih =>
    rw [List.map_append, List.map_singleton, latest_concat, ih, last_concat]
    cases c with
    | write b =>
      rw [callOf, W.writes_call]
      funext k
      by_cases hk : k = W.key b
      · subst hk
        rw [note, Function.update_self]
        exact Function.update_self (W.key b) (some (W.row b)) fun k => (W.last calls k).map W.row
      · rw [note, Function.update_of_ne hk]
        exact Function.update_of_ne hk (some (W.row b)) fun k => (W.last calls k).map W.row
    | withdraw k' c h =>
      rw [callOf, h]
      funext k
      by_cases hk : k = k'
      · subst hk
        rw [note, Function.update_self]
        exact Function.update_self k none fun k => (W.last calls k).map W.row
      · rw [note, Function.update_of_ne hk]
        exact Function.update_of_ne hk none fun k => (W.last calls k).map W.row
    | other c h =>
      rw [callOf, note]
      cases hc : T.writes c with
      | none => rfl
      | some w =>
        have hlasts := h w hc
        cases w with
        | prune t => rfl
        | upsert row => cases hlasts
        | remove k => cases hlasts

/-- **What a read finds**: the rows of the last sources, those of them that have not lapsed. -/
theorem mem_select (h : PrunedBy now (calls.map W.callOf)) {row : ρ} :
    row ∈ T.select now (tables (calls.map W.callOf)) ↔
      ∃ k b, W.Current calls now k b ∧ W.row b = row := by
  refine ((T.returns_select h).mem row).trans ?_
  rw [latest_callOf]
  constructor
  · rintro ⟨hlast, hlive⟩
    obtain ⟨b, hb, rfl⟩ := Option.map_eq_some_iff.mp hlast
    exact ⟨_, b, ⟨hb, hlive⟩, rfl⟩
  · rintro ⟨k, b, ⟨hb, hlive⟩, rfl⟩
    rw [← key_of_last hb] at hb
    exact ⟨Option.map_eq_some_iff.mpr ⟨b, hb, rfl⟩, hlive⟩

/-- The rows that a read finds have different keys. -/
theorem nodup_key_select (h : PrunedBy now (calls.map W.callOf)) :
    ((T.select now (tables (calls.map W.callOf))).map T.key).Nodup := by
  have hreturns := T.returns_select h
  refine List.Nodup.map_on (fun row hrow row' hrow' hkey => ?_) hreturns.nodup
  have hlast := ((hreturns.mem row).mp hrow).1
  rw [hkey, ((hreturns.mem row').mp hrow').1] at hlast
  exact (Option.some.inj hlast).symm

/-- **The sources of the rows that a read finds**: the current ones, each once. -/
theorem exists_sources (h : PrunedBy now (calls.map W.callOf)) :
    ∃ bs : List β, T.select now (tables (calls.map W.callOf)) = bs.map W.row ∧
      (bs.map W.key).Nodup ∧ ∀ b, b ∈ bs ↔ W.Current calls now (W.key b) b := by
  have hlast : ∀ row ∈ T.select now (tables (calls.map W.callOf)),
      (W.last calls (T.key row)).map W.row = some row := by
    intro row hrow
    obtain ⟨k, b, hb, rfl⟩ := (mem_select h).mp hrow
    have hkey : T.key (W.row b) = k := key_of_last hb.1
    rw [hkey, hb.1]
    rfl
  have hrows : ((T.select now (tables (calls.map W.callOf))).filterMap
      fun row => W.last calls (T.key row)).map W.row =
        T.select now (tables (calls.map W.callOf)) := by
    rw [List.map_filterMap, List.filterMap_congr hlast, List.filterMap_some]
  refine ⟨_, hrows.symm, ?_, fun b => ?_⟩
  · have hkeys := nodup_key_select h
    rw [← hrows, List.map_map] at hkeys
    exact hkeys
  · rw [List.mem_filterMap]
    constructor
    · rintro ⟨row, hrow, hb⟩
      have hrow' := hlast row hrow
      rw [hb] at hrow'
      obtain rfl : W.row b = row := Option.some.inj hrow'
      exact ⟨hb, ((T.returns_select h).mem _).mp hrow |>.2⟩
    · intro hb
      exact ⟨W.row b, (mem_select h).mpr ⟨_, b, hb, rfl⟩, hb.1⟩

/-- Rows that are each read as what their source says. -/
theorem mapM_rows {γ : Type} {read : ρ → Option γ} {g : β → γ} {bs : List β}
    (h : ∀ b ∈ bs, read (W.row b) = some (g b)) : (bs.map W.row).mapM read = some (bs.map g) := by
  rw [mapM_eq_some_iff, List.forall₂_map_left_iff, List.forall₂_map_right_iff]
  exact List.forall₂_same.mpr h

end Writer

end Llmops.Store
