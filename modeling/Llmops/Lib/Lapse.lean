import Mathlib

/-!
# A table of rows that lapse

Every row has a key, of which the table has one row at most, and a time at which it lapses. A read
returns the rows that have not lapsed; a prune deletes those that have. The table is a list in the
order in which a scan meets its rows: an upsert replaces the row of its key where it stands, and a new
row comes last.

`written` is what the table is for: the row that each key was last given, whether or not it lapsed.

* `Shows`: the table against what was written. Every row is the last of its key, and a last row that
  has not lapsed is there;
* `returns_live`: a read returns the last rows that have not lapsed, when no prune was made at a later
  time than the read;
* `returns_live_filter_lasts`: and so does a read of the table that was never pruned.
-/

namespace Llmops.Lib.Lapse

variable {ρ κ τ : Type*} [DecidableEq κ] [LinearOrder τ] (key : ρ → κ) (expiresAt : ρ → τ)

/-! ## The statements -/

section Statements

variable (rows : List ρ)

/-- `INSERT ... ON CONFLICT(key) DO UPDATE`, of every column. -/
def upsert (row : ρ) : List ρ :=
  if key row ∈ rows.map key then rows.map fun r => if key r = key row then row else r
  else rows ++ [row]

/-- `DELETE ... WHERE key = k`. -/
def remove (k : κ) : List ρ := rows.filter fun r => ¬ key r = k

/-- `DELETE ... WHERE expires_at <= now`. -/
def prune (now : τ) : List ρ := rows.filter fun r => ¬ expiresAt r ≤ now

/-- How many rows that deletes. -/
def pruned (now : τ) : Nat := rows.countP fun r => expiresAt r ≤ now

/-- `SELECT ... WHERE expires_at > now`. -/
def live (now : τ) : List ρ := rows.filter fun r => expiresAt r > now

end Statements

/-! ## Histories -/

/-- A write to the table. -/
inductive Write (ρ κ τ : Type*) where
  | upsert (row : ρ)
  | remove (k : κ)
  | prune (now : τ)

namespace Write

/-- The table after a write. -/
def next (rows : List ρ) : Write ρ κ τ → List ρ
  | .upsert row => Lapse.upsert key rows row
  | .remove k => Lapse.remove key rows k
  | .prune now => Lapse.prune expiresAt rows now

/-- Not a prune. -/
def lasts : Write ρ κ τ → Bool
  | .prune _ => false
  | .upsert _ | .remove _ => true

/-- The last rows after a write. A prune writes none. -/
def note (last : κ → Option ρ) : Write ρ κ τ → κ → Option ρ
  | .upsert row => Function.update last (key row) (some row)
  | .remove k => Function.update last k none
  | .prune _ => last

end Write

/-- The table after these writes. -/
def table (writes : List (Write ρ κ τ)) : List ρ := writes.foldl (Write.next key expiresAt) []

/-- The row that each key was last given and not taken again. -/
def written (writes : List (Write ρ κ τ)) : κ → Option ρ :=
  writes.foldl (Write.note key) fun _ => none

variable {key expiresAt} {rows : List ρ} {row r : ρ} {k : κ} {now : τ} {last : κ → Option ρ}
  {writes : List (Write ρ κ τ)}

theorem mem_prune : r ∈ prune expiresAt rows now ↔ r ∈ rows ∧ now < expiresAt r := by
  rw [prune, List.mem_filter, decide_eq_true_eq, not_le]

theorem mem_live : r ∈ live expiresAt rows now ↔ r ∈ rows ∧ now < expiresAt r := by
  rw [live, List.mem_filter, decide_eq_true_eq, gt_iff_lt]

theorem mem_remove : r ∈ remove key rows k ↔ r ∈ rows ∧ key r ≠ k := by
  rw [remove, List.mem_filter, decide_eq_true_eq]

/-- The table has the new row, and of the others those of other keys. -/
theorem mem_upsert : r ∈ upsert key rows row ↔ r = row ∨ r ∈ rows ∧ key r ≠ key row := by
  unfold upsert
  split_ifs with hkey
  · rw [List.mem_map]
    constructor
    · rintro ⟨old, hold, rfl⟩
      by_cases heq : key old = key row
      · exact Or.inl (if_pos heq)
      · rw [if_neg heq]
        exact Or.inr ⟨hold, heq⟩
    · rintro (rfl | ⟨hr, hne⟩)
      · obtain ⟨old, hold, heq⟩ := List.mem_map.mp hkey
        exact ⟨old, hold, if_pos heq⟩
      · exact ⟨r, hr, if_neg hne⟩
  · rw [List.mem_append, List.mem_singleton]
    constructor
    · rintro (hr | rfl)
      · exact Or.inr ⟨hr, fun heq => hkey (heq ▸ List.mem_map_of_mem hr)⟩
      · exact Or.inl rfl
    · rintro (rfl | ⟨hr, -⟩)
      · exact Or.inr rfl
      · exact Or.inl hr

/-- An upsert keeps the keys apart. -/
theorem nodup_upsert (h : (rows.map key).Nodup) : ((upsert key rows row).map key).Nodup := by
  unfold upsert
  split_ifs with hkey
  · have hkeys : (rows.map fun r => if key r = key row then row else r).map key = rows.map key := by
      rw [List.map_map]
      refine List.map_congr_left fun old _ => ?_
      by_cases heq : key old = key row
      · rw [Function.comp_apply, if_pos heq, heq]
      · rw [Function.comp_apply, if_neg heq]
    rw [hkeys]
    exact h
  · rw [List.map_append, List.map_singleton]
    exact List.nodup_append.mpr ⟨h, List.nodup_singleton _, fun k hk l hl heq =>
      hkey (List.mem_singleton.mp hl ▸ heq ▸ hk)⟩

/-! ## What a table shows -/

/-- The table shows the last rows, but for those that lapsed by `now`. -/
structure Shows (key : ρ → κ) (expiresAt : ρ → τ) (now : τ) (rows : List ρ)
    (last : κ → Option ρ) : Prop where
  nodup : (rows.map key).Nodup
  noted : ∀ r ∈ rows, last (key r) = some r
  keyed : ∀ k r, last k = some r → key r = k
  unlapsed : ∀ k r, last k = some r → now < expiresAt r → r ∈ rows

namespace Shows

theorem upsert (h : Shows key expiresAt now rows last) : Shows key expiresAt now
    (upsert key rows row) (Function.update last (key row) (some row)) := by
  refine ⟨nodup_upsert h.nodup, fun r hr => ?_, fun k r hk => ?_, fun k r hk hlive => ?_⟩
  · rcases mem_upsert.mp hr with rfl | ⟨hr, hne⟩
    · exact Function.update_self _ _ _
    · rw [Function.update_of_ne hne]
      exact h.noted r hr
  · by_cases hkey : k = key row
    · rw [hkey, Function.update_self] at hk
      rw [hkey, Option.some.inj hk]
    · rw [Function.update_of_ne hkey] at hk
      exact h.keyed k r hk
  · rw [mem_upsert]
    by_cases hkey : k = key row
    · rw [hkey, Function.update_self] at hk
      exact Or.inl (Option.some.inj hk).symm
    · rw [Function.update_of_ne hkey] at hk
      exact Or.inr ⟨h.unlapsed k r hk hlive, by rw [h.keyed k r hk]; exact hkey⟩

theorem remove (h : Shows key expiresAt now rows last) : Shows key expiresAt now
    (remove key rows k) (Function.update last k none) := by
  have hother : ∀ l r, Function.update last k none l = some r → l ≠ k ∧ last l = some r := by
    intro l r hl
    by_cases hkey : l = k
    · rw [hkey, Function.update_self] at hl
      cases hl
    · rw [Function.update_of_ne hkey] at hl
      exact ⟨hkey, hl⟩
  refine ⟨h.nodup.sublist (List.filter_sublist.map key), fun r hr => ?_,
    fun l r hl => h.keyed l r (hother l r hl).2, fun l r hl hlive => ?_⟩
  · obtain ⟨hr, hne⟩ := mem_remove.mp hr
    rw [Function.update_of_ne hne]
    exact h.noted r hr
  · obtain ⟨hkey, hl⟩ := hother l r hl
    exact mem_remove.mpr ⟨h.unlapsed l r hl hlive, by rw [h.keyed l r hl]; exact hkey⟩

omit [DecidableEq κ] in
/-- A prune deletes rows that lapsed only. -/
theorem prune (h : Shows key expiresAt now rows last) {t : τ} (ht : t ≤ now) :
    Shows key expiresAt now (prune expiresAt rows t) last :=
  ⟨h.nodup.sublist (List.filter_sublist.map key), fun r hr => h.noted r (mem_prune.mp hr).1, h.keyed,
    fun k r hk hlive => mem_prune.mpr ⟨h.unlapsed k r hk hlive, ht.trans_lt hlive⟩⟩

/-- One write, a prune at no later time. -/
theorem next (h : Shows key expiresAt now rows last) {w : Write ρ κ τ}
    (hw : ∀ t, w = .prune t → t ≤ now) :
    Shows key expiresAt now (w.next key expiresAt rows) (w.note key last) := by
  cases w with
  | upsert row => exact h.upsert
  | remove k => exact h.remove
  | prune t => exact h.prune (hw t rfl)

end Shows

/-- **What a table shows after any writes** whose prunes were made at no later time. -/
theorem shows_table (h : ∀ t, .prune t ∈ writes → t ≤ now) :
    Shows key expiresAt now (table key expiresAt writes) (written key writes) := by
  induction writes using List.reverseRecOn with
  | nil => exact ⟨List.nodup_nil, by simp [table], by simp [written], by simp [written]⟩
  | append_singleton writes w ih =>
    have hbefore := ih fun t ht => h t (List.mem_append_left _ ht)
    rw [table, written, List.foldl_concat, List.foldl_concat]
    exact hbefore.next fun t ht => h t (List.mem_append_right _ (List.mem_singleton.mpr ht.symm))

/-- The rows are the last of their keys that have not lapsed, each once. -/
structure Returns (key : ρ → κ) (expiresAt : ρ → τ) (now : τ) (last : κ → Option ρ)
    (rows : List ρ) : Prop where
  nodup : rows.Nodup
  mem : ∀ r, r ∈ rows ↔ last (key r) = some r ∧ now < expiresAt r

omit [DecidableEq κ] in
/-- That fixes them up to their order. -/
theorem Returns.perm {rows' : List ρ} (h : Returns key expiresAt now last rows)
    (h' : Returns key expiresAt now last rows') : rows.Perm rows' :=
  (List.perm_ext_iff_of_nodup h.nodup h'.nodup).mpr fun r => (h.mem r).trans (h'.mem r).symm

/-- **What a read returns.** -/
theorem returns_live (h : ∀ t, .prune t ∈ writes → t ≤ now) :
    Returns key expiresAt now (written key writes)
      (live expiresAt (table key expiresAt writes) now) := by
  have hshows : Shows key expiresAt now (table key expiresAt writes) (written key writes) :=
    shows_table h
  refine ⟨hshows.nodup.of_map.filter _, fun r => ?_⟩
  rw [mem_live]
  exact ⟨fun ⟨hr, hlive⟩ => ⟨hshows.noted r hr, hlive⟩,
    fun ⟨hr, hlive⟩ => ⟨hshows.unlapsed _ r hr hlive, hlive⟩⟩

omit [LinearOrder τ] in
/-- The prunes write nothing. -/
theorem written_filter_lasts : written key (writes.filter Write.lasts) = written key writes := by
  induction writes using List.reverseRecOn with
  | nil => rfl
  | append_singleton writes w ih =>
    unfold written at ih ⊢
    rw [List.filter_append, List.foldl_append, List.foldl_concat, ih]
    cases w with
    | upsert row => rfl
    | remove k => rfl
    | prune t => rfl

/-- **Prunes are invisible**: a read of the table that was never pruned returns the same rows. -/
theorem returns_live_filter_lasts : Returns key expiresAt now (written key writes)
    (live expiresAt (table key expiresAt (writes.filter Write.lasts)) now) := by
  have hnone : ∀ t, .prune t ∈ writes.filter Write.lasts → t ≤ now := fun t ht =>
    absurd (List.mem_filter.mp ht).2 Bool.false_ne_true
  have hreturns : Returns key expiresAt now (written key (writes.filter Write.lasts))
      (live expiresAt (table key expiresAt (writes.filter Write.lasts)) now) := returns_live hnone
  rwa [written_filter_lasts] at hreturns

end Llmops.Lib.Lapse
