import Llmops.Fleet.Place

/-!
# Placement is sound, minimal and stable

What a placement pass (`llmops/scheduler.py:44-81`) decides, said without the order in which it looks
at nodes and keys: a key is moved exactly when a live node supports its engine and it is on no live node
that does, and it goes to the best of these (`Best`). There is one best node, so that the order of the
list cannot matter, and once a key is there it stays.

* `placeKey_iff`: the decision for one key;
* `place_sound`: the changes of a pass, and of the next one.
-/

namespace Llmops.Fleet

variable {N K : Type*}

/-- Some live node can run the engine. -/
def Supported (nodes : List (NodeRow N)) (engine : String) : Prop :=
  ∃ row ∈ nodes, nodeSupports row engine = true

/-- The key is on a live node that can run the engine. -/
def Settled (nodes : List (NodeRow N)) (current : Option N) (engine : String) : Prop :=
  ∃ row ∈ nodes, current = some row.nodeId ∧ nodeSupports row engine = true

/-- The assignments after the changes are written, one `set_assignment` at a time. -/
def applyChanges [DecidableEq K] (assignments : K → Option N) (changes : List (K × N)) :
    K → Option N :=
  changes.foldl (fun written change => Function.update written change.1 (some change.2)) assignments

section Best

variable [LinearOrder N]

/-- The node that a key goes to: the emptiest of those that support the engine, and of these the one
with the least id. -/
structure Best (nodes : List (NodeRow N)) (engine : String) (row : NodeRow N) : Prop where
  mem : row ∈ nodes
  supports : nodeSupports row engine = true
  least : ∀ other ∈ nodes, nodeSupports other engine = true → emptier row other = true

variable {nodes nodes' : List (NodeRow N)} {engine : String} {current : Option N}
  {a b c row : NodeRow N}

theorem emptier_iff : emptier a b = true ↔ nodeFreeVram b < nodeFreeVram a ∨
    nodeFreeVram a = nodeFreeVram b ∧ a.nodeId ≤ b.nodeId := by
  simp [emptier]

theorem emptier_trans (hab : emptier a b = true) (hbc : emptier b c = true) :
    emptier a c = true := by
  rw [emptier_iff] at hab hbc ⊢
  rcases hab with hab | ⟨hab, hid⟩
  · exact .inl (by omega)
  · rcases hbc with hbc | ⟨hbc, hid'⟩
    · exact .inl (by omega)
    · exact .inr ⟨by omega, hid.trans hid'⟩

theorem emptier_total (a b : NodeRow N) : emptier a b = true ∨ emptier b a = true := by
  rw [emptier_iff, emptier_iff]
  rcases lt_trichotomy (nodeFreeVram a) (nodeFreeVram b) with h | h | h
  · exact .inr (.inl h)
  · rcases le_total a.nodeId b.nodeId with hid | hid
    · exact .inl (.inr ⟨h, hid⟩)
    · exact .inr (.inr ⟨h.symm, hid⟩)
  · exact .inl (.inl h)

/-- Nodes that are each at least as good as the other have the same id. -/
theorem emptier_antisymm (hab : emptier a b = true) (hba : emptier b a = true) :
    a.nodeId = b.nodeId := by
  rw [emptier_iff] at hab hba
  rcases hab with hab | ⟨hab, hid⟩
  · omega
  · rcases hba with hba | ⟨-, hid'⟩
    · omega
    · exact le_antisymm hid hid'

/-- There is one best node. -/
theorem Best.unique (ha : Best nodes engine a) (hb : Best nodes engine b) : a.nodeId = b.nodeId :=
  emptier_antisymm (ha.least b hb.mem hb.supports) (hb.least a ha.mem ha.supports)

/-- A best node has as much free VRAM as any that supports the engine. -/
theorem Best.free (h : Best nodes engine row) {other : NodeRow N} (hmem : other ∈ nodes)
    (hsupports : nodeSupports other engine = true) : nodeFreeVram other ≤ nodeFreeVram row := by
  rcases emptier_iff.mp (h.least other hmem hsupports) with hlt | ⟨heq, -⟩ <;> omega

/-- The order of the list does not matter. -/
theorem Best.perm (h : Best nodes engine row) (hperm : nodes.Perm nodes') : Best nodes' engine row :=
  ⟨hperm.mem_iff.mp h.mem, h.supports, fun other hmem => h.least other (hperm.mem_iff.mpr hmem)⟩

/-- The first of the sorted candidates is best. -/
theorem best_of_head (h : ((nodes.filter (nodeSupports · engine)).mergeSort emptier).head? = some row) :
    Best nodes engine row := by
  have hsorted : ((nodes.filter (nodeSupports · engine)).mergeSort emptier).Pairwise
      fun a b => emptier a b = true :=
    List.pairwise_mergeSort
      (fun a b c (hab : emptier a b = true) (hbc : emptier b c = true) => emptier_trans hab hbc)
      (fun a b => by simpa using emptier_total a b) _
  obtain ⟨hmem, hsupports⟩ := List.mem_filter.mp
    (List.mem_mergeSort.mp (List.mem_of_mem_head? h))
  refine ⟨hmem, hsupports, fun other hother hsupported => ?_⟩
  have hin : other ∈ (nodes.filter (nodeSupports · engine)).mergeSort emptier :=
    List.mem_mergeSort.mpr (List.mem_filter.mpr ⟨hother, hsupported⟩)
  obtain ⟨rest, hrest⟩ := List.head?_eq_some_iff.mp h
  rw [hrest] at hsorted hin
  rcases List.mem_cons.mp hin with rfl | hlater
  · exact emptier_iff.mpr (.inr ⟨rfl, le_rfl⟩)
  · exact (List.pairwise_cons.mp hsorted).1 other hlater

/-- **The decision for one key**: it goes to the best node if it is not settled. -/
theorem placeKey_iff {n : N} : placeKey nodes current engine = some n ↔
    ¬ Settled nodes current engine ∧ ∃ row, Best nodes engine row ∧ row.nodeId = n := by
  have hkeep : (nodes.any fun n => decide (current = some n.nodeId) && nodeSupports n engine) = true ↔
      Settled nodes current engine := by
    simp [Settled]
  unfold placeKey
  dsimp only
  by_cases hempty : (nodes.filter (nodeSupports · engine)).isEmpty = true
  · rw [if_pos hempty]
    refine iff_of_false (by simp) ?_
    rintro ⟨-, row, hbest, -⟩
    have hmem : row ∈ nodes.filter (nodeSupports · engine) :=
      List.mem_filter.mpr ⟨hbest.mem, hbest.supports⟩
    rw [List.isEmpty_iff.mp hempty] at hmem
    exact absurd hmem List.not_mem_nil
  rw [if_neg hempty]
  by_cases hsettled : Settled nodes current engine
  · rw [if_pos (hkeep.mpr hsettled)]
    exact iff_of_false (by simp) fun h => h.1 hsettled
  rw [if_neg (mt hkeep.mp hsettled)]
  constructor
  · intro h
    obtain ⟨row, hrow, rfl⟩ := Option.map_eq_some_iff.mp h
    exact ⟨hsettled, row, best_of_head hrow, rfl⟩
  · rintro ⟨-, row, hbest, rfl⟩
    have hne : (nodes.filter (nodeSupports · engine)).mergeSort emptier ≠ [] := by
      intro hnil
      have hlength := congrArg List.length hnil
      rw [List.length_mergeSort] at hlength
      exact hempty (List.isEmpty_iff.mpr (List.length_eq_zero_iff.mp hlength))
    obtain ⟨first, hfirst⟩ := Option.isSome_iff_exists.mp (List.isSome_head?.mpr hne)
    rw [hfirst, Option.map_some, (best_of_head hfirst).unique hbest]

/-- A supported engine has a best node. -/
theorem exists_best (h : Supported nodes engine) : ∃ row, Best nodes engine row := by
  obtain ⟨row, hmem, hsupports⟩ := h
  have hin : row ∈ (nodes.filter (nodeSupports · engine)).mergeSort emptier :=
    List.mem_mergeSort.mpr (List.mem_filter.mpr ⟨hmem, hsupports⟩)
  obtain ⟨first, hfirst⟩ := Option.isSome_iff_exists.mp
    (List.isSome_head?.mpr (List.ne_nil_of_mem hin))
  exact ⟨first, best_of_head hfirst⟩

end Best

section Pass

variable [LinearOrder N] [DecidableEq K] {desired : List K} {nodes : List (NodeRow N)}
  {assignments : K → Option N} {keyEngines : K → Option String} {key : K}

/-- The engine of a key. -/
def engineFor (keyEngines : K → Option String) (key : K) : String := (keyEngines key).getD "vllm"

/-- **What a placement pass does.** -/
structure Placement (desired : List K) (nodes : List (NodeRow N)) (assignments : K → Option N)
    (keyEngines : K → Option String) : Prop where
  changed : ∀ key, (∃ n, (key, n) ∈ place desired nodes assignments keyEngines) ↔
    key ∈ desired ∧ Supported nodes (engineFor keyEngines key) ∧
      ¬ Settled nodes (assignments key) (engineFor keyEngines key)
  best : ∀ key n, (key, n) ∈ place desired nodes assignments keyEngines →
    ∃ row ∈ nodes, row.nodeId = n ∧ nodeSupports row (engineFor keyEngines key) = true ∧
      ∀ other ∈ nodes, nodeSupports other (engineFor keyEngines key) = true →
        nodeFreeVram other ≤ nodeFreeVram row
  one : ∀ key m n, (key, m) ∈ place desired nodes assignments keyEngines →
    (key, n) ∈ place desired nodes assignments keyEngines → m = n
  stable : place desired nodes
    (applyChanges assignments (place desired nodes assignments keyEngines)) keyEngines = []
  order : ∀ desired' nodes', desired.Perm desired' → nodes.Perm nodes' → ∀ key n,
    (key, n) ∈ place desired' nodes' assignments keyEngines ↔
      (key, n) ∈ place desired nodes assignments keyEngines

omit [DecidableEq K] in
theorem mem_place_iff {n : N} : (key, n) ∈ place desired nodes assignments keyEngines ↔
    key ∈ desired ∧ ¬ Settled nodes (assignments key) (engineFor keyEngines key) ∧
      ∃ row, Best nodes (engineFor keyEngines key) row ∧ row.nodeId = n := by
  rw [mem_place, placeKey_iff, engineFor]

omit [LinearOrder N] in
/-- What the changes say of a key that they name, if they say one thing. -/
theorem applyChanges_of_mem {changes : List (K × N)} {n : N} (hmem : (key, n) ∈ changes)
    (hone : ∀ m, (key, m) ∈ changes → m = n) : applyChanges assignments changes key = some n := by
  induction changes using List.reverseRecOn with
  | nil => exact absurd hmem List.not_mem_nil
  | append_singleton changes last ih =>
    rw [applyChanges, List.foldl_concat]
    by_cases hkey : key = last.1
    · have hlast : last.2 = n := hone last.2 (by simp [hkey])
      rw [hkey, Function.update_self, hlast]
    · rw [Function.update_of_ne hkey]
      have hrest : (key, n) ∈ changes := by
        rcases List.mem_append.mp hmem with hrest | hlast
        · exact hrest
        · exact absurd (congrArg Prod.fst (List.mem_singleton.mp hlast)) hkey
      exact ih hrest fun m hm => hone m (List.mem_append_left _ hm)

omit [LinearOrder N] in
/-- A key that no change names keeps its assignment. -/
theorem applyChanges_of_notMem {changes : List (K × N)} (h : ∀ n, (key, n) ∉ changes) :
    applyChanges assignments changes key = assignments key := by
  induction changes using List.reverseRecOn with
  | nil => rfl
  | append_singleton changes last ih =>
    have hkey : key ≠ last.1 := by
      rintro rfl
      exact h last.2 (by simp)
    rw [applyChanges, List.foldl_concat, Function.update_of_ne hkey]
    exact ih fun n hn => h n (List.mem_append_left _ hn)

/-- **Placement** is sound, minimal, stable and independent of the order. -/
theorem place_sound (desired : List K) (nodes : List (NodeRow N)) (assignments : K → Option N)
    (keyEngines : K → Option String) : Placement desired nodes assignments keyEngines := by
  have hone (key : K) (m n : N) (hm : (key, m) ∈ place desired nodes assignments keyEngines)
      (hn : (key, n) ∈ place desired nodes assignments keyEngines) : m = n := by
    obtain ⟨-, -, a, ha, rfl⟩ := mem_place_iff.mp hm
    obtain ⟨-, -, b, hb, rfl⟩ := mem_place_iff.mp hn
    exact ha.unique hb
  refine ⟨fun key => ⟨?_, ?_⟩, fun key n hn => ?_, hone, ?_, fun desired' nodes' hd hperm key n => ?_⟩
  · rintro ⟨n, hn⟩
    obtain ⟨hkey, hsettled, row, hbest, -⟩ := mem_place_iff.mp hn
    exact ⟨hkey, ⟨row, hbest.mem, hbest.supports⟩, hsettled⟩
  · rintro ⟨hkey, hsupported, hsettled⟩
    obtain ⟨row, hbest⟩ := exists_best hsupported
    exact ⟨row.nodeId, mem_place_iff.mpr ⟨hkey, hsettled, row, hbest, rfl⟩⟩
  · obtain ⟨-, -, row, hbest, rfl⟩ := mem_place_iff.mp hn
    exact ⟨row, hbest.mem, rfl, hbest.supports, fun other => hbest.free⟩
  · refine List.eq_nil_iff_forall_not_mem.mpr fun ⟨key, n⟩ hagain => ?_
    obtain ⟨hkey, hsettled, row, hbest, rfl⟩ := mem_place_iff.mp hagain
    by_cases hfirst : (key, row.nodeId) ∈ place desired nodes assignments keyEngines
    · -- the change put the key on a live node that supports its engine
      rw [applyChanges_of_mem hfirst fun m hm => hone key m _ hm hfirst] at hsettled
      exact hsettled ⟨row, hbest.mem, rfl, hbest.supports⟩
    · have hnone : ∀ m, (key, m) ∉ place desired nodes assignments keyEngines := by
        intro m hm
        obtain ⟨-, -, other, hother, rfl⟩ := mem_place_iff.mp hm
        exact hfirst (hother.unique hbest ▸ hm)
      rw [applyChanges_of_notMem hnone] at hsettled
      exact hfirst (mem_place_iff.mpr ⟨hkey, hsettled, row, hbest, rfl⟩)
  · rw [mem_place_iff, mem_place_iff, hd.mem_iff]
    refine and_congr Iff.rfl (and_congr (not_congr ?_) (exists_congr fun row => and_congr ?_ Iff.rfl))
    · exact exists_congr fun row => and_congr hperm.mem_iff.symm Iff.rfl
    · exact ⟨fun hbest => hbest.perm hperm.symm, fun hbest => hbest.perm hperm⟩

end Pass

end Llmops.Fleet
