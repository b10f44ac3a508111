import Mathlib

/-!
# Placement

`node_free_vram`, `node_supports` and `place` (`llmops/scheduler.py:20-81`). The JSON of a node's
row is read here as the value it denotes; a row without a capacity or without engines, like one
whose JSON cannot be parsed, is `none`. `place` decides every key by itself (`placeKey`), which is
what lets a fleet be studied one key at a time (`mem_place`).
-/

namespace Llmops.Fleet

/-- One GPU of a node's capacity, in MiB. -/
structure Gpu where
  memoryTotal : Int
  memoryUsed : Int
  deriving DecidableEq, Repr

/-- A row of `list_nodes`, as far as placement reads it. -/
structure NodeRow (N : Type*) where
  nodeId : N
  capacity : Option (List Gpu)
  engines : Option (List String)

variable {N K : Type*}

/-- `node_free_vram`: an unknown capacity counts as 0. -/
def nodeFreeVram (node : NodeRow N) : Int :=
  ((node.capacity.getD []).map fun g => max 0 (g.memoryTotal - g.memoryUsed)).sum

/-- `node_supports`: a node that advertises no engines accepts any. -/
def nodeSupports (node : NodeRow N) (engine : String) : Bool :=
  match node.engines with
  | none => true
  | some engines => engines.contains engine

variable [LinearOrder N]

/-- The sort key of `place`: emptiest first, ties by `node_id`. -/
def emptier (a b : NodeRow N) : Bool :=
  decide (nodeFreeVram b < nodeFreeVram a) ||
    (decide (nodeFreeVram a = nodeFreeVram b) && decide (a.nodeId ≤ b.nodeId))

/-- The node of `place` for one key that is to run: none when no live node supports its engine, or
when it already is on a live node that does. -/
def placeKey (nodes : List (NodeRow N)) (current : Option N) (engine : String) : Option N :=
  let candidates := nodes.filter (nodeSupports · engine)
  if candidates.isEmpty then none
  else if nodes.any fun n => decide (current = some n.nodeId) && nodeSupports n engine then none
  else (candidates.mergeSort emptier).head?.map NodeRow.nodeId

/-- `place`: the assignments to write. -/
def place (desired : List K) (nodes : List (NodeRow N)) (assignments : K → Option N)
    (keyEngines : K → Option String) : List (K × N) :=
  if nodes.isEmpty then []
  else desired.filterMap fun key =>
    (placeKey nodes (assignments key) ((keyEngines key).getD "vllm")).map (key, ·)

/-- What `place` writes for a key depends on that key alone. -/
theorem mem_place {desired : List K} {nodes : List (NodeRow N)} {assignments : K → Option N}
    {keyEngines : K → Option String} {key : K} {n : N} :
    (key, n) ∈ place desired nodes assignments keyEngines ↔ key ∈ desired ∧
      placeKey nodes (assignments key) ((keyEngines key).getD "vllm") = some n := by
  unfold place
  split_ifs with hempty
  · have hnone : placeKey nodes (assignments key) ((keyEngines key).getD "vllm") = none := by
      rw [List.isEmpty_iff.mp hempty]
      rfl
    simp [hnone]
  · simp only [List.mem_filterMap, Option.map_eq_some_iff, Prod.mk.injEq]
    constructor
    · rintro ⟨k, hk, m, hm, rfl, rfl⟩
      exact ⟨hk, hm⟩
    · rintro ⟨hk, hn⟩
      exact ⟨key, hk, n, hn, rfl, rfl⟩

end Llmops.Fleet
