import Llmops.Fleet.Greedy
import Llmops.Lib.JsonRead
import Llmops.Lib.Text
import Llmops.Store.Sources

/-!
# From heartbeats to placement

What the scheduler decides by: `NodeAgent._capacity`, `_engines` and `heartbeat_once`
(`llmops/node_agent.py:36-75`), the `nodes` table of the store, and `node_free_vram`, `node_supports`
and `reschedule_once` (`llmops/scheduler.py:20-43, 96-121`) on the rows that `list_nodes` returns. The
inventory of a heartbeat is what `get_gpu_info` returned, nothing where there is no `nvidia-smi`.

* `readRow_row`: a row is read as what the node wrote into it;
* `exists_liveNodes`: the scheduler reads the last heartbeats of the nodes that are alive;
* `placed_by_heartbeats`: where a key goes, said of the heartbeats.
-/

namespace Llmops.Fleet

open Lib Store

/-! ## The node -/

/-- A GPU as `get_gpu_info` reports it. -/
structure GpuInfo where
  index : Int
  name : String
  memoryUsed : Int
  memoryTotal : Int
  gpuUtil : Int

/-- `NodeAgent`, with the settings that it reads. -/
structure NodeAgent (τ : Type) where
  nodeId : String
  hostname : String
  nodeEngines : List String
  nodeApiUrl : String
  nodeTtl : τ

/-- An entry of `slim`. -/
def GpuInfo.slim (g : GpuInfo) : Json :=
  .obj [("index", .int g.index), ("name", .str g.name), ("memory_total", .int g.memoryTotal),
    ("memory_used", .int g.memoryUsed)]

/-- `_capacity`. -/
def capacity (gpus : List GpuInfo) : Option String :=
  if gpus.isEmpty then none else some (dumps true (.arr (gpus.map GpuInfo.slim)))

/-- `_engines`. -/
def NodeAgent.engines {τ : Type} (a : NodeAgent τ) : Option String :=
  if a.nodeEngines.isEmpty then none else some (dumps true (.arr (a.nodeEngines.map .str)))

/-- A heartbeat: the node, its GPUs, and the time. -/
structure Beat (τ : Type) where
  agent : NodeAgent τ
  gpus : List GpuInfo
  now : τ

/-- The call of `heartbeat_once` that registers the node. -/
def Beat.call {τ : Type} (b : Beat τ) : Call τ :=
  .upsertNode b.agent.nodeId (some b.agent.hostname) (capacity b.gpus) b.agent.nodeTtl b.now
    b.agent.engines (truthy (some b.agent.nodeApiUrl))

/-! ## The scheduler -/

/-- `g.get(key, 0)`, of an entry of the capacity; raises for what is no number. -/
def gpuField (d : Dict Json) (key : String) : Option Int :=
  match d.get key with
  | none => some 0
  | some (.int n) => some n
  | _ => none

def readGpu (v : Json) : Option Gpu := do
  let d ← v.asObj
  return ⟨← gpuField d "memory_total", ← gpuField d "memory_used"⟩

/-- The capacity that `node_free_vram` adds up; `none` where it raises. -/
def readCapacity (loads : String → Option Json) (text : Option String) :
    Option (Option (List Gpu)) :=
  match truthy text with
  | none => some none
  | some text =>
    match loads text with
    | none => some none
    | some v => (v.iter.bind fun xs => xs.mapM readGpu).map some

/-- The engines that `node_supports` looks through: a text that is no JSON, or of which nothing is a
member, counts as none. A JSON string, of which every part is a member, is left out. -/
def readEngines (loads : String → Option Json) (text : Option String) :
    Option (Option (List String)) :=
  match truthy text with
  | none => some none
  | some text =>
    match loads text with
    | some (.arr xs) => some (some (xs.filterMap Json.asStr))
    | some (.obj d) => some (some (Dict.keys d))
    | some (.str _) => none
    | _ => some none

/-- A row of `list_nodes` as placement reads it. -/
def readRow {τ : Type} (loads : String → Option Json) (row : Store.NodeRow τ) :
    Option (NodeRow String) := do
  return ⟨row.nodeId, ← readCapacity loads row.capacity, ← readEngines loads row.engines⟩

/-- The nodes of `reschedule_once`. -/
def liveNodes {τ : Type} [LinearOrder τ] [Add τ] (loads : String → Option Json) (t : Tables τ)
    (now : τ) : Option (List (NodeRow String)) :=
  (t.listNodes now).mapM (readRow loads)

/-! ## Heartbeats -/

section Beats

variable {τ : Type}

/-- The row that a heartbeat writes. -/
def Beat.row [Add τ] (b : Beat τ) : Store.NodeRow τ where
  nodeId := b.agent.nodeId
  hostname := some b.agent.hostname
  capacity := capacity b.gpus
  engines := b.agent.engines
  apiUrl := truthy (some b.agent.nodeApiUrl)
  expiresAt := b.now + b.agent.nodeTtl

/-- The rows of `nodes` are written by heartbeats. -/
def beats [LinearOrder τ] [Add τ] : Writer (nodeTable (τ := τ)) (Beat τ) where
  call := Beat.call
  row := Beat.row
  writes_call _ := rfl

/-- What happens to `nodes`. -/
abbrev FleetCall (τ : Type) [LinearOrder τ] [Add τ] := TableCall (nodeTable (τ := τ)) (Beat τ)

/-- The free VRAM that a heartbeat reports. -/
def Beat.free (b : Beat τ) : Int := (b.gpus.map fun g => max 0 (g.memoryTotal - g.memoryUsed)).sum

/-- The node of a heartbeat runs the engine. -/
def Beat.Supports (b : Beat τ) (engine : String) : Prop :=
  b.agent.nodeEngines = [] ∨ engine ∈ b.agent.nodeEngines

end Beats

/-! ## What a row says -/

section Rows

variable {τ : Type} {readFloat : FloatText} {b : Beat τ}

/-- A node by its last heartbeat, for placement. -/
def Beat.node (b : Beat τ) : NodeRow String where
  nodeId := b.agent.nodeId
  capacity := if b.gpus.isEmpty then none else some (b.gpus.map fun g => ⟨g.memoryTotal, g.memoryUsed⟩)
  engines := if b.agent.nodeEngines.isEmpty then none else some b.agent.nodeEngines

theorem readableList_of_forall {xs : List Json} (h : ∀ x ∈ xs, Readable readFloat x) :
    ReadableList readFloat xs := by
  induction xs with
  | nil => trivial
  | cons x xs ih =>
    exact ⟨h x List.mem_cons_self, ih fun y hy => h y (List.mem_cons_of_mem x hy)⟩

theorem readable_slim (g : GpuInfo) : Readable readFloat g.slim :=
  ⟨by simp [Dict.Unique, Dict.keys], by simp only [Readable, ReadableFields, and_self]⟩

theorem readable_capacity (gpus : List GpuInfo) :
    Readable readFloat (.arr (gpus.map GpuInfo.slim)) := by
  refine readableList_of_forall fun x hx => ?_
  obtain ⟨g, -, rfl⟩ := List.mem_map.mp hx
  exact readable_slim g

theorem readable_engines (engines : List String) : Readable readFloat (.arr (engines.map .str)) := by
  refine readableList_of_forall fun x hx => ?_
  obtain ⟨e, -, rfl⟩ := List.mem_map.mp hx
  trivial

theorem dumps_arr_ne {xs : List Json} : dumps true (.arr xs) ≠ "" := by
  intro h
  have hlist := congrArg String.toList h
  rw [toList_dumps_arr] at hlist
  cases hlist

theorem mapM_slim (gpus : List GpuInfo) : (gpus.map GpuInfo.slim).mapM readGpu =
    some (gpus.map fun g => ⟨g.memoryTotal, g.memoryUsed⟩) := by
  induction gpus with
  | nil => rfl
  | cons g gpus ih =>
    have hgpu : readGpu g.slim = some ⟨g.memoryTotal, g.memoryUsed⟩ := rfl
    rw [List.map_cons, List.mapM_cons, hgpu, ih]
    rfl

theorem readCapacity_capacity (gpus : List GpuInfo) :
    readCapacity (loads readFloat) (capacity gpus) =
      some (if gpus.isEmpty then none else some (gpus.map fun g => ⟨g.memoryTotal, g.memoryUsed⟩)) := by
  unfold capacity readCapacity
  by_cases hempty : gpus.isEmpty = true
  · rw [if_pos hempty, if_pos hempty]
    rfl
  · have htext : truthy (some (dumps true (.arr (gpus.map GpuInfo.slim)))) =
        some (dumps true (.arr (gpus.map GpuInfo.slim))) := truthy_eq_some.mpr ⟨rfl, dumps_arr_ne⟩
    rw [if_neg hempty, if_neg hempty, htext]
    simp only [loads_dumps (readable_capacity gpus), Json.iter, Option.bind_some, mapM_slim,
      Option.map_some]

theorem readEngines_engines (a : NodeAgent τ) :
    readEngines (loads readFloat) a.engines =
      some (if a.nodeEngines.isEmpty then none else some a.nodeEngines) := by
  unfold NodeAgent.engines readEngines
  by_cases hempty : a.nodeEngines.isEmpty = true
  · rw [if_pos hempty, if_pos hempty]
    rfl
  · have htext : truthy (some (dumps true (.arr (a.nodeEngines.map .str)))) =
        some (dumps true (.arr (a.nodeEngines.map .str))) := truthy_eq_some.mpr ⟨rfl, dumps_arr_ne⟩
    have hnames : (a.nodeEngines.map Json.str).filterMap Json.asStr = a.nodeEngines := by
      rw [List.filterMap_map]
      exact List.filterMap_some
    rw [if_neg hempty, if_neg hempty, htext]
    simp only [loads_dumps (readable_engines a.nodeEngines), hnames]

/-- **A row** is read as what the node wrote into it. -/
theorem readRow_row [Add τ] (b : Beat τ) : readRow (loads readFloat) b.row = some b.node := by
  unfold readRow Beat.row
  simp only [readCapacity_capacity, readEngines_engines]
  rfl

theorem nodeFreeVram_node (b : Beat τ) : nodeFreeVram b.node = b.free := by
  unfold nodeFreeVram Beat.node Beat.free
  cases hgpus : b.gpus with
  | nil => rfl
  | cons g gpus =>
    simp only [List.isEmpty_cons, Bool.false_eq_true, if_false, Option.getD_some, List.map_map]
    rfl

theorem nodeSupports_node {engine : String} :
    nodeSupports b.node engine = true ↔ b.Supports engine := by
  unfold nodeSupports Beat.node Beat.Supports
  cases hengines : b.agent.nodeEngines with
  | nil => simp
  | cons e engines => simp

end Rows

/-! ## Where a key goes -/

section Placed

variable {τ : Type} [LinearOrder τ] [Add τ] {readFloat : FloatText}
  {calls : List (FleetCall τ)} {now : τ}

/-- What the scheduler reads: the nodes that are alive, as their last heartbeats say. -/
theorem exists_liveNodes (readFloat : FloatText)
    (h : NeverBack (calls.map beats.callOf ++ [.listNodes now])) :
    ∃ nodes, liveNodes (loads readFloat) (tables (calls.map beats.callOf)) now = some nodes ∧
      ∀ node, node ∈ nodes ↔ ∃ n b, beats.Current calls now n b ∧ b.node = node := by
  obtain ⟨bs, hrows, -, hmem⟩ := Writer.exists_sources (W := beats) (h.prunedBy rfl)
  refine ⟨bs.map Beat.node, ?_, fun node => ?_⟩
  · change (nodeTable.select now _).mapM _ = _
    rw [hrows]
    exact Writer.mapM_rows fun b _ => readRow_row b
  · rw [List.mem_map]
    constructor
    · rintro ⟨b, hb, rfl⟩
      exact ⟨_, b, (hmem b).mp hb, rfl⟩
    · rintro ⟨n, b, hb, rfl⟩
      rw [← Writer.key_of_last hb.1] at hb
      exact ⟨b, (hmem b).mpr hb, rfl⟩

/-- **Where a key goes**, said of the heartbeats: a key that is to run is moved exactly if it is on no
node that is alive and runs its engine, and then to the node that of all those that are alive and run
its engine reported the most free VRAM, and among equals to the first by its id. -/
theorem placed_by_heartbeats {K : Type*} {desired : List K} {assignments : K → Option String}
    {keyEngines : K → Option String}
    (h : NeverBack (calls.map beats.callOf ++ [.listNodes now])) :
    ∃ nodes, liveNodes (loads readFloat) (tables (calls.map beats.callOf)) now = some nodes ∧
      ∀ key n, (key, n) ∈ place desired nodes assignments keyEngines ↔
        key ∈ desired ∧
        (∀ m b, assignments key = some m → beats.Current calls now m b →
          ¬ b.Supports (engineFor keyEngines key)) ∧
        ∃ b, beats.Current calls now n b ∧ b.Supports (engineFor keyEngines key) ∧
          ∀ m b', beats.Current calls now m b' → b'.Supports (engineFor keyEngines key) →
            b'.free < b.free ∨ b.free = b'.free ∧ n ≤ m := by
  obtain ⟨nodes, hlive, hmem⟩ := exists_liveNodes readFloat h
  refine ⟨nodes, hlive, fun key n => mem_place_iff.trans (and_congr Iff.rfl (and_congr ?_ ?_))⟩
  · constructor
    · intro hunsettled m b hkey hb hsupports
      refine hunsettled ⟨b.node, (hmem _).mpr ⟨m, b, hb, rfl⟩, ?_, nodeSupports_node.mpr hsupports⟩
      rw [hkey, ← Writer.key_of_last hb.1]
      rfl
    · rintro hnone ⟨node, hnode, hkey, hsupports⟩
      obtain ⟨m, b, hb, rfl⟩ := (hmem node).mp hnode
      refine hnone m b ?_ hb (nodeSupports_node.mp hsupports)
      rw [hkey, ← Writer.key_of_last hb.1]
      rfl
  · constructor
    · rintro ⟨node, hbest, rfl⟩
      obtain ⟨n, b, hb, rfl⟩ := (hmem node).mp hbest.mem
      have hn : b.node.nodeId = n := Writer.key_of_last hb.1
      rw [hn]
      refine ⟨b, hb, nodeSupports_node.mp hbest.supports, fun m b' hb' hsupports => ?_⟩
      have hle := hbest.least b'.node ((hmem _).mpr ⟨m, b', hb', rfl⟩)
        (nodeSupports_node.mpr hsupports)
      have hm : b'.node.nodeId = m := Writer.key_of_last hb'.1
      rw [emptier_iff, nodeFreeVram_node, nodeFreeVram_node, hn, hm] at hle
      exact hle
    · rintro ⟨b, hb, hsupports, hleast⟩
      have hn : b.node.nodeId = n := Writer.key_of_last hb.1
      refine ⟨b.node, ⟨(hmem _).mpr ⟨n, b, hb, rfl⟩, nodeSupports_node.mpr hsupports,
        fun other hother hsupported => ?_⟩, hn⟩
      obtain ⟨m, b', hb', rfl⟩ := (hmem other).mp hother
      have hm : b'.node.nodeId = m := Writer.key_of_last hb'.1
      rw [emptier_iff, nodeFreeVram_node, nodeFreeVram_node, hn, hm]
      exact hleast m b' hb' (nodeSupports_node.mp hsupported)

/-- A heartbeat of a node with one GPU. -/
def oneGpu (node : String) (used now : Int) : FleetCall Int :=
  .write ⟨⟨node, "host", ["vllm"], "", 30⟩, [⟨0, "L40S", used, 46068, 0⟩], now⟩

/-- Two nodes; the second fills up, and the first is not heard of again. -/
def twoNodesBeat : List (FleetCall Int) :=
  [oneGpu "a" 0 0, oneGpu "b" 100 5, .other (.pruneNodes 6) fun _ h => by cases h; rfl,
    oneGpu "b" 46000 25]

theorem placed_by_heartbeats_twoNodes : ∃ nodes,
    liveNodes (loads fun _ => none) (tables (twoNodesBeat.map beats.callOf)) 40 = some nodes ∧
      ∀ key n, (key, n) ∈ place ["M::a"] nodes (fun _ => some "a") (fun _ => none) ↔
        key ∈ ["M::a"] ∧
        (∀ m b, some "a" = some m → beats.Current twoNodesBeat 40 m b →
          ¬ b.Supports (engineFor (fun _ => none) key)) ∧
        ∃ b, beats.Current twoNodesBeat 40 n b ∧ b.Supports (engineFor (fun _ => none) key) ∧
          ∀ m b', beats.Current twoNodesBeat 40 m b' → b'.Supports (engineFor (fun _ => none) key) →
            b'.free < b.free ∨ b.free = b'.free ∧ n ≤ m :=
  placed_by_heartbeats
    (by simp [NeverBack, twoNodesBeat, oneGpu, Writer.callOf, beats, Beat.call, Call.clock])

end Placed

end Llmops.Fleet
