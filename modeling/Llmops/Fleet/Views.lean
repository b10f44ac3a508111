import Llmops.Fleet.Heartbeat
import Llmops.Node.Sections

/-!
# The fleet as every replica shows it

`ModelInstance.observed_dict` (`llmops/instance.py:88-109`), what `_backfill_node_state` publishes of
it (`llmops/reconciler.py:241-249`), `fleet_views` (`llmops/manager.py:350-381`), `ModelView`
(`api/schemas.py:12-33`) and `list_models`, `get_model` (`api/models.py:56-62, 169-181`). The floats of
a view are read as the parameter `readFloat` says; the coercions by which `ModelView` would take a
value of another type are left out, and so are views whose `key` is no string.

* `observed_row`: a published row is read as the view that the agent made;
* `get_fleetViews`: a key has its last published view, else that of the local registry;
* `fleet_as_published`: the answer of `/models`, said of the publications and of what was asked for.
-/

namespace Llmops

/-- `ModelKind.value`. -/
def ModelKind.value : ModelKind → String
  | .llm => "llm"
  | .embedding => "embedding"

/-- `Desired.value`. -/
def Desired.value : Desired → String
  | .running => "running"
  | .asleep => "asleep"
  | .stopped => "stopped"

/-- `ModelKind(text)`. -/
def ModelKind.ofValue (text : String) : Option ModelKind :=
  [.llm, .embedding].find? (·.value = text)

/-- `ModelState(text)`. -/
def ModelState.ofValue (text : String) : Option ModelState :=
  [.stopped, .starting, .ready, .sleeping, .failed, .stopping].find? (·.value = text)

/-- `Desired(text)`. -/
def Desired.ofValue (text : String) : Option Desired :=
  [.running, .asleep, .stopped].find? (·.value = text)

@[simp] theorem ModelKind.ofValue_value (k : ModelKind) : ofValue k.value = some k := by
  cases k <;> decide

@[simp] theorem ModelState.ofValue_value (s : ModelState) : ofValue s.value = some s := by
  cases s <;> decide

@[simp] theorem Desired.ofValue_value (d : Desired) : ofValue d.value = some d := by
  cases d <;> decide

end Llmops

namespace Llmops.Fleet

open Lib Store

/-! ## The views -/

/-- The fields of a `ModelInstance` that are shown, with its floats as they are printed. -/
structure Observed where
  key : String
  kind : ModelKind
  engine : String
  modelTag : Option String
  host : String
  port : Int
  state : ModelState
  desired : Desired
  managed : Bool
  pid : Option Int
  lastError : Option String
  startedAt : Option PyFloat
  readyAt : Option PyFloat
  updatedAt : PyFloat
  restartCount : Int
  deriving DecidableEq

/-- `observed_dict`. -/
def Observed.observedDict (i : Observed) : Dict Json :=
  [("key", .str i.key),
    ("kind", .str i.kind.value),
    ("engine", .str i.engine),
    ("model_tag", .ofOption .str i.modelTag),
    ("host", .str i.host),
    ("port", .int i.port),
    ("state", .str i.state.value),
    ("desired", .str i.desired.value),
    ("managed", .bool i.managed),
    ("pid", .ofOption .int i.pid),
    ("last_error", .ofOption .str i.lastError),
    ("started_at", .ofOption .float i.startedAt),
    ("ready_at", .ofOption .float i.readyAt),
    ("updated_at", .float i.updatedAt),
    ("restart_count", .int i.restartCount)]

/-- `ModelView`. -/
structure ModelView extends Observed where
  nodeId : Option String
  deriving DecidableEq

/-- The view of an instance, under the node that runs it. -/
def ModelView.dict (v : ModelView) : Dict Json :=
  v.observedDict.set "node_id" (.ofOption .str v.nodeId)

/-- An integer, which `True` is not. -/
def asInt : Json → Option Int
  | .int n => some n
  | _ => none

def asBool : Json → Option Bool
  | .bool b => some b
  | _ => none

def asFloat : Json → Option PyFloat
  | .float x => some x
  | _ => none

/-- A field of `ModelView` that may be `None`, which it is by default. -/
def optional {α : Type} (read : Json → Option α) (d : Dict Json) (field : String) :
    Option (Option α) :=
  match d.get field with
  | none | some .null => some none
  | some v => (read v).map some

/-- A field with a default. -/
def defaulted {α : Type} (read : Json → Option α) (d : Dict Json) (field : String) (default : α) :
    Option α :=
  match d.get field with
  | none => some default
  | some v => read v

/-- `ModelView(**v)`; `none` where it raises. -/
def ModelView.ofDict (d : Dict Json) : Option ModelView := do
  return {
    key := ← (d.get "key").bind Json.asStr
    kind := ← ((d.get "kind").bind Json.asStr).bind ModelKind.ofValue
    engine := ← defaulted Json.asStr d "engine" "vllm"
    modelTag := ← optional Json.asStr d "model_tag"
    host := ← (d.get "host").bind Json.asStr
    port := ← (d.get "port").bind asInt
    state := ← ((d.get "state").bind Json.asStr).bind ModelState.ofValue
    desired := ← ((d.get "desired").bind Json.asStr).bind Desired.ofValue
    managed := ← (d.get "managed").bind asBool
    pid := ← optional asInt d "pid"
    lastError := ← optional Json.asStr d "last_error"
    startedAt := ← optional asFloat d "started_at"
    readyAt := ← optional asFloat d "ready_at"
    updatedAt := ← (d.get "updated_at").bind asFloat
    restartCount := ← defaulted asInt d "restart_count" 0
    nodeId := ← optional Json.asStr d "node_id" }

theorem optional_ofOption {α : Type} {read : Json → Option α} {f : α → Json} {d : Dict Json}
    {field : String} {x : Option α} (hget : d.get field = some (.ofOption f x))
    (hread : ∀ a, read (f a) = some a) (hnull : read .null = none) :
    optional read d field = some x := by
  unfold optional
  rw [hget]
  cases x with
  | none => rfl
  | some a =>
    rw [Json.ofOption]
    split
    · rename_i h
      cases h
    · rename_i h
      have hnone := hread a
      rw [Option.some.inj h, hnull] at hnone
      cases hnone
    · rename_i v _ h
      rw [← Option.some.inj h, hread]
      rfl

/-- **A view is read back** by `ModelView`. -/
theorem ofDict_dict (v : ModelView) : ModelView.ofDict v.dict = some v := by
  have hmodelTag : optional Json.asStr v.dict "model_tag" = some v.modelTag :=
    optional_ofOption (f := .str) rfl (fun _ => rfl) rfl
  have hpid : optional asInt v.dict "pid" = some v.pid :=
    optional_ofOption (f := .int) rfl (fun _ => rfl) rfl
  have hlastError : optional Json.asStr v.dict "last_error" = some v.lastError :=
    optional_ofOption (f := .str) rfl (fun _ => rfl) rfl
  have hstartedAt : optional asFloat v.dict "started_at" = some v.startedAt :=
    optional_ofOption (f := .float) rfl (fun _ => rfl) rfl
  have hreadyAt : optional asFloat v.dict "ready_at" = some v.readyAt :=
    optional_ofOption (f := .float) rfl (fun _ => rfl) rfl
  have hnodeId : optional Json.asStr v.dict "node_id" = some v.nodeId :=
    optional_ofOption (f := .str) rfl (fun _ => rfl) rfl
  have hkind : ((v.dict.get "kind").bind Json.asStr).bind ModelKind.ofValue = some v.kind :=
    ModelKind.ofValue_value v.kind
  have hstate : ((v.dict.get "state").bind Json.asStr).bind ModelState.ofValue = some v.state :=
    ModelState.ofValue_value v.state
  have hdesired : ((v.dict.get "desired").bind Json.asStr).bind Desired.ofValue = some v.desired :=
    Desired.ofValue_value v.desired
  unfold ModelView.ofDict
  rw [hmodelTag, hpid, hlastError, hstartedAt, hreadyAt, hnodeId, hkind, hstate, hdesired]
  rfl

/-! ## Publications -/

/-- An instance that `_backfill_node_state` publishes, by which replica and when. -/
structure Publication (τ : Type) where
  inst : Observed
  instanceId : String
  liveTtl : τ
  now : τ

section Publications

variable {τ : Type}

/-- The call that publishes it. -/
def Publication.call (p : Publication τ) : Call τ :=
  .upsertInstanceObserved p.inst.key (truthy (some p.instanceId)) (some p.inst.state.value)
    (dumps true (.obj p.inst.observedDict)) p.liveTtl p.now

/-- The row that this writes. -/
def Publication.row [Add τ] (p : Publication τ) : InstanceObserved τ where
  key := p.inst.key
  nodeId := truthy (some p.instanceId)
  state := some p.inst.state.value
  view := dumps true (.obj p.inst.observedDict)
  expiresAt := p.now + p.liveTtl

/-- What is to be shown of it. -/
def Publication.view (p : Publication τ) : ModelView :=
  { p.inst with nodeId := truthy (some p.instanceId) }

/-- The rows of `instance_observed` are written by publications. -/
def publications [LinearOrder τ] [Add τ] : Writer (observedTable (τ := τ)) (Publication τ) where
  call := Publication.call
  row := Publication.row
  writes_call _ := rfl

/-- What happens to `instance_observed`. -/
abbrev ViewCall (τ : Type) [LinearOrder τ] [Add τ] :=
  TableCall (observedTable (τ := τ)) (Publication τ)

/-- The floats of an instance are read as themselves. -/
structure Observed.FloatsRead (readFloat : FloatText) (i : Observed) : Prop where
  startedAt : ∀ x ∈ i.startedAt, FloatReads readFloat x
  readyAt : ∀ x ∈ i.readyAt, FloatReads readFloat x
  updatedAt : FloatReads readFloat i.updatedAt

variable {readFloat : FloatText}

theorem readable_ofOption {α : Type} {f : α → Json} {x : Option α}
    (h : ∀ a ∈ x, Readable readFloat (f a)) : Readable readFloat (.ofOption f x) := by
  cases x with
  | none => trivial
  | some a => exact h a rfl

theorem readable_observedDict {i : Observed} (h : i.FloatsRead readFloat) :
    Readable readFloat (.obj i.observedDict) := by
  have hstr : ∀ x : Option String, Readable readFloat (.ofOption .str x) := fun x =>
    readable_ofOption fun a _ => trivial
  have hint : ∀ x : Option Int, Readable readFloat (.ofOption .int x) := fun x =>
    readable_ofOption fun a _ => trivial
  have hstarted : Readable readFloat (.ofOption .float i.startedAt) := readable_ofOption h.startedAt
  have hready : Readable readFloat (.ofOption .float i.readyAt) := readable_ofOption h.readyAt
  have hupdated : Readable readFloat (.float i.updatedAt) := h.updatedAt
  refine ⟨by simp [Dict.Unique, Dict.keys, Observed.observedDict], ?_⟩
  exact ⟨trivial, trivial, trivial, hstr _, trivial, trivial, trivial, trivial, trivial, hint _,
    hstr _, hstarted, hready, hupdated, trivial, trivial⟩

/-- **A published row** is read as the view that the agent made of the instance, under its name. -/
theorem observed_row [Add τ] {p : Publication τ} (h : p.inst.FloatsRead readFloat) :
    p.row.observed (loads readFloat) = some p.view.dict := by
  unfold InstanceObserved.observed Publication.row
  rw [loads_dumps (readable_observedDict h)]
  rfl

end Publications

/-! ## What was asked for -/

/-- A call on `instance_desired`. The time of the write, which is not read here, is left out. -/
inductive Intent where
  | set (key : String) (desired : Desired)
  | delete (key : String)

/-- `set_instance_desired`, `delete_instance_desired`. -/
def Intent.next (rows : Dict Desired) : Intent → Dict Desired
  | .set key desired => rows.set key desired
  | .delete key => rows.pop key

/-- The table after these calls. -/
def instanceDesired (intents : List Intent) : Dict Desired := intents.foldl Intent.next []

/-- `list_instance_desired`. -/
def listInstanceDesired (intents : List Intent) : Dict String :=
  (instanceDesired intents).map fun row => (row.1, row.2.value)

/-- What is asked for, after one more call. -/
def Intent.note (last : String → Option Desired) : Intent → String → Option Desired
  | .set key desired => Function.update last key (some desired)
  | .delete key => Function.update last key none

/-- The last thing that was asked of each key. -/
def asked (intents : List Intent) : String → Option Desired :=
  intents.foldl Intent.note fun _ => none

/-- A view with what was asked for in the place of what its node knew of it. -/
def ModelView.wanted (v : ModelView) (desired : Option Desired) : ModelView :=
  { v with desired := desired.getD v.desired }

theorem unique_instanceDesired (intents : List Intent) : (instanceDesired intents).Unique := by
  induction intents using List.reverseRecOn with
  | nil => exact List.nodup_nil
  | append_singleton intents c ih =>
    rw [instanceDesired, List.foldl_concat]
    cases c with
    | set key desired => exact ih.set
    | delete key => exact ih.pop

theorem get_instanceDesired (intents : List Intent) (k : String) :
    (instanceDesired intents).get k = asked intents k := by
  induction intents using List.reverseRecOn with
  | nil => rfl
  | append_singleton intents c ih =>
    rw [instanceDesired, asked, List.foldl_concat, List.foldl_concat, ← instanceDesired, ← asked]
    cases c with
    | set key desired =>
      by_cases hk : k = key
      · rw [hk, Intent.next, Dict.get_set_self, Intent.note, Function.update_self]
      · rw [Intent.next, Dict.get_set_ne hk, Intent.note, Function.update_of_ne hk, ih]
    | delete key =>
      by_cases hk : k = key
      · rw [hk, Intent.next, Dict.get_pop_self, Intent.note, Function.update_self]
      · rw [Intent.next, Dict.get_pop_ne hk, Intent.note, Function.update_of_ne hk, ih]

/-! ## `fleet_views` -/

/-- What `fleet_views` reads of the store; nothing where the read raises. -/
structure StoreReads where
  observed : Option (List (Dict Json))
  desired : Option (Dict String)

/-- `base`, of the local registry. -/
def localViews (nodeId : String) (instances : List Observed) : Dict (Dict Json) :=
  instances.foldl
    (fun base i => base.set i.key (i.observedDict.set "node_id" (.str nodeId))) []

/-- `base[v["key"]] = v`. A view without a key raises, which leaves it at the views before. -/
def layerViews : Dict (Dict Json) → List (Dict Json) → Dict (Dict Json)
  | base, [] => base
  | base, v :: vs =>
    match (v.get "key").bind Json.asStr with
    | some key => layerViews (base.set key v) vs
    | none => base

/-- `base[key]["desired"] = want`, if there is the key. -/
def setDesired (base : Dict (Dict Json)) (row : String × String) : Dict (Dict Json) :=
  match base.get row.1 with
  | some v => base.set row.1 (v.set "desired" (.str row.2))
  | none => base

/-- The same of all keys. -/
def overlayDesired (base : Dict (Dict Json)) (desired : Dict String) : Dict (Dict Json) :=
  desired.foldl setDesired base

/-- `fleet_views`, with what it reads of the store if it prefers the store. -/
def fleetViews (nodeId : String) (instances : List Observed) (store : Option StoreReads) :
    List (Dict Json) :=
  let base := localViews nodeId instances
  let base := match store with
    | none => base
    | some reads =>
      overlayDesired (layerViews base (reads.observed.getD [])) (reads.desired.getD [])
  base.map Prod.snd

/-- `list_models`; `none` where it raises. -/
def listModels (nodeId : String) (instances : List Observed) (store : Option StoreReads) :
    Option (List ModelView) :=
  (fleetViews nodeId instances store).mapM ModelView.ofDict

/-- `get_model`: `none` for the 404, and an inner `none` where it raises. -/
def getModel (nodeId : String) (instances : List Observed) (store : Option StoreReads)
    (key : String) : Option (Option ModelView) :=
  let views := if store.isSome then fleetViews nodeId instances store else []
  match views.find? fun v => (v.get "key").bind Json.asStr = some key with
  | some v => some (ModelView.ofDict v)
  | none => (instances.find? (·.key = key)).map fun i => some { i with nodeId := none }

/-- What `registry.snapshot()` returns: the values of a dictionary by their keys. -/
structure Snapshot where
  instances : List Observed
  nodup : (instances.map Observed.key).Nodup

/-- An instance as the local registry has it. -/
def Observed.local (nodeId : String) (i : Observed) : ModelView := { i with nodeId := some nodeId }

/-! ## What they show -/

section Shown

variable {τ : Type} [LinearOrder τ] [Add τ] {readFloat : FloatText} {calls : List (ViewCall τ)}
  {now : τ} {snapshot : Snapshot} {nodeId : String} {base : Dict (Dict Json)}

/-- What is known of an instance: its last publication, unless that has lapsed, and else what the
local registry has. -/
inductive Known (calls : List (ViewCall τ)) (now : τ) (snapshot : Snapshot) (nodeId : String) :
    ModelView → Prop
  | published {p : Publication τ} (h : publications.Current calls now p.inst.key p) :
    Known calls now snapshot nodeId p.view
  | registered {i : Observed} (h : ∀ p, ¬ publications.Current calls now i.key p)
    (hi : i ∈ snapshot.instances) : Known calls now snapshot nodeId (i.local nodeId)

theorem localViews_eq (snapshot : Snapshot) (nodeId : String) : localViews nodeId snapshot.instances =
    snapshot.instances.map fun i => (i.key, (i.local nodeId).dict) := by
  have hupdate : localViews nodeId snapshot.instances =
      Dict.update [] (snapshot.instances.map fun i => (i.key, (i.local nodeId).dict)) := by
    unfold localViews Dict.update
    rw [List.foldl_map]
    rfl
  rw [hupdate, Dict.update_eq_append]
  · exact List.nil_append _
  · unfold Dict.Unique Dict.keys
    rw [List.map_map]
    exact snapshot.nodup
  · exact fun k _ => List.not_mem_nil

theorem layerViews_dict (base : Dict (Dict Json)) (vs : List ModelView) :
    layerViews base (vs.map ModelView.dict) = base.update (vs.map fun v => (v.key, v.dict)) := by
  induction vs generalizing base with
  | nil => rfl
  | cons v vs ih =>
    have hkey : (v.dict.get "key").bind Json.asStr = some v.key := rfl
    rw [List.map_cons, layerViews, hkey]
    exact ih _

theorem unique_overlayDesired {desired : Dict String} (h : base.Unique) :
    (overlayDesired base desired).Unique := by
  induction desired generalizing base with
  | nil => exact h
  | cons row desired ih =>
    refine ih ?_
    unfold setDesired
    split
    · exact h.set
    · exact h

theorem get_setDesired (row : String × String) (k : String) : (setDesired base row).get k =
    (base.get k).map fun v => if k = row.1 then v.set "desired" (.str row.2) else v := by
  unfold setDesired
  by_cases hk : k = row.1
  · cases hget : base.get row.1 with
    | none => simp only [hk, hget, Option.map_none]
    | some v => simp only [hk, hget, Dict.get_set_self, Option.map_some, if_true]
  · simp only [if_neg hk, Option.map_id']
    split
    · exact Dict.get_set_ne hk
    · rfl

theorem get_overlayDesired {desired : Dict String} (h : desired.Unique) (k : String) :
    (overlayDesired base desired).get k = (base.get k).map fun v =>
      (desired.get k).elim v fun want => v.set "desired" (.str want) := by
  induction desired generalizing base with
  | nil =>
    change base.get k = (base.get k).map fun v => v
    exact Option.map_id'.symm
  | cons row desired ih =>
    obtain ⟨hrow, hdesired⟩ := List.nodup_cons.mp h
    rw [show overlayDesired base (row :: desired) = overlayDesired (setDesired base row) desired
      from rfl, ih hdesired, get_setDesired, Option.map_map, Dict.get_cons]
    by_cases hk : k = row.1
    · have hnone : Dict.get desired k = none := Dict.get_eq_none_iff.mpr (hk ▸ hrow)
      simp only [if_pos hk, hnone]
      rfl
    · simp only [if_neg hk]
      rfl

theorem dict_wanted (v : ModelView) (desired : Option Desired) :
    (desired.map Desired.value).elim v.dict (fun want => v.dict.set "desired" (.str want)) =
      (v.wanted desired).dict := by
  cases desired <;> rfl

theorem get_listInstanceDesired (intents : List Intent) (k : String) :
    (listInstanceDesired intents).get k = (asked intents k).map Desired.value := by
  rw [← get_instanceDesired]
  unfold listInstanceDesired
  induction instanceDesired intents with
  | nil => rfl
  | cons row rows ih =>
    rw [List.map_cons, Dict.get_cons, Dict.get_cons, ih]
    split_ifs <;> rfl

theorem unique_listInstanceDesired (intents : List Intent) : (listInstanceDesired intents).Unique := by
  unfold Dict.Unique Dict.keys listInstanceDesired
  rw [List.map_map]
  exact unique_instanceDesired intents

/-- A dictionary of things by their keys. -/
theorem get_pairs {α V : Type} {xs : List α} {f : α → String} {g : α → V} (h : (xs.map f).Nodup)
    {k : String} {d : V} :
    Dict.get (xs.map fun x => (f x, g x)) k = some d ↔ ∃ x ∈ xs, f x = k ∧ g x = d := by
  have hunique : Dict.Unique (xs.map fun x => (f x, g x)) := by
    unfold Dict.Unique Dict.keys
    rw [List.map_map]
    exact h
  constructor
  · intro hget
    obtain ⟨x, hx, heq⟩ := List.mem_map.mp (Dict.mem_of_get hget)
    exact ⟨x, hx, congrArg Prod.fst heq, congrArg Prod.snd heq⟩
  · rintro ⟨x, hx, rfl, rfl⟩
    exact Dict.get_of_mem hunique (List.mem_map.mpr ⟨x, hx, rfl⟩)

/-- What `list_instance_observed` returns: the current publications. -/
theorem exists_stored (h : PrunedBy now (calls.map publications.callOf))
    (hread : ∀ p, .write p ∈ calls → p.inst.FloatsRead readFloat) :
    ∃ bs : List (Publication τ),
      (tables (calls.map publications.callOf)).listInstanceObserved (loads readFloat) now =
        some (bs.map fun p => p.view.dict) ∧
      (bs.map fun p => p.inst.key).Nodup ∧
      ∀ p, p ∈ bs ↔ publications.Current calls now p.inst.key p := by
  obtain ⟨bs, hrows, hnodup, hmem⟩ := Writer.exists_sources (W := publications) h
  refine ⟨bs, ?_, hnodup, hmem⟩
  change (observedTable.select now _).mapM _ = _
  rw [hrows]
  exact Writer.mapM_rows fun p hp => observed_row (hread p (Writer.mem_of_last ((hmem p).mp hp).1))

/-- **A key has** its last published view, unless that has lapsed, and else that of the registry. -/
theorem get_layered {bs : List (Publication τ)} (hnodup : (bs.map fun p => p.inst.key).Nodup)
    (hmem : ∀ p, p ∈ bs ↔ publications.Current calls now p.inst.key p) {k : String}
    {d : Dict Json} :
    (layerViews (localViews nodeId snapshot.instances) (bs.map fun p => p.view.dict)).get k = some d ↔
      ∃ v, Known calls now snapshot nodeId v ∧ v.key = k ∧ v.dict = d := by
  have hlayer : layerViews (localViews nodeId snapshot.instances) (bs.map fun p => p.view.dict) =
      (localViews nodeId snapshot.instances).update
        (bs.map fun p => (p.inst.key, p.view.dict)) := by
    have hviews := layerViews_dict (localViews nodeId snapshot.instances) (bs.map Publication.view)
    rw [List.map_map, List.map_map] at hviews
    exact hviews
  have hunique : Dict.Unique (bs.map fun p => (p.inst.key, p.view.dict)) := by
    unfold Dict.Unique Dict.keys
    rw [List.map_map]
    exact hnodup
  have hnone : Dict.get (bs.map fun p => (p.inst.key, p.view.dict)) k = none ↔
      ∀ p, ¬ publications.Current calls now k p := by
    rw [Option.eq_none_iff_forall_ne_some]
    constructor
    · intro hno p hp
      have hkey : p.inst.key = k := Writer.key_of_last hp.1
      exact hno _ ((get_pairs hnodup).mpr ⟨p, (hmem p).mpr (hkey ▸ hp), hkey, rfl⟩)
    · intro hno d hd
      obtain ⟨p, hp, hkey, -⟩ := (get_pairs hnodup).mp hd
      exact hno p (hkey ▸ (hmem p).mp hp)
  rw [hlayer, Dict.get_update hunique, Option.or_eq_some_iff, hnone, localViews_eq,
    get_pairs hnodup, get_pairs snapshot.nodup]
  constructor
  · rintro (⟨p, hp, hkey, hd⟩ | ⟨hno, i, hi, hkey, hd⟩)
    · exact ⟨p.view, .published ((hmem p).mp hp), hkey, hd⟩
    · exact ⟨i.local nodeId, .registered (hkey ▸ hno) hi, hkey, hd⟩
  · rintro ⟨v, hv, rfl, rfl⟩
    cases hv with
    | @published p hp => exact .inl ⟨p, (hmem p).mpr hp, rfl, rfl⟩
    | @registered i hno hi => exact .inr ⟨hno, i, hi, rfl, rfl⟩

theorem unique_layerViews (nodeId : String) (snapshot : Snapshot) (vs : List ModelView) :
    (layerViews (localViews nodeId snapshot.instances) (vs.map ModelView.dict)).Unique := by
  rw [layerViews_dict, localViews_eq]
  refine Dict.Unique.update ?_
  unfold Dict.Unique Dict.keys
  rw [List.map_map]
  exact snapshot.nodup

/-- Something is known of every instance of the registry. -/
theorem exists_known (calls : List (ViewCall τ)) (now : τ) (nodeId : String) {i : Observed}
    (hi : i ∈ snapshot.instances) : ∃ v, Known calls now snapshot nodeId v ∧ v.key = i.key := by
  by_cases hp : ∃ p, publications.Current calls now i.key p
  · obtain ⟨p, hp⟩ := hp
    have hkey : p.inst.key = i.key := Writer.key_of_last hp.1
    exact ⟨p.view, .published (hkey ▸ hp), hkey⟩
  · exact ⟨i.local nodeId, .registered (fun p h => hp ⟨p, h⟩) hi, rfl⟩

/-- `v.get("key") == key`, of views. -/
theorem find_dict (views : List ModelView) (key : String) :
    ((views.map ModelView.dict).find? fun v => (v.get "key").bind Json.asStr = some key) =
      (views.find? (·.key = key)).map ModelView.dict := by
  have hsame : ((fun d : Dict Json => decide ((d.get "key").bind Json.asStr = some key)) ∘
      ModelView.dict) = fun v => decide (v.key = key) := by
    funext v
    exact decide_eq_decide.mpr Option.some_inj
  rw [List.find?_map, hsame]

/-- The dictionaries of `fleet_views` are those of views with different keys. -/
theorem exists_views (nodeId : String) (snapshot : Snapshot) {bs : List (Publication τ)}
    (intents : List Intent)
    (hnodup : (bs.map fun p => p.inst.key).Nodup)
    (hmem : ∀ p, p ∈ bs ↔ publications.Current calls now p.inst.key p) :
    ∃ views : List ModelView,
      fleetViews nodeId snapshot.instances (some ⟨some (bs.map fun p => p.view.dict),
        some (listInstanceDesired intents)⟩) = views.map ModelView.dict ∧
      (views.map (·.key)).Nodup ∧
      ∀ v, v ∈ views ↔
        ∃ v', Known calls now snapshot nodeId v' ∧ v = v'.wanted (asked intents v'.key) := by
  set layered := layerViews (localViews nodeId snapshot.instances) (bs.map fun p => p.view.dict)
    with hlayered
  set final := overlayDesired layered (listInstanceDesired intents) with hfinal
  have hunique : layered.Unique := by
    have hlayers := unique_layerViews nodeId snapshot (bs.map Publication.view)
    rw [List.map_map] at hlayers
    exact hlayers
  have hget : ∀ k d, final.get k = some d ↔ ∃ v', Known calls now snapshot nodeId v' ∧ v'.key = k ∧
      (v'.wanted (asked intents k)).dict = d := by
    intro k d
    rw [hfinal, get_overlayDesired (unique_listInstanceDesired intents), Option.map_eq_some_iff,
      get_listInstanceDesired]
    constructor
    · rintro ⟨d, hd, rfl⟩
      obtain ⟨v', hv', hkey, rfl⟩ := (get_layered hnodup hmem).mp hd
      exact ⟨v', hv', hkey, (dict_wanted v' _).symm⟩
    · rintro ⟨v', hv', hkey, rfl⟩
      exact ⟨v'.dict, (get_layered hnodup hmem).mpr ⟨v', hv', hkey, rfl⟩, dict_wanted v' _⟩
  have hfinalUnique : final.Unique := unique_overlayDesired hunique
  have hrange : final ∈ Set.range (List.map fun v : ModelView => (v.key, v.dict)) := by
    rw [Set.range_list_map]
    rintro ⟨k, d⟩ hp
    obtain ⟨v', -, rfl, rfl⟩ := (hget k d).mp (Dict.get_of_mem hfinalUnique hp)
    exact ⟨v'.wanted (asked intents v'.key), rfl⟩
  obtain ⟨views, hviews⟩ := hrange
  have hkeys : (views.map (·.key)).Nodup := by
    have hnodup := hfinalUnique
    unfold Dict.Unique Dict.keys at hnodup
    rw [← hviews, List.map_map] at hnodup
    exact hnodup
  refine ⟨views, ?_, hkeys, fun v => ?_⟩
  · change final.map Prod.snd = _
    rw [← hviews, List.map_map]
    rfl
  · have hv : v ∈ views ↔ final.get v.key = some v.dict := by
      rw [← hviews, get_pairs hkeys]
      constructor
      · exact fun hv => ⟨v, hv, rfl, rfl⟩
      · rintro ⟨v', hv', -, hdict⟩
        have hread := ofDict_dict v'
        rw [hdict, ofDict_dict] at hread
        exact Option.some.inj hread ▸ hv'
    rw [hv, hget]
    constructor
    · rintro ⟨v', hv', hkey, hdict⟩
      have hread := ofDict_dict (v'.wanted (asked intents v.key))
      rw [hdict, ofDict_dict] at hread
      exact ⟨v', hv', by rw [hkey]; exact Option.some.inj hread⟩
    · rintro ⟨v', hv', rfl⟩
      exact ⟨v', hv', rfl, rfl⟩

/-- **The fleet as published**: whichever replica is asked, `/models` shows each key once, with its
last published view if that has not lapsed and else that of the local registry, and with what was
last asked for in the place of the desired state; and `/models/{key}` shows the same view. -/
theorem fleet_as_published {intents : List Intent}
    (h : NeverBack (calls.map publications.callOf ++ [.listInstanceObserved now]))
    (hread : ∀ p, .write p ∈ calls → p.inst.FloatsRead readFloat) :
    ∃ stored views,
      (tables (calls.map publications.callOf)).listInstanceObserved (loads readFloat) now =
        some stored ∧
      listModels nodeId snapshot.instances
        (some ⟨some stored, some (listInstanceDesired intents)⟩) = some views ∧
      (views.map (·.key)).Nodup ∧
      (∀ v, v ∈ views ↔
        ∃ v', Known calls now snapshot nodeId v' ∧ v = v'.wanted (asked intents v'.key)) ∧
      ∀ key, getModel nodeId snapshot.instances
        (some ⟨some stored, some (listInstanceDesired intents)⟩) key =
          (views.find? (·.key = key)).map some := by
  obtain ⟨bs, hstored, hnodup, hmem⟩ := exists_stored (h.prunedBy rfl) hread
  obtain ⟨views, hviews, hkeys, hknown⟩ := exists_views nodeId snapshot intents hnodup hmem
  refine ⟨_, views, hstored, ?_, hkeys, hknown, fun key => ?_⟩
  · unfold listModels
    rw [hviews, mapM_eq_some_iff, List.forall₂_map_left_iff]
    exact List.forall₂_same.mpr fun v _ => ofDict_dict v
  · unfold getModel
    rw [Option.isSome_some, if_pos rfl, hviews]
    simp only [find_dict]
    cases hfind : views.find? (·.key = key) with
    | some v => simp only [Option.map_some, ofDict_dict]
    | none =>
      have hlocal : snapshot.instances.find? (·.key = key) = none := by
        rw [List.find?_eq_none] at hfind ⊢
        intro i hi hkey
        obtain ⟨v, hv, hvkey⟩ := exists_known calls now nodeId hi
        refine hfind _ ((hknown _).mpr ⟨v, hv, rfl⟩) (decide_eq_true ?_)
        exact hvkey.trans (of_decide_eq_true hkey)
      simp only [Option.map_none, hlocal]

end Shown

/-- An instance on port 8001 that was updated at 1.5. -/
def updatedOnce (key : String) (state : ModelState) : Observed where
  key := key
  kind := .llm
  engine := "vllm"
  modelTag := none
  host := "127.0.0.1"
  port := 8001
  state := state
  desired := .running
  managed := true
  pid := some 7
  lastError := none
  startedAt := some ⟨3 / 2, "1.5"⟩
  readyAt := none
  updatedAt := ⟨3 / 2, "1.5"⟩
  restartCount := 0

/-- A reader of this one float. -/
def readOnce : FloatText := fun t => if t = "1.5".toList then some ⟨3 / 2, "1.5"⟩ else none

theorem floatsRead_updatedOnce (key : String) (state : ModelState) :
    (updatedOnce key state).FloatsRead readOnce := by
  have hreads : FloatReads readOnce ⟨3 / 2, "1.5"⟩ :=
    ⟨rfl, by decide, List.all_eq_true.mp (by decide), '1', ['.', '5'], rfl, rfl⟩
  refine ⟨fun x hx => ?_, fun x hx => (Option.not_mem_none x hx).elim, hreads⟩
  obtain rfl := Option.mem_some_iff.mp hx
  exact hreads

/-- Two replicas publish an instance each, and the first is not heard of again. -/
def twoPublished : List (ViewCall Int) :=
  [.write ⟨updatedOnce "M::a" .ready, "n1", 30, 0⟩, .write ⟨updatedOnce "M::b" .ready, "n2", 30, 5⟩,
    .other (.pruneInstanceObserved 31) fun _ h => by cases h; rfl]

/-- The registry of a third one. -/
def thirdSnapshot : Snapshot := ⟨[updatedOnce "M::a" .stopped], by decide⟩

theorem fleet_as_published_third : ∃ stored views,
    (tables (twoPublished.map publications.callOf)).listInstanceObserved (loads readOnce) 32 =
      some stored ∧
    listModels "n3" thirdSnapshot.instances
      (some ⟨some stored, some (listInstanceDesired [.set "M::b" .stopped])⟩) = some views ∧
    (views.map (·.key)).Nodup ∧
    (∀ v, v ∈ views ↔ ∃ v', Known twoPublished 32 thirdSnapshot "n3" v' ∧
      v = v'.wanted (asked [.set "M::b" .stopped] v'.key)) ∧
    ∀ key, getModel "n3" thirdSnapshot.instances
      (some ⟨some stored, some (listInstanceDesired [.set "M::b" .stopped])⟩) key =
        (views.find? (·.key = key)).map some :=
  fleet_as_published
    (by simp [NeverBack, twoPublished, Writer.callOf, publications, Publication.call, Call.clock])
    (fun p hp => by
      simp only [twoPublished, List.mem_cons, TableCall.write.injEq, reduceCtorEq, List.not_mem_nil,
        or_false] at hp
      obtain rfl | rfl := hp
      · exact floatsRead_updatedOnce _ _
      · exact floatsRead_updatedOnce _ _)

end Llmops.Fleet
