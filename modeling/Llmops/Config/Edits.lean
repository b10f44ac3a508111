import Llmops.Registry.Host
import Llmops.Config.Overlay
import Llmops.Config.Registry

/-!
# The configuration operations of the manager (`llmops/manager.py:640-809, 925-1133`)

The manager holds the configuration three times: the overlay file, the typed configuration and the
registry. Each operation loads the file, edits the overlay, validates the merge, saves, assigns the
configuration and then brings the registry in line, in its own way. `apply` is one operation from
beginning to end: the state it leaves, whether it raises or not, and what it raises or returns.

What surrounds the call is an input: whether `save_overlay` succeeds, what a forced stop leaves of a
record, and what the router's reload writes into the overlay file that it shares in Postgres mode.
-/

namespace Llmops.Config

open Lib

/-- What stays fixed while the backend runs. -/
structure Setup where
  py : Pydantic
  env : LaunchEnv := {}
  yaml : Option Json

/-- The configuration state of a `ModelManager`. -/
structure Manager where
  file : Option Json
  config : RootConfig
  registry : Registry

/-- What one call meets. `hydrated` is the overlay that the router's reload pulls from the database
into the shared file. -/
structure Surround where
  saves : Bool := true
  stopped : String → Option ModelInstance := fun _ => none
  hydrated : Option Json := none

/-- The operations of the dashboard on the configuration, with their arguments. -/
inductive Op where
  | create (group : String) (instance_ modelConfig : Dict Json) (autoscale : Option (Dict Json))
  | update (key : String) (instance_ modelConfig : Dict Json)
  | delete (key : String)
  | setAutoscale (group : String) (autoscale : Option (Dict Json))
  | setFallback (group : String) (fallback : Option (List Json))
  | updateEmbedding (modelType name : String) (settings : Dict Json)
  | importOverlay (overlay : Json) (force : Bool)

/-- What an operation returns. -/
inductive Reply where
  | record (inst : ModelInstance)
  | autoscale (policy : Option (Dict Json))
  | fallback (chain : Option (List String))
  | embedding (name : String)
  | deleted
  | keys (added removed changed : List String)

/-! ## Edits of the overlay -/

/-- Load the file and edit its groups. -/
def editGroups (file : Option Json) (f : Dict Json → Option (Dict Json)) : Option (Dict Json) := do
  let overlay ← loadOverlay file
  let engines ← groupsOf overlay
  return overlay.set "LLM_engines" (.obj (← f engines))

/-- The entry of a group with a new instance: appended, or an entry of its own. -/
def newEntry (declared : Bool) (group : String) (instance_ modelConfig engines : Dict Json) :
    Option (Dict Json) :=
  if declared || engines.has group then do
    let entry ← ((engines.get group).getD (.obj [("instances", .arr [])])).asObj
    let instances ← ((entry.get "instances").getD (.arr [])).asArr
    return entry.set "instances" (.arr (instances ++ [.obj instance_]))
  else some [("instances", .arr [.obj instance_]), ("model_config", .obj modelConfig)]

/-- The new entry, with its autoscale policy. -/
def appendInstance (declared : Bool) (group : String) (instance_ modelConfig : Dict Json)
    (autoscale : Option (Dict Json)) (engines : Dict Json) : Option (Dict Json) :=
  (newEntry declared group instance_ modelConfig engines).map fun entry =>
    engines.set group <| .obj <|
      match autoscale with
      | none => entry
      | some policy => Dict.set entry "autoscale" (.obj policy)

/-- The first instance with the id replaced, or the instance appended. -/
def replaceOrAppend (instanceId : String) (instance_ : Json) : List Json → Option (List Json)
  | [] => some [instance_]
  | i :: rest => do
    if ← idIs instanceId i then return instance_ :: rest
    else return i :: (← replaceOrAppend instanceId instance_ rest)

def replaceInstance (group instanceId : String) (instance_ modelConfig : Dict Json)
    (engines : Dict Json) : Option (Dict Json) := do
  let entry ← ((engines.get group).getD (.obj [("instances", .arr [])])).asObj
  let instances ← ((entry.get "instances").getD (.arr [])).asArr
  let instances ← replaceOrAppend instanceId (.obj instance_) instances
  return engines.set group
    (.obj ((entry.set "instances" (.arr instances)).set "model_config" (.obj modelConfig)))

/-- `[i for i in instances if i.get("id") != instance_id]`. -/
def dropInstance (instanceId : String) : List Json → Option (List Json)
  | [] => some []
  | i :: rest => do
    let same ← idIs instanceId i
    let rest ← dropInstance instanceId rest
    return if same then rest else i :: rest

/-- A group without instances leaves the overlay, with all that it sets. -/
def removeInstance (group instanceId : String) (engines : Dict Json) : Option (Dict Json) := do
  let entry ← ((engines.get group).getD (.obj [])).asObj
  let instances ← dropInstance instanceId (← ((entry.get "instances").getD (.arr [])).iter)
  if instances.isEmpty then return engines.pop group
  else return engines.set group (.obj (entry.set "instances" (.arr instances)))

/-- `engines.setdefault(group, {})[key] = value`. -/
def setField (group key : String) (value : Json) (engines : Dict Json) : Option (Dict Json) := do
  let entry ← ((engines.get group).getD (.obj [])).asObj
  return engines.set group (.obj (entry.set key value))

/-- The parameters of an embedding or reranking model. -/
def editModel (field name : String) (settings : Dict Json) (file : Option Json) :
    Option (Dict Json) := do
  let overlay ← loadOverlay file
  let server ← ((overlay.get "embedding_server").getD (.obj [])).asObj
  let models ← ((server.get field).getD (.obj [])).asObj
  let params ← ((models.get name).getD (.obj [])).asObj
  let models := models.set name (.obj (params.update settings))
  return overlay.set "embedding_server" (.obj (server.set field (.obj models)))

section Edited

variable {engines engines' : Dict Json} {group instanceId g : String} {file : Option Json}
  {overlay : Dict Json} {f : Dict Json → Option (Dict Json)}

theorem editGroups_eq_some :
    editGroups file f = some overlay ↔ ∃ ov engines engines', loadOverlay file = some ov ∧
      groupsOf ov = some engines ∧ f engines = some engines' ∧
      overlay = ov.set "LLM_engines" (.obj engines') := by
  simp only [editGroups, Option.bind_eq_bind, Option.pure_def, Option.bind_eq_some_iff,
    Option.some.injEq]
  constructor
  · rintro ⟨ov, hov, engines, hengines, engines', hf, rfl⟩
    exact ⟨ov, engines, engines', hov, hengines, hf, rfl⟩
  · rintro ⟨ov, engines, engines', hov, hengines, hf, rfl⟩
    exact ⟨ov, hov, engines, hengines, engines', hf, rfl⟩

/-- A saved overlay is loaded as it is. -/
theorem load_saved (ov : Dict Json) (engines : Dict Json) :
    loadOverlay (some (.obj (ov.set "LLM_engines" (.obj engines)))) =
      some (ov.set "LLM_engines" (.obj engines)) := by
  have hhas : Dict.has (ov.set "LLM_engines" (.obj engines)) "LLM_engines" = true := by
    rw [Dict.has, Dict.get_set_self]
    rfl
  simp only [loadOverlay, Json.asObj, Option.map_some, Dict.setDefault, hhas, if_true]

theorem groupsOf_saved (ov : Dict Json) (engines : Dict Json) :
    groupsOf (ov.set "LLM_engines" (.obj engines)) = some engines := by
  rw [groupsOf, Dict.get_set_self]
  rfl

/-- The instances that an entry lists. -/
def listed (entry : Option Json) : List Json :=
  ((entry.bind Json.asObj).bind fun e => (e.get "instances").bind Json.asArr).getD []

/-- The field of an entry. -/
def fieldOf (entry : Option Json) (key : String) : Option Json :=
  (entry.bind Json.asObj).bind fun e => e.get key

theorem listed_obj (e : Dict Json) :
    listed (some (.obj e)) = ((e.get "instances").bind Json.asArr).getD [] := rfl

theorem fieldOf_obj (e : Dict Json) (key : String) : fieldOf (some (.obj e)) key = e.get key := rfl

/-- A new instance is appended to its group's entry. The other entries stay, and of the entry the
settings, if the group is declared. -/
theorem appendInstance_eq_some {declared : Bool} {instance_ modelConfig : Dict Json}
    {autoscale : Option (Dict Json)}
    (h : appendInstance declared group instance_ modelConfig autoscale engines = some engines') :
    (∀ g, g ≠ group → engines'.get g = engines.get g) ∧
      listed (engines'.get group) = listed (engines.get group) ++ [.obj instance_] ∧
      (declared || engines.has group →
        ∀ key, key ≠ "instances" → key ≠ "autoscale" →
          fieldOf (engines'.get group) key = fieldOf (engines.get group) key) ∧
      (∃ e, engines'.get group = some (.obj e)) := by
  obtain ⟨entry, hentry, h⟩ := Option.map_eq_some_iff.mp h
  have hset : ∃ e : Dict Json, engines' = engines.set group (.obj e) ∧
      ∀ key, key ≠ "autoscale" → e.get key = Dict.get entry key := by
    cases autoscale with
    | none => exact ⟨entry, h.symm, fun _ _ => rfl⟩
    | some policy => exact ⟨_, h.symm, fun key hk => Dict.get_set_ne hk⟩
  obtain ⟨e, rfl, he⟩ := hset
  unfold newEntry at hentry
  refine ⟨fun g hg => Dict.get_set_ne hg, ?_, ?_, e, Dict.get_set_self⟩
  · rw [Dict.get_set_self, listed_obj, he _ (by decide)]
    split_ifs at hentry with hd
    · obtain ⟨old, hold, hentry⟩ := Option.bind_eq_some_iff.mp hentry
      obtain ⟨insts, hinsts, hentry⟩ := Option.bind_eq_some_iff.mp hentry
      cases hentry
      rw [Dict.get_set_self]
      cases hg : engines.get group with
      | none =>
        rw [hg] at hold
        cases hold
        cases hinsts
        rfl
      | some v =>
        rw [hg] at hold
        cases Json.asObj_eq_some.mp hold
        rw [listed_obj]
        cases hi : old.get "instances" with
        | none =>
          rw [hi] at hinsts
          cases hinsts
          rfl
        | some w =>
          rw [hi] at hinsts
          cases Json.asArr_eq_some.mp hinsts
          rfl
    · cases hentry
      have hhas : declared = false ∧ engines.has group = false := by simpa using hd
      have hnone : engines.get group = none := by simpa [Dict.has] using hhas.2
      rw [hnone]
      rfl
  · intro hd key hi ha
    rw [Dict.get_set_self, fieldOf_obj, he key ha]
    rw [if_pos hd] at hentry
    obtain ⟨old, hold, hentry⟩ := Option.bind_eq_some_iff.mp hentry
    obtain ⟨insts, -, hentry⟩ := Option.bind_eq_some_iff.mp hentry
    cases hentry
    rw [Dict.get_set_ne hi]
    cases hg : engines.get group with
    | none =>
      rw [hg] at hold
      cases hold
      rw [Dict.get_cons_ne hi]
      rfl
    | some v =>
      rw [hg] at hold
      cases Json.asObj_eq_some.mp hold
      rfl

theorem idIs_eq_some {i : Json} {b : Bool} (h : idIs instanceId i = some b) :
    ∃ s, (idOf i = s ∧ (b = true ↔ s = some (.str instanceId))) := by
  refine ⟨idOf i, rfl, ?_⟩
  obtain ⟨d, hd, hb⟩ := Option.map_eq_some_iff.mp h
  cases Json.asObj_eq_some.mp hd
  rw [← hb, idOf]
  simp only [Json.asObj, Option.bind_some]
  cases d.get "id" with
  | none => simp [Json.scalar]
  | some v => cases v <;> simp [Json.scalar]

/-- The ids after a replacement are those before and the instance's own. -/
theorem replaceOrAppend_eq_some {new : Json} {xs ys : List Json}
    (hnew : idOf new = some (.str instanceId))
    (h : replaceOrAppend instanceId new xs = some ys) (s : Scalar) :
    HasId ys s ↔ HasId xs s ∨ s = .str instanceId := by
  induction xs generalizing ys with
  | nil =>
    cases h
    rw [hasId_singleton, hnew]
    simp [HasId, eq_comm]
  | cons i rest ih =>
    rw [replaceOrAppend] at h
    obtain ⟨b, hb, h⟩ := Option.bind_eq_some_iff.mp h
    obtain ⟨_, rfl, hid⟩ := idIs_eq_some hb
    cases b with
    | true =>
      cases h
      rw [hasId_cons, hasId_cons, hnew, hid.mp rfl]
      simp only [Option.some.injEq, eq_comm]
      tauto
    | false =>
      obtain ⟨ys', hys, h⟩ := Option.bind_eq_some_iff.mp h
      cases h
      rw [hasId_cons, hasId_cons, ih hys, or_assoc]

/-- The ids after a removal are the others. -/
theorem dropInstance_eq_some {xs ys : List Json} (h : dropInstance instanceId xs = some ys) :
    (∀ s, HasId ys s ↔ HasId xs s ∧ s ≠ .str instanceId) ∧
      (HasId xs (.str instanceId) → ys.length < xs.length) ∧ ys.length ≤ xs.length := by
  induction xs generalizing ys with
  | nil =>
    cases h
    simp [HasId]
  | cons i rest ih =>
    rw [dropInstance] at h
    obtain ⟨b, hb, h⟩ := Option.bind_eq_some_iff.mp h
    obtain ⟨zs, hzs, h⟩ := Option.bind_eq_some_iff.mp h
    obtain ⟨hids, hlt, hle⟩ := ih hzs
    obtain ⟨_, rfl, hid⟩ := idIs_eq_some hb
    cases b with
    | true =>
      have hi := hid.mp rfl
      obtain rfl : zs = ys := by simpa using h
      refine ⟨fun s => ?_, fun _ => by simpa using Nat.lt_succ_of_le hle, Nat.le_succ_of_le hle⟩
      rw [hids, hasId_cons, hi]
      simp only [Option.some.injEq]
      constructor
      · intro h
        exact ⟨.inr h.1, h.2⟩
      · rintro ⟨rfl | h, hne⟩
        · exact absurd rfl hne
        · exact ⟨h, hne⟩
    | false =>
      obtain rfl : i :: zs = ys := by simpa using h
      have hi : idOf i ≠ some (.str instanceId) := fun h => Bool.false_ne_true (hid.mpr h)
      refine ⟨fun s => ?_, fun h => ?_, Nat.succ_le_succ hle⟩
      · rw [hasId_cons, hasId_cons, hids]
        constructor
        · rintro (h | ⟨h, hne⟩)
          · exact ⟨.inl h, fun hs => hi (hs ▸ h)⟩
          · exact ⟨.inr h, hne⟩
        · rintro ⟨h | h, hne⟩
          · exact .inl h
          · exact .inr ⟨h, hne⟩
      · rw [hasId_cons] at h
        exact Nat.succ_lt_succ (hlt (h.resolve_left hi))

end Edited

/-! ## Checks and resolution -/

/-- Neither STOPPED nor FAILED. -/
def live (inst : ModelInstance) : Bool := inst.state ≠ .stopped && inst.state ≠ .failed

/-- `port in ports`, for the `port` of an instance. -/
def portTaken (instance_ : Dict Json) (ports : List Int) : Option Bool :=
  ((instance_.get "port").getD .null).scalar.map fun port => port ∈ ports.map fun n : Int => .num n

/-- `instance.get("port")` in a message. -/
def portText (env : LaunchEnv) (instance_ : Dict Json) : String :=
  env.str ((instance_.get "port").getD .null)

namespace Manager

variable (m : Manager)

/-- `_used_ports`. -/
def usedPorts : List Int := m.registry.map fun p => p.2.port

/-- `_require`. -/
def require (key : String) : Except Raised ModelInstance :=
  orRaise (.modelNotFound key) (m.registry.get key)

/-- The file and the configuration after a save. -/
def commit (overlay : Dict Json) (config : RootConfig) : Manager :=
  { m with file := some (.obj overlay), config }

/-- What the router's reload does to the shared file. -/
def reload (x : Surround) : Manager :=
  match x.hydrated with
  | none => m
  | some overlay => { m with file := some overlay }

end Manager

/-- `if condition: raise error`. -/
def raiseIf (condition : Bool) (error : Raised) : Except Raised Unit :=
  if condition then .error error else .ok ()

/-- A refused request. -/
def refuseIf (condition : Bool) (message : String) : Except Raised Unit :=
  raiseIf condition (.modelConflict message)

theorem raiseIf_eq_ok {condition : Bool} {error : Raised} {u : Unit} :
    raiseIf condition error = .ok u ↔ condition = false := by
  cases condition <;> simp [raiseIf]

theorem refuseIf_eq_ok {condition : Bool} {message : String} {u : Unit} :
    refuseIf condition message = .ok u ↔ condition = false :=
  raiseIf_eq_ok

/-- `build_merged_config(self.config_path, overlay)`. -/
def Setup.merged (w : Setup) (overlay : Dict Json) : Except Raised RootConfig :=
  orRaise .illTyped (buildMergedConfig w.py w.yaml overlay)

/-- The launcher of the group's engine builds the spec of the key. -/
def launch (env : LaunchEnv) (config : RootConfig) (group key : String) :
    Except Raised LaunchSpec := do
  let engine ← orRaise (.keyError group) (config.llmEngines.get group)
  let name := engine.settings.engine.name
  let launcher ← orRaise
    (.modelConflict ("unsupported engine '" ++ name ++ "' (no launcher registered)"))
    (launcherFor env .llm name)
  launcher.buildSpec config key

/-! ## Create, update, delete -/

/-- `create_overlay_model` up to the save: the key, the overlay and the merged configuration. -/
def planCreate (w : Setup) (m : Manager) (group : String) (instance_ modelConfig : Dict Json)
    (autoscale : Option (Dict Json)) : Except Raised (String × Dict Json × RootConfig) := do
  refuseIf (!isSet instance_ "id") "instance id is required"
  let key := glue group (w.env.str ((instance_.get "id").getD .null))
  refuseIf (m.registry.has key) ("model already exists: " ++ key)
  let taken ← orRaise .illTyped (portTaken instance_ m.usedPorts)
  refuseIf taken ("port " ++ portText w.env instance_ ++ " is already in use")
  let overlay ← orRaise .illTyped <| editGroups m.file <|
    appendInstance (m.config.llmEngines.has group) group instance_ modelConfig autoscale
  return (key, overlay, ← w.merged overlay)

theorem planCreate_eq_ok {w : Setup} {m : Manager} {group key : String}
    {instance_ modelConfig overlay : Dict Json} {autoscale : Option (Dict Json)}
    {config : RootConfig}
    (h : planCreate w m group instance_ modelConfig autoscale = .ok (key, overlay, config)) :
    key = glue group (w.env.str ((instance_.get "id").getD .null)) ∧ m.registry.has key = false ∧
      editGroups m.file (appendInstance (m.config.llmEngines.has group) group instance_ modelConfig
        autoscale) = some overlay ∧
      w.merged overlay = .ok config := by
  simp only [planCreate, bind_eq_ok, refuseIf_eq_ok, orRaise_eq_ok, pure, Except.pure,
    Except.ok.injEq, Prod.mk.injEq] at h
  obtain ⟨_, -, _, hhas, _, -, _, -, ov, hov, c, hc, rfl, rfl, rfl⟩ := h
  exact ⟨rfl, hhas, hov, hc⟩

/-- `create_overlay_model`. -/
def createOverlayModel (w : Setup) (x : Surround) (group : String)
    (instance_ modelConfig : Dict Json) (autoscale : Option (Dict Json)) (m : Manager) :
    Manager × Except Raised Reply :=
  match planCreate w m group instance_ modelConfig autoscale with
  | .error e => (m, .error e)
  | .ok (key, overlay, config) =>
    if !x.saves then (m, .error .notSaved)
    else
      let m := m.commit overlay config
      match launch w.env config group key with
      | .error e => (m, .error e)
      | .ok spec =>
        ({ m with registry := m.registry.set key (.ofSpec spec) }, .ok (.record (.ofSpec spec)))

/-- `update_overlay_model` up to the save: the record, the overlay and the merged configuration. -/
def planUpdate (w : Setup) (m : Manager) (key : String) (instance_ modelConfig : Dict Json) :
    Except Raised (ModelInstance × Dict Json × RootConfig) := do
  let inst ← m.require key
  refuseIf (inst.kind ≠ .llm) "only LLM models are editable"
  refuseIf (live inst) ("stop " ++ key ++ " before editing it")
  refuseIf (!isSet modelConfig "model_tag") "model_tag is required"
  let instance_ := instance_.set "id" (.str (partition key "::").2)
  let taken ← orRaise .illTyped (portTaken instance_ (m.usedPorts.filter (· ≠ inst.port)))
  refuseIf taken ("port " ++ portText w.env instance_ ++ " is already in use")
  let overlay ← orRaise .illTyped <| editGroups m.file <|
    replaceInstance (partition key "::").1 (partition key "::").2 instance_ modelConfig
  return (inst, overlay, ← w.merged overlay)

theorem planUpdate_eq_ok {w : Setup} {m : Manager} {key : String} {inst : ModelInstance}
    {instance_ modelConfig overlay : Dict Json} {config : RootConfig}
    (h : planUpdate w m key instance_ modelConfig = .ok (inst, overlay, config)) :
    m.registry.get key = some inst ∧ inst.kind = .llm ∧
      editGroups m.file (replaceInstance (partition key "::").1 (partition key "::").2
        (instance_.set "id" (.str (partition key "::").2)) modelConfig) = some overlay ∧
      w.merged overlay = .ok config := by
  simp only [planUpdate, Manager.require, bind_eq_ok, refuseIf_eq_ok, orRaise_eq_ok, pure,
    Except.pure, Except.ok.injEq, Prod.mk.injEq, decide_eq_false_iff_not, not_not] at h
  obtain ⟨_, hget, _, hkind, _, -, _, -, _, -, _, -, ov, hov, c, hc, rfl, rfl, rfl⟩ := h
  exact ⟨hget, hkind, hov, hc⟩

/-- `update_overlay_model`. Of the group, only this record is refreshed. -/
def updateOverlayModel (w : Setup) (x : Surround) (key : String)
    (instance_ modelConfig : Dict Json) (m : Manager) : Manager × Except Raised Reply :=
  match planUpdate w m key instance_ modelConfig with
  | .error e => (m, .error e)
  | .ok (inst, overlay, config) =>
    if !x.saves then (m, .error .notSaved)
    else
      let m := m.commit overlay config
      match launch w.env config (partition key "::").1 key with
      | .error e => (m, .error e)
      | .ok spec =>
        let inst := Registry.respec inst spec
        ({ m with registry := m.registry.set key inst }, .ok (.record inst))

/-- `delete_overlay_model` up to the save: the overlay. -/
def planDelete (m : Manager) (key : String) : Except Raised (Dict Json) := do
  let inst ← m.require key
  let overlay ← orRaise .illTyped (loadOverlay m.file)
  let owned ← orRaise .illTyped
    (overlayOwns overlay (partition key "::").1 (partition key "::").2)
  refuseIf (!owned) (key ++ " is defined in config.yaml; remove it there")
  refuseIf (live inst) ("stop " ++ key ++ " before removing it")
  orRaise .illTyped <| editGroups m.file <|
    removeInstance (partition key "::").1 (partition key "::").2

theorem planDelete_eq_ok {m : Manager} {key : String} {overlay : Dict Json}
    (h : planDelete m key = .ok overlay) :
    (∃ inst, m.registry.get key = some inst) ∧
      (∃ ov, loadOverlay m.file = some ov ∧
        overlayOwns ov (partition key "::").1 (partition key "::").2 = some true) ∧
      editGroups m.file (removeInstance (partition key "::").1 (partition key "::").2) =
        some overlay := by
  simp only [planDelete, Manager.require, bind_eq_ok, refuseIf_eq_ok, orRaise_eq_ok] at h
  obtain ⟨inst, hget, ov, hov, owned, howned, _, htrue, _, -, hedit⟩ := h
  rw [show owned = true by simpa using htrue] at howned
  exact ⟨⟨inst, hget⟩, ⟨ov, hov, howned⟩, hedit⟩

/-- `delete_overlay_model`: the merge is validated after the save. -/
def deleteOverlayModel (w : Setup) (x : Surround) (key : String) (m : Manager) :
    Manager × Except Raised Reply :=
  match planDelete m key with
  | .error e => (m, .error e)
  | .ok overlay =>
    if !x.saves then (m, .error .notSaved)
    else
      match w.merged overlay with
      | .error e => ({ m with file := some (.obj overlay) }, .error e)
      | .ok config =>
        let m := m.commit overlay config
        ({ m with registry := m.registry.pop key }, .ok .deleted)

/-! ## Group fields and embedding models -/

/-- `set_autoscale`. Clearing the policy writes it as switched off. -/
def setAutoscale (w : Setup) (x : Surround) (group : String) (autoscale : Option (Dict Json))
    (m : Manager) : Manager × Except Raised Reply :=
  let plan : Except Raised (Dict Json × RootConfig) := do
    raiseIf (!m.config.llmEngines.has group) (.modelNotFound group)
    let policy := autoscale.getD [("enabled", .bool false)]
    let overlay ← orRaise .illTyped <| editGroups m.file <| setField group "autoscale" (.obj policy)
    return (overlay, ← w.merged overlay)
  match plan with
  | .error e => (m, .error e)
  | .ok (overlay, config) =>
    if !x.saves then (m, .error .notSaved)
    else
      let resolved := (config.llmEngines.get group).bind (·.autoscale)
      (m.commit overlay config, .ok (.autoscale (resolved.map (·.dump))))

/-- The chain without the group itself, if every other name is a group. -/
def fallbackChain (config : RootConfig) (group : String) (fallback : List Json) :
    Except Raised (List Json) := do
  let chain := fallback.filter fun g => g.asStr ≠ some group
  raiseIf (chain.any fun g => g.scalar.isNone) .illTyped
  let unknown := chain.filter fun g => !(g.asStr.any fun s => config.llmEngines.has s)
  let names ← orRaise .illTyped (unknown.mapM Json.asStr)
  refuseIf (!names.isEmpty) ("unknown fallback group(s): " ++ ", ".intercalate names)
  return chain

/-- `set_fallback`. -/
def setFallback (w : Setup) (x : Surround) (group : String) (fallback : Option (List Json))
    (m : Manager) : Manager × Except Raised Reply :=
  let plan : Except Raised (Dict Json × RootConfig) := do
    raiseIf (!m.config.llmEngines.has group) (.modelNotFound group)
    let chain ← fallbackChain m.config group (fallback.getD [])
    let overlay ← orRaise .illTyped <| editGroups m.file <| setField group "fallback" (.arr chain)
    return (overlay, ← w.merged overlay)
  match plan with
  | .error e => (m, .error e)
  | .ok (overlay, config) =>
    if !x.saves then (m, .error .notSaved)
    else
      let chain := (config.llmEngines.get group).bind (·.fallback)
      ((m.commit overlay config).reload x, .ok (.fallback chain))

/-- `update_embedding_model`. -/
def updateEmbeddingModel (w : Setup) (x : Surround) (modelType name : String)
    (settings : Dict Json) (m : Manager) : Manager × Except Raised Reply :=
  let plan : Except Raised (Dict Json × RootConfig) := do
    refuseIf (modelType ≠ "embedding" ∧ modelType ≠ "reranking")
      "model_type must be 'embedding' or 'reranking'"
    let field := if modelType = "embedding" then "embedding_models" else "reranking_models"
    let known := m.config.embeddingServer.elim [] fun emb =>
      if modelType = "embedding" then emb.embeddingModels else emb.rerankingModels
    raiseIf (!Dict.has known name)
      (.modelNotFound ("unknown " ++ modelType ++ " model: " ++ name))
    refuseIf ((m.registry.get embeddingKey).any live)
      "stop the embedding server before editing its models"
    let overlay ← orRaise .illTyped (editModel field name settings m.file)
    return (overlay, ← w.merged overlay)
  match plan with
  | .error e => (m, .error e)
  | .ok (overlay, config) =>
    if !x.saves then (m, .error .notSaved)
    else (m.commit overlay config, .ok (.embedding name))

/-! ## Import and sync -/

/-- `sorted(keys)`. -/
def sorted (keys : List String) : List String := keys.mergeSort (· ≤ ·)

/-- The keys that both sides have with different specs. -/
def changedKeys (reg : Registry) (desired : Dict LaunchSpec) : List String :=
  (reg.filter fun p => (desired.get p.1).any (p.2.spec ≠ ·)).map Prod.fst

/-- A record that stays, refreshed if its spec changed. -/
def refresh (desired : Dict LaunchSpec) (key : String) (inst : ModelInstance) : ModelInstance :=
  match desired.get key with
  | none => inst
  | some spec => if inst.spec = spec then inst else Registry.respec inst spec

/-- `resync_registry`, after its specs are resolved. -/
def resync (reg : Registry) (desired : Dict LaunchSpec) : Registry × Reply :=
  let added := sorted (desired.keys.filter fun key => !reg.has key)
  let removed := sorted (reg.keys.filter fun key => !desired.has key)
  let kept := reg.filter fun p => desired.has p.1
  let new := added.filterMap fun key => (desired.get key).map fun spec => (key, .ofSpec spec)
  (kept.map (fun p => (p.1, refresh desired p.1 p.2)) ++ new,
    .keys added removed (sorted (changedKeys reg desired)))

/-- A forced stop changes what runs, not how it is defined. -/
def withRuntime (inst : ModelInstance) : Option ModelInstance → ModelInstance
  | none => inst
  | some after => { after with
      key := inst.key, kind := inst.kind, host := inst.host, port := inst.port,
      spec := inst.spec, engine := inst.engine }

/-- The instances whose definition the import changes and that are not down. -/
def busyKeys (reg : Registry) (desired : Dict LaunchSpec) : List String :=
  (reg.filter fun p => (!desired.has p.1 || p.1 ∈ changedKeys reg desired) && live p.2).map Prod.fst

/-- The stops of a forced import. -/
def stopBusy (x : Surround) (busy : List String) (reg : Registry) : Registry :=
  reg.map fun p => if p.1 ∈ busy then (p.1, withRuntime p.2 (x.stopped p.1)) else p

/-- `import_overlay` up to the save: the overlay, the configuration and its specs. -/
def planImport (w : Setup) (m : Manager) (overlay : Json) (force : Bool) :
    Except Raised (Dict Json × RootConfig × Dict LaunchSpec) := do
  let overlay ← orRaise (.configInvalid "overlay must be a JSON object") overlay.asObj
  let overlay := overlay.setDefault "LLM_engines" (.obj [])
  let config ← orRaise (.configInvalid "invalid config") (buildMergedConfig w.py w.yaml overlay)
  let desired ← resolveSpecs w.env config
  let busy := sorted (busyKeys m.registry desired)
  refuseIf (!busy.isEmpty && !force)
    ("stop these instances before importing (or use force): " ++ ", ".intercalate busy)
  return (overlay, config, desired)

/-- `import_overlay`. The second resolution of the specs is the same as the first. -/
def importOverlay (w : Setup) (x : Surround) (overlay : Json) (force : Bool) (m : Manager) :
    Manager × Except Raised Reply :=
  match planImport w m overlay force with
  | .error e => (m, .error e)
  | .ok (overlay, config, desired) =>
    let m := { m with registry := stopBusy x (busyKeys m.registry desired) m.registry }
    if !x.saves then (m, .error .notSaved)
    else
      let (registry, reply) := resync m.registry desired
      (({ m.commit overlay config with registry }).reload x, .ok reply)

/-- `sync_overlay_from_store` with the overlay that the store has. It raises nothing; `none` is a
pass that fails on the way and leaves the hydrated file. -/
def syncOverlay (w : Setup) (x : Surround) (overlay : Json) (m : Manager) :
    Manager × Option Reply :=
  if !x.saves then (m, none)
  else
    let m := { m with file := some overlay }
    match (loadOverlay m.file).bind (buildMergedConfig w.py w.yaml) with
    | none => (m, none)
    | some config =>
      match resolveSpecs w.env config with
      | .error _ => (m, none)
      | .ok desired =>
        let (registry, reply) := resync m.registry desired
        let m := { m with config, registry }
        match reply with
        | .keys [] [] [] => (m, some reply)
        | _ => (m.reload x, some reply)

/-! ## Boot and one operation -/

/-- The manager after boot; `none` where the backend does not come up. -/
def boot (w : Setup) (file : Option Json) : Option Manager := do
  let config ← buildMergedConfig w.py w.yaml (← loadOverlay file)
  let registry ← (buildRegistry w.env config).toOption
  return { file, config, registry }

/-- An operation from beginning to end. -/
def apply (w : Setup) (x : Surround) : Op → Manager → Manager × Except Raised Reply
  | .create group instance_ modelConfig autoscale =>
    createOverlayModel w x group instance_ modelConfig autoscale
  | .update key instance_ modelConfig => updateOverlayModel w x key instance_ modelConfig
  | .delete key => deleteOverlayModel w x key
  | .setAutoscale group autoscale => setAutoscale w x group autoscale
  | .setFallback group fallback => setFallback w x group fallback
  | .updateEmbedding modelType name settings => updateEmbeddingModel w x modelType name settings
  | .importOverlay overlay force => importOverlay w x overlay force

end Llmops.Config
