import Llmops.Config.Agree

/-!
# Runtime LoRA (`llmops/manager.py:811-925`)

An adapter is loaded into every ready instance of a group and then written into the settings of the
group in the overlay, so that the next launch mounts it. The registry is left as it is.
-/

namespace Llmops.Config

open Lib Node

/-- What an instance answers to a request to load or unload an adapter. -/
inductive Posted where
  | accepted
  | refused (status : Nat) (detail : String)
  | unreachable (error : String)

/-- `LoraRuntimeError`, an error of the HTTP client, or any other of the manager. -/
inductive LoraRaised where
  | raised (error : Raised)
  | runtime (message : String)
  | http (error : String)

/-- What the two operations return; `unload_lora` lists what went wrong. -/
structure LoraReply where
  group : String
  name : String
  instances : List String
  errors : List String := []

/-- `_post_lora`: what it raises. -/
def postLora (answer : Posted) (key : String) : Option LoraRaised :=
  match answer with
  | .accepted => none
  | .refused status detail =>
    some (.runtime (key ++ ": " ++ toString status ++ " " ++ String.ofList (detail.toList.take 200)))
  | .unreachable error => some (.http error)

/-- `str(e)`. -/
def LoraRaised.text : LoraRaised → String
  | .raised _ => ""
  | .runtime message => message
  | .http error => error

/-- `_ready_lora_targets`. -/
def readyLoraTargets (m : Manager) (group : String) : List String :=
  (m.registry.filter fun p =>
    (partition p.1 "::").1 = group && p.2.kind = .llm && p.2.state = .ready).map Prod.fst

/-- The settings of a group without the adapter of the name, and with the entry, if there is one. -/
def withLora (settings : EngineModelConfig) (name : String) (entry : Option (Dict Json)) :
    Dict Json :=
  let loras := ((settings.loraModules.getD []).map (·.dump)).filter fun m =>
    (m.get "name").bind Json.asStr ≠ some name
  settings.dump.set "lora_modules" (.arr ((loras ++ entry.toList).map .obj))

/-- `_persist_lora` up to the save. -/
def planLora (w : Setup) (m : Manager) (group name : String) (entry : Option (Dict Json)) :
    Except Raised (Dict Json × RootConfig) := do
  let engine ← orRaise (.keyError group) (m.config.llmEngines.get group)
  let overlay ← orRaise .illTyped <| editGroups m.file <|
    setField group "model_config" (.obj (withLora engine.settings name entry))
  return (overlay, ← w.merged overlay)

/-- `_persist_lora`. -/
def persistLora (w : Setup) (x : Surround) (group name : String) (entry : Option (Dict Json))
    (m : Manager) : Except Raised Manager := do
  let (overlay, config) ← planLora w m group name entry
  raiseIf (!x.saves) .notSaved
  return m.commit overlay config

/-- The entry of an adapter. A base model name that is empty is left out. -/
def loraEntry (name path : String) (baseModelName : Option String) : Dict Json :=
  [("name", .str name), ("path", .str path)] ++
    match baseModelName with
    | none => []
    | some base => if base = "" then [] else [("base_model_name", .str base)]

/-- The checks of `load_lora`: the instances to load the adapter into. -/
def planLoad (m : Manager) (group name path : String) : Except Raised (List String) := do
  let engine ← orRaise (.modelNotFound group) (m.config.llmEngines.get group)
  let engineName := engine.settings.engine.name
  refuseIf (!(engine.settings.engine.launcher.any fun r => "runtime_lora" ∈ r.capabilities))
    (group ++ "'s engine (" ++ engineName ++ ") does not support runtime LoRA")
  refuseIf (!isSet engine.settings.extra.entries "allow_runtime_lora")
    (group ++ " was not started with runtime LoRA updating — enable " ++
      "allow_runtime_lora (+ enable_lora) on the model and restart it first")
  refuseIf (name = "" || path = "") "lora name and path are required"
  let targets := readyLoraTargets m group
  refuseIf targets.isEmpty ("no running instance for " ++ group ++ " — start it first")
  return targets

/-- The errors of a request that goes to every target. -/
def postAll (answers : String → Posted) (targets : List String) : List LoraRaised :=
  targets.filterMap fun key => postLora (answers key) key

/-- `load_lora`: the first instance that fails ends it, and those before it are rolled back. -/
def loadLora (w : Setup) (x : Surround) (answers : String → Posted) (group name path : String)
    (baseModelName : Option String) (m : Manager) : Except LoraRaised (Manager × LoraReply) :=
  match planLoad m group name path with
  | .error e => .error (.raised e)
  | .ok targets =>
    match (postAll answers targets).head? with
    | some e => .error e
    | none =>
      match persistLora w x group name (some (loraEntry name path baseModelName)) m with
      | .error e => .error (.raised e)
      | .ok m => .ok (m, { group, name, instances := targets })

/-- `unload_lora`: whatever the instances answer. -/
def unloadLora (w : Setup) (x : Surround) (answers : String → Posted) (group name : String)
    (m : Manager) : Except LoraRaised (Manager × LoraReply) :=
  if m.config.llmEngines.has group then
    match persistLora w x group name none m with
    | .error e => .error (.raised e)
    | .ok m' =>
      let targets := readyLoraTargets m group
      .ok (m', { group, name, instances := targets,
                 errors := (postAll answers targets).map LoraRaised.text })
  else .error (.raised (.modelNotFound group))

/-- The two operations, with their arguments. -/
inductive LoraOp where
  | load (group name path : String) (baseModelName : Option String)
  | unload (group name : String)

def LoraOp.group : LoraOp → String
  | .load group .. => group
  | .unload group _ => group

def applyLora (w : Setup) (x : Surround) (answers : String → Posted) (op : LoraOp) (m : Manager) :
    Except LoraRaised (Manager × LoraReply) :=
  match op with
  | .load group name path base => loadLora w x answers group name path base m
  | .unload group name => unloadLora w x answers group name m

/-- The adapter that an operation writes or removes. -/
def LoraOp.plan (w : Setup) (m : Manager) : LoraOp → Except Raised (Dict Json × RootConfig)
  | .load group name path base => planLora w m group name (some (loraEntry name path base))
  | .unload group name => planLora w m group name none

section Inversion

variable {w : Setup} {x : Surround} {m m' : Manager} {group name : String}
  {entry : Option (Dict Json)} {overlay : Dict Json} {config : RootConfig}

theorem planLora_eq_ok (h : planLora w m group name entry = .ok (overlay, config)) :
    ∃ engine value, m.config.llmEngines.get group = some engine ∧
      editGroups m.file (setField group "model_config" value) = some overlay ∧
      w.merged overlay = .ok config := by
  simp only [planLora, bind_eq_ok, orRaise_eq_ok, pure, Except.pure, Except.ok.injEq,
    Prod.mk.injEq] at h
  obtain ⟨engine, hget, ov, hov, c, hc, rfl, rfl⟩ := h
  exact ⟨engine, _, hget, hov, hc⟩

theorem persistLora_eq_ok (h : persistLora w x group name entry m = .ok m') :
    ∃ overlay config, planLora w m group name entry = .ok (overlay, config) ∧
      m' = m.commit overlay config := by
  simp only [persistLora, bind_eq_ok, raiseIf_eq_ok, pure, Except.pure, Except.ok.injEq] at h
  obtain ⟨⟨overlay, config⟩, hplan, _, -, rfl⟩ := h
  exact ⟨overlay, config, hplan, rfl⟩

/-- **What an operation on adapters has done** when it succeeds. -/
theorem applyLora_eq_ok {answers : String → Posted} {op : LoraOp} {reply : LoraReply}
    (h : applyLora w x answers op m = .ok (m', reply)) :
    ∃ overlay config, op.plan w m = .ok (overlay, config) ∧ m' = m.commit overlay config := by
  cases op with
  | load group name path base =>
    unfold applyLora loadLora at h
    dsimp only at h
    split at h
    next => cases h
    next targets _ =>
      split at h
      next => cases h
      next =>
        split at h
        next => cases h
        next hpersist =>
          cases h
          exact persistLora_eq_ok hpersist
  | unload group name =>
    unfold applyLora unloadLora at h
    dsimp only at h
    split_ifs at h
    split at h
    next => cases h
    next hpersist =>
      cases h
      exact persistLora_eq_ok hpersist

end Inversion

end Llmops.Config
