import Llmops.Lib.Json

/-!
# The configuration schema (`packages/config-schema/schema.py`)

The pydantic models of `config.yaml`: a structure for each, `validate` for `model_validate` and `dump`
for `model_dump(by_alias=True)`. `validate` is `none` where pydantic raises; the texts of its errors
are not modelled. Pydantic's lax conversions to numbers and booleans are a parameter (`Pydantic`).

A model with `extra="allow"` keeps what it does not declare (`Extra`): each key once and none that it
declares. Likewise a validated root has each group once, so that no later fact asks for it again.
-/

namespace Llmops.Config

open Lib

/-- The conversions of pydantic that are not the identity on values of the type alone: `"8001"` and
`8001.0` are accepted for an `int`, `"yes"` for a `bool`. An integer is itself. -/
structure Pydantic where
  int : Json → Option Int
  float : Json → Option PyFloat
  bool : Json → Option Bool
  int_int (n : Int) : int (.int n) = some n

/-- The conversions on values that have the type already. -/
def Pydantic.strict : Pydantic where
  int
    | .int n => some n
    | _ => none
  float
    | .float x => some x
    | _ => none
  bool
    | .bool b => some b
    | _ => none
  int_int _ := rfl

/-! ## Fields -/

/-- The entries of an object. Python builds no dictionary with a key twice. -/
def entries (v : Json) : Option { d : Dict Json // d.Unique } :=
  v.asObj.bind fun d => if h : d.Unique then some ⟨d, h⟩ else none

theorem entries_eq_some {v : Json} {d : { d : Dict Json // d.Unique }} :
    entries v = some d ↔ v = .obj d := by
  obtain ⟨d, hd⟩ := d
  cases v with
  | obj d' =>
    by_cases h : Dict.Unique d'
    · simp [entries, Json.asObj, h]
    · have hne : d' ≠ d := fun he => h (he ▸ hd)
      simp [entries, Json.asObj, h, hne]
  | _ => simp [entries, Json.asObj]

section Fields

variable {α : Type}

/-- A field without a default. -/
def required (d : Dict Json) (key : String) (f : Json → Option α) : Option α := (d.get key).bind f

/-- A field with a default. -/
def withDefault (d : Dict Json) (key : String) (default : α) (f : Json → Option α) : Option α :=
  match d.get key with
  | none => some default
  | some v => f v

/-- `Optional[...]`. -/
def optional (f : Json → Option α) : Json → Option (Option α)
  | .null => some none
  | v => (f v).map some

/-- `list[...]`. -/
def listOf (f : Json → Option α) (v : Json) : Option (List α) := v.asArr.bind (·.mapM f)

/-- `dict[str, ...]`. -/
def dictOf (f : Json → Option α) (v : Json) : Option (Dict α) := v.asObj.bind (Dict.mapValues f)

/-- `Literal[...]`: exactly one of the texts. -/
def literal (name : α → String) (all : List α) (v : Json) : Option α :=
  v.asStr.bind fun s => all.find? (name · = s)

theorem required_eq_some {d : Dict Json} {key : String} {f : Json → Option α} {a : α} :
    required d key f = some a ↔ ∃ v, d.get key = some v ∧ f v = some a :=
  Option.bind_eq_some_iff

theorem withDefault_eq_some {d : Dict Json} {key : String} {default a : α} {f : Json → Option α} :
    withDefault d key default f = some a ↔
      (d.get key = none ∧ a = default) ∨ ∃ v, d.get key = some v ∧ f v = some a := by
  unfold withDefault
  cases d.get key with
  | none => simp [eq_comm]
  | some v => simp

theorem listOf_eq_some {f : Json → Option α} {v : Json} {as : List α} :
    listOf f v = some as ↔ ∃ xs, v = .arr xs ∧ xs.mapM f = some as := by
  cases v <;> simp [listOf, Json.asArr]

theorem dictOf_eq_some {f : Json → Option α} {v : Json} {e : Dict α} :
    dictOf f v = some e ↔ ∃ d, v = .obj d ∧ Dict.mapValues f d = some e := by
  cases v <;> simp [dictOf, Json.asObj]

end Fields

/-- What a model with `extra="allow"` keeps beside its own fields. -/
structure Extra (fields : List String) where
  entries : Dict Json
  unique : entries.Unique
  foreign : ∀ key ∈ fields, key ∉ entries.keys

namespace Extra

variable {fields : List String}

/-- Nothing kept. -/
def none : Extra fields := ⟨[], List.nodup_nil, fun _ _ => List.not_mem_nil⟩

/-- The keys of an object that are in neither list. -/
def rest (d : { d : Dict Json // d.Unique }) (used : List String := []) : Extra fields where
  entries := d.1.without (fields ++ used)
  unique := d.2.without
  foreign _ h := Dict.notMem_keys_without (List.mem_append_left _ h)

/-- A dump: the model's own fields, then what it keeps beside them. -/
def after (extra : Extra fields) (own : Dict Json) : Dict Json := own ++ extra.entries

end Extra

/-! ## The models -/

/-- `ServerConfig`. -/
structure ServerConfig where
  host : String := "0.0.0.0"
  port : Int
  uvicornLogLevel : String := "info"
  extra : Extra ["host", "port", "uvicorn_log_level"] := .none

/-- `InstanceConfig`. -/
structure InstanceConfig where
  id : String
  host : String := "localhost"
  port : Int
  cudaDevice : Option Int := none
  extra : Extra ["id", "host", "port", "cuda_device"] := .none

/-- `LoraModule`: an adapter mounted at launch. -/
structure LoraModule where
  name : String
  path : String
  baseModelName : Option String := none
  extra : Extra ["name", "path", "base_model_name"] := .none

/-- `Literal["vllm", "sglang", "llamacpp", "trtllm"]`. -/
inductive Engine where
  | vllm | sglang | llamacpp | trtllm
  deriving DecidableEq, Repr

namespace Engine

def name : Engine → String
  | vllm => "vllm"
  | sglang => "sglang"
  | llamacpp => "llamacpp"
  | trtllm => "trtllm"

def all : List Engine := [vllm, sglang, llamacpp, trtllm]

end Engine

/-- `Literal["chat", "embed", "rerank"]`. -/
inductive Kind where
  | chat | embed | rerank
  deriving DecidableEq, Repr

namespace Kind

def name : Kind → String
  | chat => "chat"
  | embed => "embed"
  | rerank => "rerank"

def all : List Kind := [chat, embed, rerank]

end Kind

/-- `EngineModelConfig`: the settings that the instances of a group share. -/
structure EngineModelConfig where
  modelTag : String
  engine : Engine := .vllm
  kind : Kind := .chat
  dtype : Option String := none
  maxModelLen : Option Int := none
  gpuMemoryUtilization : Option PyFloat := none
  tensorParallelSize : Int := 1
  loraModules : Option (List LoraModule) := none
  kvTransferConfig : Option (Dict Json) := none
  extra : Extra ["model_tag", "engine", "kind", "dtype", "max_model_len",
    "gpu_memory_utilization", "tensor_parallel_size", "lora_modules", "kv_transfer_config"] := .none

/-- `AutoscaleConfig`. -/
structure AutoscaleConfig where
  enabled : Bool := false
  minReady : Int := 1
  minWarm : Int := 1
  maxReady : Option Int := none
  scaleUpWaiting : PyFloat := ⟨4, "4.0"⟩
  scaleUpWindowS : PyFloat := ⟨20, "20.0"⟩
  sleepAfterS : PyFloat := ⟨180, "180.0"⟩
  stopAfterS : PyFloat := ⟨900, "900.0"⟩
  cooldownS : PyFloat := ⟨60, "60.0"⟩
  extra : Extra ["enabled", "min_ready", "min_warm", "max_ready", "scale_up_waiting",
    "scale_up_window_s", "sleep_after_s", "stop_after_s", "cooldown_s"] := .none

/-- `LLMEngine`: a group. `settings` is the field that YAML calls `model_config`. -/
structure LLMEngine where
  instances : List InstanceConfig := []
  settings : EngineModelConfig
  autoscale : Option AutoscaleConfig := none
  fallback : Option (List String) := none
  extra : Extra ["instances", "model_config", "autoscale", "fallback"] := .none

/-- `EmbeddingModelEntry`. -/
structure EmbeddingModelEntry where
  modelName : String
  modelPath : Option String := none
  tokenizerPath : Option String := none
  maxLength : Int := 512
  useGpu : Bool := true
  useFloat16 : Bool := true
  extra : Extra ["model_name", "model_path", "tokenizer_path", "max_length", "use_gpu",
    "use_float16"] := .none

/-- `EmbeddingServer`. -/
structure EmbeddingServer where
  host : String := "localhost"
  port : Int
  cudaDevice : Option Int := none
  embeddingModels : Dict EmbeddingModelEntry := []
  rerankingModels : Dict EmbeddingModelEntry := []
  extra : Extra ["host", "port", "cuda_device", "embedding_models", "reranking_models"] := .none

/-- `RootConfig`. -/
structure RootConfig where
  server : ServerConfig
  llmEngines : Dict LLMEngine := []
  embeddingServer : Option EmbeddingServer := none
  extra : Extra ["server", "LLM_engines", "embedding_server"] := .none
  unique : llmEngines.Unique

/-! ## `model_validate` -/

section Validate

variable (py : Pydantic)

def ServerConfig.validate (v : Json) : Option ServerConfig := do
  let d ← entries v
  let host ← withDefault d.1 "host" "0.0.0.0" Json.asStr
  let port ← required d.1 "port" py.int
  let uvicornLogLevel ← withDefault d.1 "uvicorn_log_level" "info" Json.asStr
  return { host, port, uvicornLogLevel, extra := .rest d }

def InstanceConfig.validate (v : Json) : Option InstanceConfig := do
  let d ← entries v
  let id ← required d.1 "id" Json.asStr
  let host ← withDefault d.1 "host" "localhost" Json.asStr
  let port ← required d.1 "port" py.int
  let cudaDevice ← withDefault d.1 "cuda_device" none (optional py.int)
  return { id, host, port, cudaDevice, extra := .rest d }

def LoraModule.validate (v : Json) : Option LoraModule := do
  let d ← entries v
  let name ← required d.1 "name" Json.asStr
  let path ← required d.1 "path" Json.asStr
  let baseModelName ← withDefault d.1 "base_model_name" none (optional Json.asStr)
  return { name, path, baseModelName, extra := .rest d }

def EngineModelConfig.validate (v : Json) : Option EngineModelConfig := do
  let d ← entries v
  let modelTag ← required d.1 "model_tag" Json.asStr
  let engine ← withDefault d.1 "engine" Engine.vllm (literal Engine.name Engine.all)
  let kind ← withDefault d.1 "kind" Kind.chat (literal Kind.name Kind.all)
  let dtype ← withDefault d.1 "dtype" none (optional Json.asStr)
  let maxModelLen ← withDefault d.1 "max_model_len" none (optional py.int)
  let gpuMemoryUtilization ← withDefault d.1 "gpu_memory_utilization" none (optional py.float)
  let tensorParallelSize ← withDefault d.1 "tensor_parallel_size" 1 py.int
  let loraModules ← withDefault d.1 "lora_modules" none (optional (listOf LoraModule.validate))
  let kvTransferConfig ← withDefault d.1 "kv_transfer_config" none (optional Json.asObj)
  return { modelTag, engine, kind, dtype, maxModelLen, gpuMemoryUtilization, tensorParallelSize,
           loraModules, kvTransferConfig, extra := .rest d }

def AutoscaleConfig.validate (v : Json) : Option AutoscaleConfig := do
  let d ← entries v
  let enabled ← withDefault d.1 "enabled" false py.bool
  let minReady ← withDefault d.1 "min_ready" 1 py.int
  let minWarm ← withDefault d.1 "min_warm" 1 py.int
  let maxReady ← withDefault d.1 "max_ready" none (optional py.int)
  let scaleUpWaiting ← withDefault d.1 "scale_up_waiting" ⟨4, "4.0"⟩ py.float
  let scaleUpWindowS ← withDefault d.1 "scale_up_window_s" ⟨20, "20.0"⟩ py.float
  let sleepAfterS ← withDefault d.1 "sleep_after_s" ⟨180, "180.0"⟩ py.float
  let stopAfterS ← withDefault d.1 "stop_after_s" ⟨900, "900.0"⟩ py.float
  let cooldownS ← withDefault d.1 "cooldown_s" ⟨60, "60.0"⟩ py.float
  return { enabled, minReady, minWarm, maxReady, scaleUpWaiting, scaleUpWindowS, sleepAfterS,
           stopAfterS, cooldownS, extra := .rest d }

/-- The key that holds the settings of a group: the alias, else the field's own name
(`populate_by_name`). -/
def settingsKey (d : Dict Json) : String := if d.has "model_config" then "model_config" else "settings"

/-- A `settings` beside a `model_config` is an extra field. -/
def LLMEngine.validate (v : Json) : Option LLMEngine := do
  let d ← entries v
  let instances ← withDefault d.1 "instances" [] (listOf (InstanceConfig.validate py))
  let settings ← required d.1 (settingsKey d.1) (EngineModelConfig.validate py)
  let autoscale ← withDefault d.1 "autoscale" none (optional (AutoscaleConfig.validate py))
  let fallback ← withDefault d.1 "fallback" none (optional (listOf Json.asStr))
  return { instances, settings, autoscale, fallback, extra := .rest d [settingsKey d.1] }

def EmbeddingModelEntry.validate (v : Json) : Option EmbeddingModelEntry := do
  let d ← entries v
  let modelName ← required d.1 "model_name" Json.asStr
  let modelPath ← withDefault d.1 "model_path" none (optional Json.asStr)
  let tokenizerPath ← withDefault d.1 "tokenizer_path" none (optional Json.asStr)
  let maxLength ← withDefault d.1 "max_length" 512 py.int
  let useGpu ← withDefault d.1 "use_gpu" true py.bool
  let useFloat16 ← withDefault d.1 "use_float16" true py.bool
  return { modelName, modelPath, tokenizerPath, maxLength, useGpu, useFloat16, extra := .rest d }

def EmbeddingServer.validate (v : Json) : Option EmbeddingServer := do
  let d ← entries v
  let host ← withDefault d.1 "host" "localhost" Json.asStr
  let port ← required d.1 "port" py.int
  let cudaDevice ← withDefault d.1 "cuda_device" none (optional py.int)
  let embeddingModels ←
    withDefault d.1 "embedding_models" [] (dictOf (EmbeddingModelEntry.validate py))
  let rerankingModels ←
    withDefault d.1 "reranking_models" [] (dictOf (EmbeddingModelEntry.validate py))
  return { host, port, cudaDevice, embeddingModels, rerankingModels, extra := .rest d }

def RootConfig.validate (v : Json) : Option RootConfig := do
  let d ← entries v
  let server ← required d.1 "server" (ServerConfig.validate py)
  let llmEngines ← withDefault d.1 "LLM_engines" [] (dictOf (LLMEngine.validate py))
  let embeddingServer ← withDefault d.1 "embedding_server" none (optional (EmbeddingServer.validate py))
  if unique : Dict.Unique llmEngines then
    return { server, llmEngines, embeddingServer, extra := .rest d, unique }
  else none

end Validate

/-! ## What a validated model says about its source -/

section Source

variable {py : Pydantic} {v : Json}

theorem InstanceConfig.source {c : InstanceConfig} (h : InstanceConfig.validate py v = some c) :
    ∃ d : Dict Json, v = .obj d ∧ d.get "id" = some (.str c.id) ∧
      (d.get "host").getD (.str "localhost") = .str c.host ∧
      ∃ p, d.get "port" = some p ∧ py.int p = some c.port := by
  simp only [InstanceConfig.validate, Option.bind_eq_bind, Option.pure_def,
    Option.bind_eq_some_iff, required_eq_some, withDefault_eq_some, Json.asStr_eq_some] at h
  obtain ⟨⟨d, hd⟩, hv, id, ⟨_, hid, rfl⟩, host, hhost, port, hport, _, _, hc⟩ := h
  cases hc
  refine ⟨d, entries_eq_some.mp hv, hid, ?_, hport⟩
  obtain ⟨hn, rfl⟩ | ⟨_, hs, rfl⟩ := hhost
  · rw [hn]
    rfl
  · rw [hs]
    rfl

theorem LLMEngine.source {c : LLMEngine} (h : LLMEngine.validate py v = some c) :
    ∃ d : Dict Json, v = .obj d ∧
      (∃ xs, (d.get "instances").getD (.arr []) = .arr xs ∧
        xs.mapM (InstanceConfig.validate py) = some c.instances) ∧
      (∃ s, d.get (settingsKey d) = some s ∧ EngineModelConfig.validate py s = some c.settings) ∧
      (d.get "fallback").elim (c.fallback = none)
        (fun f => optional (listOf Json.asStr) f = some c.fallback) := by
  simp only [LLMEngine.validate, Option.bind_eq_bind, Option.pure_def,
    Option.bind_eq_some_iff, required_eq_some, withDefault_eq_some, listOf_eq_some] at h
  obtain ⟨⟨d, hd⟩, hv, insts, hinsts, s, hs, a, -, f, hf, hc⟩ := h
  cases hc
  refine ⟨d, entries_eq_some.mp hv, ?_, hs, ?_⟩
  · obtain ⟨hn, rfl⟩ | ⟨_, hx, xs, rfl, hxs⟩ := hinsts
    · rw [hn]
      exact ⟨[], rfl, rfl⟩
    · rw [hx]
      exact ⟨xs, rfl, hxs⟩
  · obtain ⟨hn, rfl⟩ | ⟨_, hx, hf⟩ := hf
    · rw [hn]
      rfl
    · rw [hx]
      exact hf

theorem RootConfig.source {c : RootConfig} (h : RootConfig.validate py v = some c) :
    ∃ d : Dict Json, v = .obj d ∧
      (∃ e, (d.get "LLM_engines").getD (.obj []) = .obj e ∧
        Dict.mapValues (LLMEngine.validate py) e = some c.llmEngines) ∧
      (d.get "embedding_server").elim (c.embeddingServer = none)
        (fun f => optional (EmbeddingServer.validate py) f = some c.embeddingServer) := by
  simp only [RootConfig.validate, Option.bind_eq_bind, Option.pure_def,
    Option.bind_eq_some_iff, withDefault_eq_some, dictOf_eq_some] at h
  obtain ⟨⟨d, hd⟩, hv, _, -, engines, hengines, f, hf, hc⟩ := h
  split_ifs at hc
  cases hc
  refine ⟨d, entries_eq_some.mp hv, ?_, ?_⟩
  · obtain ⟨hn, rfl⟩ | ⟨_, hx, e, rfl, he⟩ := hengines
    · rw [hn]
      exact ⟨[], rfl, rfl⟩
    · rw [hx]
      exact ⟨e, rfl, he⟩
  · obtain ⟨hn, rfl⟩ | ⟨_, hx, hf⟩ := hf
    · rw [hn]
      rfl
    · rw [hx]
      exact hf

end Source

/-! ## `model_dump(by_alias=True)` -/

def ServerConfig.dump (c : ServerConfig) : Dict Json :=
  c.extra.after
    [("host", .str c.host), ("port", .int c.port), ("uvicorn_log_level", .str c.uvicornLogLevel)]

def InstanceConfig.dump (c : InstanceConfig) : Dict Json :=
  c.extra.after
    [("id", .str c.id), ("host", .str c.host), ("port", .int c.port),
      ("cuda_device", .ofOption .int c.cudaDevice)]

def LoraModule.dump (c : LoraModule) : Dict Json :=
  c.extra.after
    [("name", .str c.name), ("path", .str c.path),
      ("base_model_name", .ofOption .str c.baseModelName)]

def EngineModelConfig.dump (c : EngineModelConfig) : Dict Json :=
  c.extra.after
    [("model_tag", .str c.modelTag), ("engine", .str c.engine.name), ("kind", .str c.kind.name),
      ("dtype", .ofOption .str c.dtype), ("max_model_len", .ofOption .int c.maxModelLen),
      ("gpu_memory_utilization", .ofOption .float c.gpuMemoryUtilization),
      ("tensor_parallel_size", .int c.tensorParallelSize),
      ("lora_modules", .ofOption (fun ms => .arr (ms.map (.obj ·.dump))) c.loraModules),
      ("kv_transfer_config", .ofOption .obj c.kvTransferConfig)]

def AutoscaleConfig.dump (c : AutoscaleConfig) : Dict Json :=
  c.extra.after
    [("enabled", .bool c.enabled), ("min_ready", .int c.minReady), ("min_warm", .int c.minWarm),
      ("max_ready", .ofOption .int c.maxReady), ("scale_up_waiting", .float c.scaleUpWaiting),
      ("scale_up_window_s", .float c.scaleUpWindowS), ("sleep_after_s", .float c.sleepAfterS),
      ("stop_after_s", .float c.stopAfterS), ("cooldown_s", .float c.cooldownS)]

def LLMEngine.dump (c : LLMEngine) : Dict Json :=
  c.extra.after
    [("instances", .arr (c.instances.map (.obj ·.dump))), ("model_config", .obj c.settings.dump),
      ("autoscale", .ofOption (.obj ·.dump) c.autoscale),
      ("fallback", .ofOption (fun gs => .arr (gs.map .str)) c.fallback)]

def EmbeddingModelEntry.dump (c : EmbeddingModelEntry) : Dict Json :=
  c.extra.after
    [("model_name", .str c.modelName), ("model_path", .ofOption .str c.modelPath),
      ("tokenizer_path", .ofOption .str c.tokenizerPath), ("max_length", .int c.maxLength),
      ("use_gpu", .bool c.useGpu), ("use_float16", .bool c.useFloat16)]

def EmbeddingServer.dump (c : EmbeddingServer) : Dict Json :=
  c.extra.after
    [("host", .str c.host), ("port", .int c.port),
      ("cuda_device", .ofOption .int c.cudaDevice),
      ("embedding_models", .obj (c.embeddingModels.map fun p => (p.1, .obj p.2.dump))),
      ("reranking_models", .obj (c.rerankingModels.map fun p => (p.1, .obj p.2.dump)))]

def RootConfig.dump (c : RootConfig) : Dict Json :=
  c.extra.after
    [("server", .obj c.server.dump),
      ("LLM_engines", .obj (c.llmEngines.map fun p => (p.1, .obj p.2.dump))),
      ("embedding_server", .ofOption (.obj ·.dump) c.embeddingServer)]

end Llmops.Config
