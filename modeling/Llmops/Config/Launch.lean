import Llmops.Instance
import Llmops.Lib.JsonText
import Llmops.Lib.Text
import Llmops.Config.Schema

/-!
# Launchers (`llmops/launchers.py`)

A launcher lists the instance keys that a configuration defines for its engine and builds the
`LaunchSpec` of a key. The two LLM launchers are one definition with parameters (`LlmLauncher`): they
resolve the key, overlay the instance's fields on the group's settings and differ in the command line
they make of them. An argument that is no string, such as a `model_tag` that an instance overrides with
a number, is kept as its text.

* `LlmLauncher.buildSpec_eq_ok`: what a spec says, and of which group and instance;
* `vllm_command_isOk`, `sglang_command_isOk`: the settings a command line can be built from.
-/

namespace Llmops.Config

open Lib

/-- What the configuration operations raise. `illTyped` stands for the errors of pydantic and of
Python on values of the wrong shape, whose texts are not modelled. -/
inductive Raised where
  | modelNotFound (key : String)
  | modelConflict (message : String)
  | configInvalid (message : String)
  | keyError (message : String)
  | valueError (message : String)
  | illTyped
  | notSaved
  deriving DecidableEq, Repr

/-- The value, or what a wrong shape raises. -/
def orRaise {α : Type} (error : Raised) : Option α → Except Raised α
  | none => .error error
  | some a => .ok a

theorem orRaise_eq_ok {α : Type} {error : Raised} {o : Option α} {a : α} :
    orRaise error o = .ok a ↔ o = some a := by
  cases o <;> simp [orRaise]

theorem bind_eq_ok {α β : Type} {x : Except Raised α} {f : α → Except Raised β} {b : β} :
    (x >>= f) = .ok b ↔ ∃ a, x = .ok a ∧ f a = .ok b := by
  cases x <;> simp [bind, Except.bind]

theorem toOption_eq_some {ε α : Type} {x : Except ε α} {a : α} :
    x.toOption = some a ↔ x = .ok a := by
  cases x <;> simp [Except.toOption]

/-- The surroundings of the backend process that launchers read. `effectiveConfig` is `none` when the
merged configuration cannot be dumped; the embedding server then gets `configPath`. -/
structure LaunchEnv where
  executable : String := "python"
  routerRoot : String := "router-server"
  embeddingScript : String := "embedding_reranker_launcher.py"
  configPath : String := "config.yaml"
  effectiveConfig : Option String := some "llmops_effective_config.yaml"
  bindHost : String := ""
  printable : Char → Bool := fun _ => true

namespace LaunchEnv

variable (env : LaunchEnv)

/-- `str(v)`. -/
def str (v : Json) : String := pyStr env.printable v

end LaunchEnv

/-- `os.path.join(LOG_DIR, name)`: an absolute name stands alone. -/
def logPath (name : String) : String :=
  if name.toList.head? = some '/' then name else "./logs/" ++ name

/-- `key.replace("_", "-")`. -/
def kebab (key : String) : String := key.map fun c => if c = '_' then '-' else c

/-- `d.get(key)` in a condition. -/
def isSet (d : Dict Json) (key : String) : Bool := (d.get key).any Json.truthy

def routerOnlyKeys : List String := ["routing_strategy", "kind", "engine"]

/-! ## The vLLM command line -/

def skipCliKeys : List String := ["model_tag", "allow_runtime_lora"] ++ routerOnlyKeys

/-- The modules of `--lora-modules`: without their null fields, and only those with a name. -/
def vllmLoraModules (value : Json) : Option (List (Dict Json)) := do
  let ms ← ((← value.iter).filter Json.truthy).mapM Json.asObj
  let modules := ms.map fun m => m.filter fun p => !(p.2 matches .null)
  return modules.filter fun m => isSet m "name"

/-- The arguments that one setting becomes. -/
def vllmFlag (env : LaunchEnv) (p : String × Json) : Option (List String) :=
  let flag := "--" ++ kebab p.1
  if p.1 ∈ skipCliKeys then some []
  else
    match p.2 with
    | .null => some []
    | value =>
      if p.1 = "lora_modules" then
        (vllmLoraModules value).map fun ms =>
          if ms.isEmpty then [] else flag :: ms.map fun m => dumps false (.obj m)
      else
        some <|
          match value with
          | .bool b => [if b then flag else "--no-" ++ kebab p.1]
          | .arr _ => [flag, dumps true value]
          | .obj _ => [flag, dumps false value]
          | _ => [flag, env.str value]

/-- `build_vllm_cli_args`. -/
def buildVllmCliArgs (env : LaunchEnv) (modelCfg : Dict Json) : Except Raised (List String) :=
  match (modelCfg.get "model_tag").filter Json.truthy with
  | none => .error (.valueError "model_config must provide 'model_tag'")
  | some modelTag =>
    let cfg :=
      if isSet modelCfg "enable_lora" && !modelCfg.has "max_loras" then
        modelCfg.set "max_loras" (.int 4)
      else modelCfg
    (orRaise .illTyped (cfg.mapM (vllmFlag env))).map fun flags =>
      ["serve", env.str modelTag] ++ flags.flatten

/-- The value of `lora_modules` that the vLLM command line accepts. -/
def VllmLora (cfg : Dict Json) : Prop :=
  ∀ v, ("lora_modules", v) ∈ cfg → v = .null ∨
    ∃ ms, v.iter = some ms ∧ ∀ m ∈ ms, m.truthy → ∃ d, m = .obj d

theorem vllmLoraModules_isSome {v : Json} :
    (vllmLoraModules v).isSome ↔
      ∃ ms, v.iter = some ms ∧ ∀ m ∈ ms, m.truthy → ∃ d, m = .obj d := by
  unfold vllmLoraModules
  cases v.iter with
  | none => simp
  | some ms =>
    have hms : ((ms.filter Json.truthy).mapM Json.asObj).isSome ↔
        ∀ m ∈ ms, m.truthy → ∃ d, m = .obj d := by
      rw [mapM_isSome_iff]
      constructor
      · intro h m hm ht
        obtain ⟨d, hd⟩ := Option.isSome_iff_exists.mp (h m (List.mem_filter.mpr ⟨hm, ht⟩))
        exact ⟨d, Json.asObj_eq_some.mp hd⟩
      · intro h m hm
        obtain ⟨hm, ht⟩ := List.mem_filter.mp hm
        obtain ⟨d, rfl⟩ := h m hm ht
        rfl
    rw [Option.bind_eq_bind, Option.bind_some]
    cases hmap : (ms.filter Json.truthy).mapM Json.asObj with
    | none =>
      rw [hmap] at hms
      simpa using hms
    | some ds =>
      rw [hmap] at hms
      simpa using hms

theorem vllmFlag_isSome {env : LaunchEnv} {p : String × Json} :
    (vllmFlag env p).isSome ↔ (p.1 = "lora_modules" → p.2 = .null ∨
      ∃ ms, p.2.iter = some ms ∧ ∀ m ∈ ms, m.truthy → ∃ d, m = .obj d) := by
  by_cases hlora : p.1 = "lora_modules"
  · have hskip : p.1 ∉ skipCliKeys := by rw [hlora]; decide
    have hval (v : Json) : v ≠ .null → (vllmFlag env (p.1, v)).isSome = (vllmLoraModules v).isSome := by
      intro hv
      rw [vllmFlag, if_neg hskip]
      cases v <;> simp [hlora] at hv ⊢
    have hpair : p = (p.1, p.2) := rfl
    rw [← vllmLoraModules_isSome, hpair]
    cases hv : p.2 with
    | null => simp [vllmFlag, hskip]
    | _ =>
      rw [hval _ (by simp)]
      simp [hlora]
  · simp only [vllmFlag, hlora, if_false, false_implies, iff_true]
    by_cases hskip : p.1 ∈ skipCliKeys
    · rw [if_pos hskip]
      rfl
    · rw [if_neg hskip]
      cases p.2 <;> rfl

/-- **The vLLM command line** can be built from settings with a model tag and adapters that are
listed as objects. -/
theorem buildVllmCliArgs_isOk {env : LaunchEnv} {cfg : Dict Json} :
    (∃ args, buildVllmCliArgs env cfg = .ok args) ↔ isSet cfg "model_tag" ∧ VllmLora cfg := by
  unfold buildVllmCliArgs isSet
  cases htag : cfg.get "model_tag" with
  | none => simp
  | some tag =>
    by_cases ht : tag.truthy
    · simp only [Option.filter_some_pos ht, Option.any_some, ht, true_and]
      have hflags (cfg' : Dict Json) : (∃ args, (orRaise .illTyped (cfg'.mapM (vllmFlag env))).map
          (fun flags => ["serve", env.str tag] ++ flags.flatten) = .ok args) ↔ VllmLora cfg' := by
        have hsome := @mapM_isSome_iff _ _ (vllmFlag env) cfg'
        simp only [vllmFlag_isSome] at hsome
        rw [show VllmLora cfg' ↔ (cfg'.mapM (vllmFlag env)).isSome from ?_]
        · cases cfg'.mapM (vllmFlag env) <;> simp [orRaise, Except.map]
        · rw [hsome]
          constructor
          · intro h p hp hlora
            exact h p.2 (hlora ▸ hp)
          · exact fun h v hv => h _ hv rfl
      rw [hflags]
      split_ifs
      · unfold VllmLora
        simp only [Dict.mem_set_of_ne (show "lora_modules" ≠ "max_loras" by decide)]
      · rfl
    · have hf : tag.truthy = false := by simpa using ht
      simp [Option.filter_some_neg hf, hf]

/-! ## The SGLang command line -/

def sglangParamMap : Dict String :=
  [("max_model_len", "context-length"), ("gpu_memory_utilization", "mem-fraction-static"),
    ("tensor_parallel_size", "tp-size")]

def sglangSkipCliKeys : List String :=
  ["model_tag", "served_model_name", "id", "cuda_device", "enable_lora", "lora_modules",
    "enable_metrics", "allow_runtime_lora"] ++ routerOnlyKeys

/-- `NAME=PATH` of the modules that have both. -/
def sglangLoraPaths (env : LaunchEnv) (modules : Json) : Option (List String) := do
  let ms ← (← modules.iter).mapM Json.asObj
  return (ms.filter fun m => isSet m "name" && isSet m "path").map fun m =>
    env.str ((m.get "name").getD .null) ++ "=" ++ env.str ((m.get "path").getD .null)

/-- The LoRA arguments. -/
def sglangLora (env : LaunchEnv) (modelCfg : Dict Json) : Option (List String) :=
  let modules := ((modelCfg.get "lora_modules").filter Json.truthy).getD (.arr [])
  if isSet modelCfg "enable_lora" || isSet modelCfg "allow_runtime_lora" || modules.truthy then
    (sglangLoraPaths env modules).map fun paths =>
      "--enable-lora" :: if paths.isEmpty then [] else "--lora-paths" :: paths
  else some []

/-- The arguments that one setting becomes. A false switch is left out: SGLang has no `--no-` form. -/
def sglangFlag (env : LaunchEnv) (p : String × Json) : List String :=
  let flag := "--" ++ kebab ((sglangParamMap.get p.1).getD p.1)
  if p.1 ∈ sglangSkipCliKeys then []
  else
    match p.2 with
    | .null => []
    | .bool b => if b then [flag] else []
    | .arr xs => flag :: xs.map env.str
    | .obj d => [flag, dumps false (.obj d)]
    | value => [flag, env.str value]

/-- `build_sglang_cli_args`. -/
def buildSglangCliArgs (env : LaunchEnv) (modelCfg : Dict Json) : Except Raised (List String) :=
  match (modelCfg.get "model_tag").filter Json.truthy with
  | none => .error (.valueError "model_config must provide 'model_tag'")
  | some modelTag =>
    let served := ((modelCfg.get "served_model_name").filter Json.truthy).getD modelTag
    (orRaise .illTyped (sglangLora env modelCfg)).map fun lora =>
      ["--model-path", env.str modelTag, "--served-model-name", env.str served,
        "--enable-metrics"] ++ lora ++ modelCfg.flatMap (sglangFlag env)

/-- The value of `lora_modules` that the SGLang command line accepts. -/
def SglangLora (cfg : Dict Json) : Prop :=
  ∀ v, cfg.get "lora_modules" = some v → v.truthy →
    ∃ ms, v.iter = some ms ∧ ∀ m ∈ ms, ∃ d, m = .obj d

theorem sglangLoraPaths_isSome {env : LaunchEnv} {v : Json} :
    (sglangLoraPaths env v).isSome ↔ ∃ ms, v.iter = some ms ∧ ∀ m ∈ ms, ∃ d, m = .obj d := by
  unfold sglangLoraPaths
  cases v.iter with
  | none => simp
  | some ms =>
    have hms : (ms.mapM Json.asObj).isSome ↔ ∀ m ∈ ms, ∃ d, m = .obj d := by
      rw [mapM_isSome_iff]
      refine forall₂_congr fun m _ => ?_
      rw [Option.isSome_iff_exists]
      exact exists_congr fun d => Json.asObj_eq_some
    rw [Option.bind_eq_bind, Option.bind_some]
    cases hmap : ms.mapM Json.asObj with
    | none =>
      rw [hmap] at hms
      simpa using hms
    | some ds =>
      rw [hmap] at hms
      simpa using hms

theorem sglangLora_isSome {env : LaunchEnv} {cfg : Dict Json} :
    (sglangLora env cfg).isSome ↔ SglangLora cfg := by
  have hempty : (sglangLoraPaths env (.arr [])).isSome := rfl
  unfold sglangLora SglangLora
  cases hv : cfg.get "lora_modules" with
  | none =>
    simp only [Option.filter_none, Option.getD_none]
    split_ifs <;> simp [hempty]
  | some v =>
    by_cases ht : v.truthy
    · simp only [Option.filter_some_pos ht, Option.getD_some, ht, Bool.or_true, if_true,
        Option.isSome_map, sglangLoraPaths_isSome, Option.some.injEq, forall_eq', forall_const]
    · have hf : v.truthy = false := by simpa using ht
      simp only [Option.filter_some_neg hf, Option.getD_none, Option.some.injEq, forall_eq', hf,
        Bool.false_eq_true, false_implies, iff_true]
      split_ifs <;> simp [hempty]

/-- **The SGLang command line** can be built from settings with a model tag and adapters that are
listed as objects. -/
theorem buildSglangCliArgs_isOk {env : LaunchEnv} {cfg : Dict Json} :
    (∃ args, buildSglangCliArgs env cfg = .ok args) ↔ isSet cfg "model_tag" ∧ SglangLora cfg := by
  rw [← @sglangLora_isSome env cfg]
  unfold buildSglangCliArgs isSet
  cases cfg.get "model_tag" with
  | none => simp
  | some tag =>
    by_cases ht : tag.truthy
    · simp only [Option.filter_some_pos ht, Option.any_some, ht, true_and]
      cases sglangLora env cfg <;> simp [orRaise, Except.map]
    · have hf : tag.truthy = false := by simpa using ht
      simp [Option.filter_some_neg hf, hf]

/-! ## The LLM launchers -/

/-- A key: `f"{group}::{instance_id}"`. -/
def glue (group instanceId : String) : String := group ++ "::" ++ instanceId

/-- A group name that its keys give back: it has no `::` in it and does not end with `:`. -/
def Splits (group : String) : Prop := ¬ [':', ':'] <:+: group.toList ++ [':']

instance (group : String) : Decidable (Splits group) :=
  inferInstanceAs (Decidable (¬ [':', ':'] <:+: group.toList ++ [':']))

/-- **A key splits back** exactly if the name of its group does. -/
theorem partition_glue {group instanceId : String} :
    partition (glue group instanceId) "::" = (group, instanceId) ↔ Splits group := by
  have hkey : (glue group instanceId).toList = group.toList ++ ':' :: ':' :: instanceId.toList := by
    simp [glue]
  unfold Splits
  rw [← @splitFirst_eq_iff ':' group.toList instanceId.toList, partition, hkey,
    show "::".toList = [':', ':'] from rfl]
  cases hs : splitFirst [':', ':'] (group.toList ++ ':' :: ':' :: instanceId.toList) with
  | none =>
    simp only [reduceCtorEq, iff_false, Prod.mk.injEq, not_and]
    intro h
    have hlen := congrArg (fun s => s.toList.length) h
    simp [glue] at hlen
  | some parts =>
    obtain ⟨before, after⟩ := parts
    simp only [Prod.mk.injEq, Option.some.injEq]
    constructor
    · rintro ⟨rfl, rfl⟩
      simp
    · rintro ⟨rfl, rfl⟩
      simp

example : Splits "Qwen/Qwen3" ∧ ¬ Splits "a::b" ∧ ¬ Splits "a:" := by decide

theorem glue_injective {g g' i i' : String} (hg : Splits g) (hg' : Splits g')
    (h : glue g i = glue g' i') : g = g' ∧ i = i' := by
  have hsplit : partition (glue g i) "::" = (g, i) := partition_glue.mpr hg
  have hsplit' : partition (glue g' i') "::" = (g', i') := partition_glue.mpr hg'
  rw [h, hsplit'] at hsplit
  exact ⟨(congrArg Prod.fst hsplit).symm, (congrArg Prod.snd hsplit).symm⟩

theorem glue_right_injective {g i i' : String} (h : glue g i = glue g i') : i = i' := by
  have hlist := congrArg String.toList h
  refine String.toList_injective ?_
  simpa [glue] using hlist

/-- A key is glued of its parts, whatever the name of its group. -/
theorem glue_partition (g i : String) :
    glue (partition (glue g i) "::").1 (partition (glue g i) "::").2 = glue g i := by
  have hkey : (glue g i).toList = g.toList ++ [':', ':'] ++ i.toList := by simp [glue]
  unfold partition
  rw [show "::".toList = [':', ':'] from rfl, hkey]
  obtain hsome | hnil := @splitFirst_isSome [':', ':'] g.toList i.toList
  · obtain ⟨⟨before, after⟩, hparts⟩ := Option.isSome_iff_exists.mp hsome
    rw [hparts]
    have happend := splitFirst_append hparts
    rw [← hkey] at happend
    refine String.toList_injective ?_
    rw [happend]
    simp [glue]
  · cases hnil

/-- What the two LLM launchers differ in. -/
structure LlmLauncher where
  engine : Engine
  capabilities : List String
  command : LaunchEnv → Dict Json → Except Raised (List String)
  extraEnv : Dict Json → Dict String := fun _ => []
  sleepEnabled : Dict Json → Bool := fun _ => false

/-- `VllmLauncher`. -/
def vllmLauncher : LlmLauncher where
  engine := .vllm
  capabilities := ["sleep", "runtime_lora", "lora_modules", "kv_transfer", "metrics_vllm"]
  command env cfg := (buildVllmCliArgs env cfg).map ("vllm" :: ·)
  extraEnv merged :=
    (if isSet merged "allow_runtime_lora" then [("VLLM_ALLOW_RUNTIME_LORA_UPDATING", "True")]
      else []) ++
    (if isSet merged "kv_transfer_config" then [("PYTHONHASHSEED", "0")] else []) ++
    (if isSet merged "enable_sleep_mode" then [("VLLM_SERVER_DEV_MODE", "1")] else [])
  sleepEnabled merged := isSet merged "enable_sleep_mode"

/-- `SglangLauncher`. -/
def sglangLauncher : LlmLauncher where
  engine := .sglang
  capabilities := ["runtime_lora", "lora_modules", "metrics_sglang"]
  command env cfg :=
    (buildSglangCliArgs env cfg).map ([env.executable, "-m", "sglang.launch_server"] ++ ·)

/-- The group and the instance that a key names. -/
def resolve (config : RootConfig) (key : String) : Except Raised (LLMEngine × InstanceConfig) :=
  let (group, instanceId) := partition key "::"
  match config.llmEngines.get group with
  | none => .error (.keyError ("model group '" ++ group ++ "' not in config"))
  | some engine =>
    match engine.instances.find? (·.id = instanceId) with
    | none =>
      .error (.keyError ("instance '" ++ instanceId ++ "' not in group '" ++ group ++ "'"))
    | some inst => .ok (engine, inst)

theorem resolve_eq_ok {config : RootConfig} {key : String} {engine : LLMEngine}
    {inst : InstanceConfig} :
    resolve config key = .ok (engine, inst) ↔
      config.llmEngines.get (partition key "::").1 = some engine ∧
        engine.instances.find? (·.id = (partition key "::").2) = some inst := by
  unfold resolve
  dsimp only
  cases config.llmEngines.get (partition key "::").1 with
  | none => simp
  | some e =>
    cases hfind : e.instances.find? (·.id = (partition key "::").2) with
    | none =>
      simp only [hfind, reduceCtorEq, Option.some.injEq, false_iff, not_and]
      rintro rfl
      simp [hfind]
    | some i =>
      simp only [hfind, Except.ok.injEq, Prod.mk.injEq, Option.some.injEq]
      constructor
      · rintro ⟨rfl, rfl⟩
        exact ⟨rfl, hfind⟩
      · rintro ⟨rfl, h⟩
        exact ⟨rfl, Option.some.inj (hfind.symm.trans h)⟩

/-- The settings of a group with the fields of an instance over them. -/
def overlaid (engine : LLMEngine) (inst : InstanceConfig) : Dict Json :=
  engine.settings.dump.update inst.dump

/-- With one GPU the device is not an argument but an environment variable. -/
def takeCuda (env : LaunchEnv) (merged : Dict Json) : Dict Json × Dict String :=
  if ((merged.get "tensor_parallel_size").getD (.int 1)).scalar = some (.num 1) then
    (merged.pop "cuda_device",
      match (merged.get "cuda_device").getD .null with
      | .null => []
      | device => [("CUDA_VISIBLE_DEVICES", env.str device)])
  else (merged, [])

/-- The settings the command line is built from: `--host` is the bind address, if one is set. -/
def cliConfig (env : LaunchEnv) (engine : LLMEngine) (inst : InstanceConfig) : Dict Json :=
  let merged := (takeCuda env (overlaid engine inst)).1.pop "id"
  let bindHost := strip env.bindHost
  if bindHost = "" then merged else merged.set "host" (.str bindHost)

namespace LlmLauncher

variable (r : LlmLauncher)

/-- `keys`. -/
def keys (config : RootConfig) : List String :=
  (config.llmEngines.filter fun p => p.2.settings.engine = r.engine).flatMap fun p =>
    p.2.instances.map fun inst => glue p.1 inst.id

/-- `build_spec`. -/
def buildSpec (env : LaunchEnv) (config : RootConfig) (key : String) : Except Raised LaunchSpec := do
  let (engine, inst) ← resolve config key
  let (group, instanceId) := partition key "::"
  let (merged, cuda) := takeCuda env (overlaid engine inst)
  let merged := merged.pop "id"
  let command ← r.command env (cliConfig env engine inst)
  return {
    key
    kind := .llm
    engine := r.engine.name
    capabilities := r.capabilities
    command
    env := cuda ++ r.extraEnv merged
    logPath := logPath (group ++ "__" ++ instanceId ++ ".log")
    host := inst.host
    port := inst.port
    probeUrl := "http://" ++ inst.host ++ ":" ++ toString inst.port ++ "/health"
    modelTag := some engine.settings.modelTag
    sleepEnabled := r.sleepEnabled merged }

theorem mem_keys {config : RootConfig} {key : String} :
    key ∈ r.keys config ↔ ∃ group engine inst, (group, engine) ∈ config.llmEngines ∧
      engine.settings.engine = r.engine ∧ inst ∈ engine.instances ∧ glue group inst.id = key := by
  simp only [keys, List.mem_flatMap, List.mem_filter, List.mem_map, decide_eq_true_eq, Prod.exists]
  constructor
  · rintro ⟨group, engine, ⟨hmem, he⟩, inst, hinst, rfl⟩
    exact ⟨group, engine, inst, hmem, he, hinst, rfl⟩
  · rintro ⟨group, engine, inst, hmem, he, hinst, rfl⟩
    exact ⟨group, engine, ⟨hmem, he⟩, inst, hinst, rfl⟩

variable {r}

/-- What a spec says: it is of the group and instance that the key names, and of the launcher's
engine, whatever the group's is. -/
theorem buildSpec_eq_ok {env : LaunchEnv} {config : RootConfig} {key : String} {spec : LaunchSpec}
    (h : r.buildSpec env config key = .ok spec) :
    ∃ engine inst, resolve config key = .ok (engine, inst) ∧
      (∃ command, r.command env (cliConfig env engine inst) = .ok command) ∧
      spec.key = key ∧ spec.kind = .llm ∧ spec.engine = r.engine.name ∧ spec.host = inst.host ∧
      spec.port = inst.port ∧ spec.modelTag = some engine.settings.modelTag := by
  unfold buildSpec at h
  cases hresolve : resolve config key with
  | error => rw [hresolve] at h; cases h
  | ok pair =>
    obtain ⟨engine, inst⟩ := pair
    rw [hresolve] at h
    cases hcommand : r.command env (cliConfig env engine inst) with
    | error =>
      simp [bind, Except.bind, hcommand] at h
    | ok command =>
      simp only [bind, Except.bind, hcommand, pure, Except.pure, Except.ok.injEq] at h
      subst h
      exact ⟨engine, inst, rfl, ⟨command, hcommand⟩, rfl, rfl, rfl, rfl, rfl, rfl⟩

theorem buildSpec_isOk {env : LaunchEnv} {config : RootConfig} {key : String} {engine : LLMEngine}
    {inst : InstanceConfig} (hresolve : resolve config key = .ok (engine, inst))
    (hcommand : ∃ command, r.command env (cliConfig env engine inst) = .ok command) :
    ∃ spec, r.buildSpec env config key = .ok spec := by
  obtain ⟨command, hcommand⟩ := hcommand
  unfold buildSpec
  rw [hresolve]
  simp [bind, Except.bind, hcommand, pure, Except.pure]

end LlmLauncher

/-- The launcher that an engine has. -/
def Engine.launcher : Engine → Option LlmLauncher
  | .vllm => some vllmLauncher
  | .sglang => some sglangLauncher
  | .llamacpp | .trtllm => none

/-- The settings from which the launcher of an engine builds a command line. -/
def CommandLine (engine : Engine) (cfg : Dict Json) : Prop :=
  isSet cfg "model_tag" ∧ if engine = .sglang then SglangLora cfg else VllmLora cfg

theorem command_isOk {engine : Engine} {r : LlmLauncher} (hr : engine.launcher = some r)
    {env : LaunchEnv} {cfg : Dict Json} :
    (∃ command, r.command env cfg = .ok command) ↔ CommandLine engine cfg := by
  unfold CommandLine
  cases engine with
  | vllm =>
    cases hr
    rw [if_neg (by decide), ← @buildVllmCliArgs_isOk env cfg]
    simp only [vllmLauncher]
    cases buildVllmCliArgs env cfg <;> simp [Except.map]
  | sglang =>
    cases hr
    rw [if_pos rfl, ← @buildSglangCliArgs_isOk env cfg]
    simp only [sglangLauncher]
    cases buildSglangCliArgs env cfg <;> simp [Except.map]
  | llamacpp => cases hr
  | trtllm => cases hr

theorem launcher_engine {engine : Engine} {r : LlmLauncher} (hr : engine.launcher = some r) :
    r.engine = engine := by
  cases engine <;> cases hr <;> rfl

/-! ## The embedding launcher -/

/-- `EMBEDDING_KEY`. -/
def embeddingKey : String := "embedding::default"

/-- The embedding server that there is something to launch for. -/
def servedEmbedding (config : RootConfig) : Option EmbeddingServer :=
  config.embeddingServer.filter fun emb =>
    !emb.embeddingModels.isEmpty || !emb.rerankingModels.isEmpty

/-- `EmbeddingLauncher.keys`. -/
def embeddingKeys (config : RootConfig) : List String :=
  if (servedEmbedding config).isSome then [embeddingKey] else []

/-- `EmbeddingLauncher.build_spec`. -/
def buildEmbeddingSpec (env : LaunchEnv) (config : RootConfig) (key : String) :
    Except Raised LaunchSpec :=
  match servedEmbedding config with
  | none => .error (.keyError "no embedding/reranking models configured")
  | some emb => .ok {
      key
      kind := .embedding
      engine := "default"
      capabilities := []
      command := [env.executable, env.embeddingScript, "--config",
        env.effectiveConfig.getD env.configPath]
      env := ("PYTHONPATH", env.routerRoot) ::
        match emb.cudaDevice with
        | none => []
        | some device => [("CUDA_VISIBLE_DEVICES", toString device)]
      logPath := logPath "embedding_server.log"
      host := emb.host
      port := emb.port
      probeUrl := "http://" ++ emb.host ++ ":" ++ toString emb.port ++ "/health" }

theorem buildEmbeddingSpec_of_served {env : LaunchEnv} {config : RootConfig} {key : String}
    {emb : EmbeddingServer} (h : servedEmbedding config = some emb) :
    ∃ spec, buildEmbeddingSpec env config key = .ok spec ∧ spec.key = key ∧
      spec.kind = .embedding ∧ spec.engine = "default" ∧ spec.host = emb.host ∧
      spec.port = emb.port := by
  unfold buildEmbeddingSpec
  rw [h]
  exact ⟨_, rfl, rfl, rfl, rfl, rfl, rfl⟩

theorem buildEmbeddingSpec_eq_ok {env : LaunchEnv} {config : RootConfig} {key : String}
    {spec : LaunchSpec} (h : buildEmbeddingSpec env config key = .ok spec) :
    spec.key = key ∧ spec.kind = .embedding ∧ spec.engine = "default" := by
  cases hemb : servedEmbedding config with
  | none =>
    unfold buildEmbeddingSpec at h
    rw [hemb] at h
    cases h
  | some emb =>
    obtain ⟨spec', hspec', hkey, hkind, hengine, -⟩ := buildEmbeddingSpec_of_served hemb
    rw [h] at hspec'
    cases hspec'
    exact ⟨hkey, hkind, hengine⟩

/-! ## The launchers of the backend -/

/-- `Launcher`. -/
structure Launcher where
  kind : ModelKind
  engine : String
  capabilities : List String
  keys : RootConfig → List String
  buildSpec : RootConfig → String → Except Raised LaunchSpec

def LlmLauncher.toLauncher (r : LlmLauncher) (env : LaunchEnv) : Launcher where
  kind := .llm
  engine := r.engine.name
  capabilities := r.capabilities
  keys := r.keys
  buildSpec := r.buildSpec env

def embeddingLauncher (env : LaunchEnv) : Launcher where
  kind := .embedding
  engine := "default"
  capabilities := []
  keys := embeddingKeys
  buildSpec := buildEmbeddingSpec env

/-- The launchers of the backend, in the order of `main.py`. -/
def launchers (env : LaunchEnv) : List Launcher :=
  [vllmLauncher.toLauncher env, sglangLauncher.toLauncher env, embeddingLauncher env]

/-- `self._launchers.get((kind, engine))`. -/
def launcherFor (env : LaunchEnv) (kind : ModelKind) (engine : String) : Option Launcher :=
  (launchers env).find? fun l => l.kind = kind && l.engine = engine

end Llmops.Config
