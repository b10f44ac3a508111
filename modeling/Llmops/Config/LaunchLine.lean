import Llmops.Config.Command
import Llmops.Config.Flags
import Llmops.Config.Settings
import Llmops.Lib.Rename

/-!
# The command line of an instance

`build_spec` builds the command line of the group's settings with the instance's fields over them.
What the launcher keeps for itself must not be among the flags, since an engine exits on an argument
that it does not know, and every other setting must be, once.

* `CommandFlags`: what a command line should be;
* `commandFlags_iff`: it is that exactly if the device of an instance on several GPUs does not come
  with vLLM, and no two settings are spelled as the same flag;
* `cuda_device_passed`: a vLLM instance on two GPUs gets `--cuda-device`.
-/

namespace Llmops.Config

open Lib

/-- What the launcher keeps for itself. -/
def launcherKeys : List String :=
  ["id", "cuda_device", "model_tag", "allow_runtime_lora"] ++ routerOnlyKeys

/-- The flag of a setting. -/
def flagOf (env : LaunchEnv) (e : Engine) (p : String × Json) : Option Flag :=
  if e = .sglang then sglangFlagOf env p else vllmFlagOf env p

/-- The settings that the flags are made of: vLLM gets room for adapters. -/
def flagSettings (e : Engine) (cfg : Dict Json) : Dict Json :=
  if e = .sglang then cfg else withMaxLoras cfg

/-- The flags that the builder makes itself. -/
def builderFlags (env : LaunchEnv) (e : Engine) (cfg : Dict Json) : List Flag :=
  if e = .sglang then
    [⟨"--model-path", [env.str ((cfg.get "model_tag").getD .null)]⟩,
      ⟨"--served-model-name", [env.str (((cfg.get "served_model_name").filter Json.truthy).getD
        ((cfg.get "model_tag").getD .null))]⟩,
      ⟨"--enable-metrics", []⟩] ++
    if usesLora cfg then sglangLoraFlags ((sglangLoraPaths env (loraModules cfg)).getD []) else []
  else []

/-- The flags of a command line. -/
def launchFlags (env : LaunchEnv) (e : Engine) (cfg : Dict Json) : List Flag :=
  builderFlags env e cfg ++ (flagSettings e cfg).filterMap (flagOf env e)

/-- The words before the flags: the program, and for vLLM the model. -/
def launchHead (env : LaunchEnv) (e : Engine) (cfg : Dict Json) : List String :=
  if e = .sglang then [env.executable, "-m", "sglang.launch_server"]
  else ["vllm", "serve", env.str ((cfg.get "model_tag").getD .null)]

/-- The address that the engine binds to. -/
def boundHost (env : LaunchEnv) (inst : InstanceConfig) : String :=
  if strip env.bindHost = "" then inst.host else strip env.bindHost

/-- The name of the flag of a setting. -/
def spelled (e : Engine) (p : String × Json) : String :=
  if e = .sglang then flagName (sglangName p.1)
  else if p.2 matches .bool false then "--no-" ++ kebab p.1
  else flagName p.1

/-- Settings that have no flag: false switches and what is switched on by the builder on SGLang, and a
list without a named adapter. -/
def NoFlag (e : Engine) (p : String × Json) : Prop :=
  if e = .sglang then
    p.2 = .bool false ∨ p.1 ∈ ["enable_lora", "lora_modules", "enable_metrics"]
  else p.1 = "lora_modules" ∧ vllmLoraModules p.2 = some []

/-- **What the command line of an instance should be.** -/
structure CommandFlags (env : LaunchEnv) (e : Engine) (engine : LLMEngine) (inst : InstanceConfig) :
    Prop where
  clean : ∀ p ∈ flagSettings e (cliConfig env engine inst), p.1 ∈ launcherKeys →
    flagOf env e p = none
  port : (launchFlags env e (cliConfig env engine inst)).filter (·.name = "--port") =
    [⟨"--port", [toString inst.port]⟩]
  host : (launchFlags env e (cliConfig env engine inst)).filter (·.name = "--host") =
    [⟨"--host", [boundHost env inst]⟩]
  once : ((launchFlags env e (cliConfig env engine inst)).map Flag.name).Nodup
  complete : ∀ p ∈ overlaid engine inst, p.2 ≠ .null → p.1 ∉ launcherKeys → ¬ NoFlag e p →
    ∃ f ∈ launchFlags env e (cliConfig env engine inst), f.name = spelled e p ∧
      (p.1 ∉ ["host", "served_model_name"] → flagOf env e p = some f)

/-- The tensor parallel size of the instance is one. -/
def OneGpu (engine : LLMEngine) (inst : InstanceConfig) : Prop :=
  (((overlaid engine inst).get "tensor_parallel_size").getD (.int 1)).scalar = some (.num 1)

instance (engine : LLMEngine) (inst : InstanceConfig) : Decidable (OneGpu engine inst) :=
  inferInstanceAs (Decidable (_ = some (Scalar.num 1)))

/-- When it is. -/
structure SpelledApart (env : LaunchEnv) (e : Engine) (engine : LLMEngine) (inst : InstanceConfig) :
    Prop where
  device : e = .sglang ∨ OneGpu engine inst ∨ inst.cudaDevice = none
  apart : ∀ p ∈ flagSettings e (cliConfig env engine inst),
    ∀ q ∈ flagSettings e (cliConfig env engine inst), p.1 ≠ q.1 →
      ∀ f ∈ flagOf env e p, ∀ f' ∈ flagOf env e q, f.name ≠ f'.name
  notOwn : ∀ p ∈ flagSettings e (cliConfig env engine inst), ∀ f ∈ flagOf env e p,
    f.name ∉ (builderFlags env e (cliConfig env engine inst)).map Flag.name

variable {env : LaunchEnv} {e : Engine} {engine : LLMEngine} {inst : InstanceConfig}

/-! ## The settings -/

theorem InstanceConfig.unique_dump (inst : InstanceConfig) : inst.dump.Unique :=
  inst.extra.unique_after rfl (by decide)

theorem unique_overlaid : (overlaid engine inst).Unique := engine.settings.unique_dump.update

theorem unique_cliConfig : (cliConfig env engine inst).Unique := by
  have htaken : (takeCuda env (overlaid engine inst)).1.Unique := by
    unfold takeCuda
    split_ifs
    · exact unique_overlaid.pop
    · exact unique_overlaid
  unfold cliConfig
  dsimp only
  split_ifs
  · exact htaken.pop
  · exact htaken.pop.set

theorem unique_flagSettings : (flagSettings e (cliConfig env engine inst)).Unique := by
  unfold flagSettings
  split_ifs
  · exact unique_cliConfig
  · unfold withMaxLoras
    split_ifs
    · exact unique_cliConfig.set
    · exact unique_cliConfig

theorem get_overlaid (key : String) :
    (overlaid engine inst).get key = (inst.dump.get key).or (engine.settings.dump.get key) :=
  Dict.get_update inst.unique_dump

/-- The instance's own fields are not overridden. -/
theorem get_overlaid_of_own {key : String} {v : Json} (h : inst.dump.get key = some v) :
    (overlaid engine inst).get key = some v := by
  rw [get_overlaid, h]
  rfl

theorem get_takeCuda {key : String} (h : key ≠ "cuda_device") :
    (takeCuda env (overlaid engine inst)).1.get key = (overlaid engine inst).get key := by
  unfold takeCuda
  split_ifs
  · exact Dict.get_pop_ne h
  · rfl

theorem get_cliConfig {key : String} (hid : key ≠ "id") (hhost : key ≠ "host") :
    (cliConfig env engine inst).get key = (takeCuda env (overlaid engine inst)).1.get key := by
  unfold cliConfig
  dsimp only
  split_ifs
  · exact Dict.get_pop_ne hid
  · rw [Dict.get_set_ne hhost, Dict.get_pop_ne hid]

theorem get_port : (cliConfig env engine inst).get "port" = some (.int inst.port) := by
  rw [get_cliConfig (by decide) (by decide), get_takeCuda (by decide)]
  exact get_overlaid_of_own rfl

theorem get_host : (cliConfig env engine inst).get "host" = some (.str (boundHost env inst)) := by
  have hown : (takeCuda env (overlaid engine inst)).1.get "host" = some (.str inst.host) := by
    rw [get_takeCuda (by decide)]
    exact get_overlaid_of_own rfl
  unfold cliConfig boundHost
  dsimp only
  split_ifs
  · rw [Dict.get_pop_ne (by decide), hown]
  · exact Dict.get_set_self

/-- Nothing but room for adapters is added. -/
theorem mem_flagSettings {p : String × Json} (h : p ∈ cliConfig env engine inst) :
    p ∈ flagSettings e (cliConfig env engine inst) := by
  unfold flagSettings
  split_ifs
  · exact h
  · rw [withMaxLoras_eq]
    exact List.mem_append_left _ h

theorem of_mem_flagSettings {p : String × Json} (h : p ∈ flagSettings e (cliConfig env engine inst))
    (hmax : p.1 ≠ "max_loras") : p ∈ cliConfig env engine inst := by
  unfold flagSettings at h
  split_ifs at h
  · exact h
  · rw [withMaxLoras_eq] at h
    rcases List.mem_append.mp h with h | h
    · exact h
    · split_ifs at h
      · exact absurd (congrArg Prod.fst (List.mem_singleton.mp h)) hmax
      · cases h

/-! ## Names of flags -/

/-- A text without dashes is spelled by one key only. -/
theorem eq_of_kebab {key text : String} (h : kebab key = text) (hdash : '-' ∉ text.toList) :
    key = text := by
  rw [← h]
  unfold kebab at h ⊢
  rw [← String.toList_inj, String.toList_map]
  refine ((List.map_congr_left fun c hc => ?_).trans (List.map_id _)).symm
  have hne : c ≠ '_' := by
    rintro rfl
    refine hdash ?_
    rw [← h, String.toList_map]
    exact List.mem_map.mpr ⟨'_', hc, rfl⟩
  rw [if_neg hne]
  rfl

/-- The flag of a setting is spelled as the setting is. -/
theorem name_of_flagOf {p : String × Json} {f : Flag} (h : flagOf env e p = some f) :
    f.name = spelled e p := by
  unfold flagOf at h
  unfold spelled
  by_cases he : e = .sglang
  · rw [if_pos he] at h ⊢
    exact name_of_sglangFlagOf h
  · rw [if_neg he] at h ⊢
    exact name_of_vllmFlagOf h

/-- The flags of the host and the port are no other setting's. -/
theorem eq_of_spelled {p : String × Json} {key : String} (hkey : key = "port" ∨ key = "host")
    (h : spelled e p = "--" ++ key) : p.1 = key := by
  have hdash : '-' ∉ key.toList := by
    rcases hkey with rfl | rfl <;> decide
  have hflag {text : String} (h : flagName text = "--" ++ key) : text = key := by
    have hslice := congrArg (fun s => sliceFrom s 2) h
    exact eq_of_kebab (sliceFrom_flag.symm.trans (hslice.trans sliceFrom_flag)) hdash
  unfold spelled at h
  split_ifs at h with he hoff
  · have hname := hflag h
    unfold sglangName at hname
    cases hget : sglangParamMap.get p.1 with
    | none =>
      rw [hget] at hname
      exact hname
    | some name =>
      rw [hget] at hname
      have hall : ∀ q ∈ sglangParamMap, '-' ∈ q.2.toList := by decide +kernel
      have hmem := hall _ (Dict.mem_of_get hget)
      rw [show name = key from hname] at hmem
      exact absurd hmem hdash
  · have hlist := congrArg String.toList h
    rw [String.toList_append, String.toList_append] at hlist
    rcases hkey with rfl | rfl <;> simp at hlist
  · exact hflag h

theorem names_builderFlags {cfg : Dict Json} {name : String}
    (h : name ∈ (builderFlags env e cfg).map Flag.name) :
    name ∈ ["--model-path", "--served-model-name", "--enable-metrics", "--enable-lora",
      "--lora-paths"] := by
  unfold builderFlags sglangLoraFlags at h
  split_ifs at h <;> simp at h ⊢ <;> tauto

theorem nodup_builderFlags {cfg : Dict Json} : ((builderFlags env e cfg).map Flag.name).Nodup := by
  unfold builderFlags sglangLoraFlags
  split_ifs <;> simp

/-! ## The host and the port -/

/-- The flag of the host or the port comes once. -/
theorem filter_launchFlags {key : String} {v : Json} {f : Flag} (hkey : key = "port" ∨ key = "host")
    (hget : (cliConfig env engine inst).get key = some v) (hflag : flagOf env e (key, v) = some f)
    (hname : f.name = "--" ++ key) :
    (launchFlags env e (cliConfig env engine inst)).filter (·.name = "--" ++ key) = [f] := by
  have hbuilder : (builderFlags env e (cliConfig env engine inst)).filter
      (·.name = "--" ++ key) = [] := by
    refine List.filter_eq_nil_iff.mpr fun f hf heq => ?_
    have hmem := names_builderFlags (List.mem_map_of_mem hf)
    rw [of_decide_eq_true heq] at hmem
    rcases hkey with rfl | rfl <;> exact absurd hmem (by decide)
  unfold launchFlags
  rw [List.filter_append, hbuilder, List.nil_append]
  refine Dict.filter_filterMap_eq_singleton unique_flagSettings
    (mem_flagSettings (Dict.mem_of_get hget)) hflag (decide_eq_true hname) ?_
  intro q _ f' hf' heq
  have heq : f'.name = "--" ++ key := of_decide_eq_true heq
  rw [name_of_flagOf hf'] at heq
  exact eq_of_spelled hkey heq

theorem flagOf_value {key : String} {v : Json} (hkey : key = "port" ∨ key = "host")
    (hv : (∃ n, v = .int n) ∨ ∃ s, v = .str s) :
    flagOf env e (key, v) = some ⟨"--" ++ key, [env.str v]⟩ := by
  have hname : flagName key = "--" ++ key ∧ sglangName key = key ∧ key ∉ sglangSkipCliKeys ∧
      key ∉ skipCliKeys ∧ key ≠ "lora_modules" := by
    rcases hkey with rfl | rfl <;> decide +kernel
  obtain ⟨hflag, hsglang, hskip, hskip', hlora⟩ := hname
  unfold flagOf sglangFlagOf
  rw [hsglang, hflag, if_neg hskip, ← hflag]
  rcases hv with ⟨n, rfl⟩ | ⟨s, rfl⟩ <;>
    rw [vllmFlagOf_value hskip' hlora Json.noConfusion] <;> split_ifs <;> rfl

theorem port_once : (launchFlags env e (cliConfig env engine inst)).filter (·.name = "--port") =
    [⟨"--port", [toString inst.port]⟩] :=
  filter_launchFlags (.inl rfl) get_port (flagOf_value (.inl rfl) (.inl ⟨_, rfl⟩)) rfl

theorem host_once : (launchFlags env e (cliConfig env engine inst)).filter (·.name = "--host") =
    [⟨"--host", [boundHost env inst]⟩] :=
  filter_launchFlags (.inr rfl) get_host (flagOf_value (.inr rfl) (.inr ⟨_, rfl⟩)) rfl

/-! ## What the launcher keeps for itself -/

theorem id_notMem : "id" ∉ (cliConfig env engine inst).keys := by
  have hpop : "id" ∉ ((takeCuda env (overlaid engine inst)).1.pop "id").keys :=
    fun hmem => (Dict.mem_keys_pop.mp hmem).2 rfl
  unfold cliConfig
  dsimp only
  split_ifs
  · exact hpop
  · intro hmem
    rcases Dict.mem_keys_set.mp hmem with heq | hmem
    · exact absurd heq (by decide)
    · exact hpop hmem

/-- The device stays among the settings with several GPUs. -/
theorem get_cuda : (cliConfig env engine inst).get "cuda_device" =
    if OneGpu engine inst then none else some (.ofOption .int inst.cudaDevice) := by
  rw [get_cliConfig (by decide) (by decide)]
  by_cases hgpu : OneGpu engine inst
  · rw [if_pos hgpu]
    unfold takeCuda
    unfold OneGpu at hgpu
    rw [if_pos hgpu]
    exact Dict.get_pop_self
  · rw [if_neg hgpu]
    unfold takeCuda
    unfold OneGpu at hgpu
    rw [if_neg hgpu]
    exact get_overlaid_of_own rfl

/-- **No flag is made of the launcher's keys** exactly if the device is none of the settings, or is not
set, or SGLang leaves it out. -/
theorem clean_iff : (∀ p ∈ flagSettings e (cliConfig env engine inst), p.1 ∈ launcherKeys →
    flagOf env e p = none) ↔ e = .sglang ∨ OneGpu engine inst ∨ inst.cudaDevice = none := by
  by_cases he : e = .sglang
  · refine iff_of_true (fun p _ hkey => ?_) (.inl he)
    have hall : ∀ key ∈ launcherKeys, key ∈ sglangSkipCliKeys := by decide
    unfold flagOf sglangFlagOf
    rw [if_pos he, if_pos (hall _ hkey)]
  have hskipped {p : String × Json} (hkey : p.1 ∈ skipCliKeys) : flagOf env e p = none := by
    unfold flagOf vllmFlagOf
    rw [if_neg he, if_pos hkey]
  constructor
  · intro h
    refine Or.inr ?_
    by_contra hnot
    obtain ⟨hgpu, hdevice⟩ := not_or.mp hnot
    obtain ⟨n, hn⟩ := Option.ne_none_iff_exists'.mp hdevice
    have hget := @get_cuda env engine inst
    rw [if_neg hgpu, hn] at hget
    have hown : "cuda_device" ∈ launcherKeys := by decide
    have hnone := h _ (mem_flagSettings (Dict.mem_of_get hget)) hown
    unfold flagOf at hnone
    rw [if_neg he] at hnone
    cases (vllmFlagOf_value (by decide) (by decide) Json.noConfusion).symm.trans hnone
  · intro h p hp hkey
    have hcases : p.1 = "id" ∨ p.1 = "cuda_device" ∨ p.1 ∈ skipCliKeys := by
      have hall : ∀ key ∈ launcherKeys, key = "id" ∨ key = "cuda_device" ∨ key ∈ skipCliKeys := by
        decide
      exact hall _ hkey
    have hmem : p ∈ cliConfig env engine inst :=
      of_mem_flagSettings hp fun heq => absurd hkey (heq ▸ by decide)
    rcases hcases with hid | hcuda | hskip
    · have hkeys : p.1 ∈ (cliConfig env engine inst).keys := List.mem_map_of_mem hmem
      rw [hid] at hkeys
      exact absurd hkeys id_notMem
    · have hget := Dict.get_of_mem unique_cliConfig hmem
      rw [hcuda, get_cuda] at hget
      split_ifs at hget with hgpu
      have hnone : inst.cudaDevice = none := (h.resolve_left he).resolve_left hgpu
      rw [hnone] at hget
      unfold flagOf vllmFlagOf
      rw [if_neg he, hcuda, if_neg (by decide), ← Option.some.inj hget]
      rfl
    · exact hskipped hskip

/-! ## Every other setting -/

/-- A setting that is no field of the instance's own is still there. -/
theorem mem_cliConfig {p : String × Json} (hp : p ∈ overlaid engine inst) (hkey : p.1 ∉ launcherKeys)
    (hhost : p.1 ≠ "host") : p ∈ cliConfig env engine inst := by
  have hne {key : String} (hmem : key ∈ launcherKeys) : p.1 ≠ key := fun heq => hkey (heq ▸ hmem)
  refine Dict.mem_of_get ?_
  rw [get_cliConfig (hne (by decide)) hhost, get_takeCuda (hne (by decide))]
  exact Dict.get_of_mem unique_overlaid hp

/-- The bind address takes the place of the instance's host. -/
theorem boundHost_mem :
    ⟨"--host", [boundHost env inst]⟩ ∈ launchFlags env e (cliConfig env engine inst) := by
  have hone := @host_once env e engine inst
  exact List.mem_of_mem_filter (hone ▸ List.mem_singleton_self _)

theorem spelled_host {host : String} : spelled e ("host", .str host) = "--host" := by
  have hname : flagName "host" = "--host" ∧ sglangName "host" = "host" := by decide +kernel
  unfold spelled
  split_ifs with he
  · rw [hname.2, hname.1]
  · contradiction
  · exact hname.1

/-- The builder's own flag for the name. -/
theorem served_mem (he : e = .sglang) :
    ∃ f ∈ launchFlags env e (cliConfig env engine inst), f.name = "--served-model-name" := by
  refine ⟨⟨"--served-model-name", [env.str ((((cliConfig env engine inst).get
    "served_model_name").filter Json.truthy).getD
      (((cliConfig env engine inst).get "model_tag").getD .null))]⟩, ?_, rfl⟩
  refine List.mem_append_left _ ?_
  unfold builderFlags
  rw [if_pos he]
  exact List.mem_append_left _ (List.mem_cons_of_mem _ List.mem_cons_self)

theorem sglangFlagOf_isSome {p : String × Json} (hskip : p.1 ∉ sglangSkipCliKeys)
    (hnull : p.2 ≠ .null) (hfalse : p.2 ≠ .bool false) : ∃ f, sglangFlagOf env p = some f := by
  unfold sglangFlagOf
  rw [if_neg hskip]
  cases hv : p.2 with
  | null => exact absurd hv hnull
  | bool b =>
    cases b with
    | false => exact absurd hv hfalse
    | true => exact ⟨_, rfl⟩
  | _ => exact ⟨_, rfl⟩

theorem vllmFlagOf_isSome {p : String × Json} (hskip : p.1 ∉ skipCliKeys) (hnull : p.2 ≠ .null)
    (hlora : p.1 = "lora_modules" → ∃ ms, vllmLoraModules p.2 = some ms ∧ ms ≠ []) :
    ∃ f, vllmFlagOf env p = some f := by
  by_cases hlist : p.1 = "lora_modules"
  · obtain ⟨ms, hms, hne⟩ := hlora hlist
    refine ⟨⟨flagName p.1, ms.map fun m => dumps false (.obj m)⟩, ?_⟩
    unfold vllmFlagOf
    rw [if_neg hskip]
    cases hv : p.2 with
    | null => exact absurd hv hnull
    | _ =>
      rw [hv] at hms
      simp only [if_pos hlist, hms, Option.bind_some, List.isEmpty_eq_false_iff.mpr hne,
        Bool.false_eq_true, if_false]
  · exact ⟨_, vllmFlagOf_value hskip hlist hnull⟩

/-- **Every other setting has its flag.** -/
theorem complete_of_ok (hlora : e ≠ .sglang → VllmLora (cliConfig env engine inst)) :
    ∀ p ∈ overlaid engine inst, p.2 ≠ .null → p.1 ∉ launcherKeys → ¬ NoFlag e p →
      ∃ f ∈ launchFlags env e (cliConfig env engine inst), f.name = spelled e p ∧
        (p.1 ∉ ["host", "served_model_name"] → flagOf env e p = some f) := by
  intro p hp hnull hkey hflag
  have hmade {f : Flag} (hmem : p ∈ cliConfig env engine inst) (hf : flagOf env e p = some f) :
      ∃ f ∈ launchFlags env e (cliConfig env engine inst), f.name = spelled e p ∧
        (p.1 ∉ ["host", "served_model_name"] → flagOf env e p = some f) := by
    refine ⟨f, ?_, name_of_flagOf hf, fun _ => hf⟩
    exact List.mem_append_right _ (List.mem_filterMap.mpr ⟨p, mem_flagSettings hmem, hf⟩)
  by_cases hhost : p.1 = "host"
  · have hget := Dict.get_of_mem unique_overlaid hp
    rw [hhost, get_overlaid_of_own (v := .str inst.host) rfl] at hget
    have hpair : p = ("host", .str inst.host) := Prod.ext hhost (Option.some.inj hget).symm
    refine ⟨_, boundHost_mem, ?_, fun hnot => absurd (by rw [hhost]; decide) hnot⟩
    rw [hpair, spelled_host]
  have hmem := @mem_cliConfig env engine inst p hp hkey hhost
  unfold NoFlag at hflag
  by_cases he : e = .sglang
  · rw [if_pos he, not_or] at hflag
    by_cases hserved : p.1 = "served_model_name"
    · obtain ⟨f, hf, hname⟩ := @served_mem env e engine inst he
      refine ⟨f, hf, ?_, fun hnot => absurd (by rw [hserved]; decide) hnot⟩
      have hspelled : flagName (sglangName "served_model_name") = "--served-model-name" := by
        decide +kernel
      unfold spelled
      rw [if_pos he, hserved, hspelled, hname]
    · have hskip : p.1 ∉ sglangSkipCliKeys := by
        have hall : ∀ key ∈ sglangSkipCliKeys, key ∈ launcherKeys ∨ key = "served_model_name" ∨
            key ∈ ["enable_lora", "lora_modules", "enable_metrics"] := by decide
        intro hskip
        rcases hall _ hskip with h | h | h
        · exact hkey h
        · exact hserved h
        · exact hflag.2 h
      obtain ⟨f, hf⟩ := @sglangFlagOf_isSome env p hskip hnull hflag.1
      refine @hmade f hmem ?_
      unfold flagOf
      rw [if_pos he, hf]
  · rw [if_neg he] at hflag
    have hskip : p.1 ∉ skipCliKeys := by
      have hall : ∀ key ∈ skipCliKeys, key ∈ launcherKeys := by decide
      exact fun hskip => hkey (hall _ hskip)
    have hadapters : p.1 = "lora_modules" → ∃ ms, vllmLoraModules p.2 = some ms ∧ ms ≠ [] := by
      intro hlist
      have hpair : ("lora_modules", p.2) ∈ cliConfig env engine inst := hlist ▸ hmem
      obtain ⟨ms, hms⟩ := Option.isSome_iff_exists.mp
        (vllmLoraModules_isSome.mpr ((hlora he p.2 hpair).resolve_left hnull))
      exact ⟨ms, hms, fun hnil => hflag ⟨hlist, hnil ▸ hms⟩⟩
    obtain ⟨f, hf⟩ := @vllmFlagOf_isSome env p hskip hnull hadapters
    refine @hmade f hmem ?_
    unfold flagOf
    rw [if_neg he, hf]

/-! ## The command line -/

/-- The command of a spec. -/
theorem buildSpec_command {r : LlmLauncher} {config : RootConfig} {key : String} {spec : LaunchSpec}
    (hspec : r.buildSpec env config key = .ok spec)
    (hresolve : resolve config key = .ok (engine, inst)) :
    r.command env (cliConfig env engine inst) = .ok spec.command := by
  unfold LlmLauncher.buildSpec at hspec
  rw [hresolve] at hspec
  cases hcommand : r.command env (cliConfig env engine inst) with
  | error =>
    simp [bind, Except.bind, hcommand] at hspec
  | ok command =>
    simp only [bind, Except.bind, hcommand, pure, Except.pure, Except.ok.injEq] at hspec
    rw [← hspec]

/-- **The words of a command** are its head and those of its flags. -/
theorem command_eq {r : LlmLauncher} (hr : e.launcher = some r) {cfg : Dict Json}
    {command : List String} (h : r.command env cfg = .ok command) :
    command = launchHead env e cfg ++ (launchFlags env e cfg).flatMap Flag.words := by
  cases e with
  | vllm =>
    cases hr
    obtain ⟨args, hargs, rfl⟩ : ∃ args, buildVllmCliArgs env cfg = .ok args ∧
        command = "vllm" :: args := by
      change (buildVllmCliArgs env cfg).map _ = _ at h
      cases hargs : buildVllmCliArgs env cfg with
      | error =>
        rw [hargs] at h
        cases h
      | ok args =>
        rw [hargs] at h
        exact ⟨args, rfl, (Except.ok.inj h).symm⟩
    obtain ⟨tag, htag, -, rfl⟩ := buildVllmCliArgs_eq_ok hargs
    unfold launchHead launchFlags builderFlags flagSettings
    rw [htag]
    rfl
  | sglang =>
    cases hr
    obtain ⟨args, hargs, rfl⟩ : ∃ args, buildSglangCliArgs env cfg = .ok args ∧
        command = [env.executable, "-m", "sglang.launch_server"] ++ args := by
      change (buildSglangCliArgs env cfg).map _ = _ at h
      cases hargs : buildSglangCliArgs env cfg with
      | error =>
        rw [hargs] at h
        cases h
      | ok args =>
        rw [hargs] at h
        exact ⟨args, rfl, (Except.ok.inj h).symm⟩
    obtain ⟨tag, paths, htag, -, hpaths, rfl⟩ := buildSglangCliArgs_eq_ok hargs
    unfold launchHead launchFlags builderFlags flagSettings sglangFlags
    rw [htag, hpaths]
    rfl
  | llamacpp => cases hr
  | trtllm => cases hr

/-- **The command line of an instance** is what it should be exactly if the device of an instance on
several GPUs does not come with vLLM and no two settings are spelled alike. -/
theorem commandFlags_iff {r : LlmLauncher} (hr : e.launcher = some r) {config : RootConfig}
    {key : String} {spec : LaunchSpec} (hspec : r.buildSpec env config key = .ok spec)
    (hresolve : resolve config key = .ok (engine, inst)) :
    spec.command = launchHead env e (cliConfig env engine inst) ++
        (launchFlags env e (cliConfig env engine inst)).flatMap Flag.words ∧
      (CommandFlags env e engine inst ↔ SpelledApart env e engine inst) := by
  have hcommand := buildSpec_command hspec hresolve
  have hline : CommandLine e (cliConfig env engine inst) :=
    (command_isOk hr).mp ⟨_, hcommand⟩
  have hlora (he : e ≠ .sglang) : VllmLora (cliConfig env engine inst) := by
    have hvllm := hline.2
    rwa [if_neg he] at hvllm
  have honce : ((launchFlags env e (cliConfig env engine inst)).map Flag.name).Nodup ↔
      (∀ p ∈ flagSettings e (cliConfig env engine inst),
        ∀ q ∈ flagSettings e (cliConfig env engine inst), p.1 ≠ q.1 →
          ∀ f, flagOf env e p = some f → ∀ f', flagOf env e q = some f' → f.name ≠ f'.name) ∧
      ∀ p ∈ flagSettings e (cliConfig env engine inst), ∀ f, flagOf env e p = some f →
        f.name ∉ (builderFlags env e (cliConfig env engine inst)).map Flag.name := by
    unfold launchFlags
    rw [List.map_append, List.nodup_append,
      ← Dict.nodup_filterMap_iff (g := flagOf env e) unique_flagSettings Flag.name]
    constructor
    · rintro ⟨-, hsettings, hdisjoint⟩
      refine ⟨hsettings, fun p hp f hf hmem => ?_⟩
      exact hdisjoint _ hmem _
        (List.mem_map_of_mem (List.mem_filterMap.mpr ⟨p, hp, hf⟩)) rfl
    · rintro ⟨hsettings, hnotOwn⟩
      refine ⟨nodup_builderFlags, hsettings, fun name hname name' hname' heq => ?_⟩
      obtain ⟨f, hf, rfl⟩ := List.mem_map.mp hname'
      obtain ⟨p, hp, hf⟩ := List.mem_filterMap.mp hf
      exact hnotOwn p hp f hf (heq ▸ hname)
  refine ⟨command_eq hr hcommand, fun h => ?_, fun h => ?_⟩
  · exact ⟨clean_iff.mp h.clean, (honce.mp h.once).1, (honce.mp h.once).2⟩
  · exact ⟨clean_iff.mpr h.device, port_once, host_once, honce.mpr ⟨h.apart, h.notOwn⟩,
      complete_of_ok hlora⟩

/-- A group of one instance with a device and a number of GPUs. -/
def deviceConfig (gpus : Int) : RootConfig where
  server := { port := 8000 }
  llmEngines := [("Qwen", {
    instances := [{ id := "a", port := 8001, cudaDevice := some 0 }]
    settings := { modelTag := "Qwen/Qwen3", tensorParallelSize := gpus } })]
  unique := List.nodup_singleton _

theorem commandFlags_oneGpu : ∃ spec engine inst,
    vllmLauncher.buildSpec {} (deviceConfig 1) "Qwen::a" = .ok spec ∧
    resolve (deviceConfig 1) "Qwen::a" = .ok (engine, inst) ∧
    spec.command = ["vllm", "serve", "Qwen/Qwen3", "--tensor-parallel-size", "1",
      "--host", "localhost", "--port", "8001"] ∧
    CommandFlags {} .vllm engine inst := by
  have hbuilds : ((vllmLauncher.buildSpec {} (deviceConfig 1) "Qwen::a").toOption.any fun spec =>
      decide (spec.command = ["vllm", "serve", "Qwen/Qwen3", "--tensor-parallel-size", "1",
        "--host", "localhost", "--port", "8001"])) = true := by
    decide +kernel
  obtain ⟨spec, hspec, hcommand⟩ := (Option.any_eq_true _ _).mp hbuilds
  have hspec := toOption_eq_some.mp hspec
  have hresolve : resolve (deviceConfig 1) "Qwen::a" = .ok
      ({ instances := [{ id := "a", port := 8001, cudaDevice := some 0 }]
         settings := { modelTag := "Qwen/Qwen3", tensorParallelSize := 1 } },
        { id := "a", port := 8001, cudaDevice := some 0 }) := rfl
  obtain ⟨-, hiff⟩ := commandFlags_iff (e := .vllm) rfl hspec hresolve
  exact ⟨spec, _, _, hspec, hresolve, of_decide_eq_true hcommand,
    hiff.mpr ⟨by decide +kernel, by decide +kernel, by decide +kernel⟩⟩

/-- With two GPUs the device of a vLLM instance is passed to the engine. -/
theorem cuda_device_passed : ∃ spec engine inst,
    "Qwen::a" ∈ vllmLauncher.keys (deviceConfig 2) ∧
    vllmLauncher.buildSpec {} (deviceConfig 2) "Qwen::a" = .ok spec ∧
    resolve (deviceConfig 2) "Qwen::a" = .ok (engine, inst) ∧ "--cuda-device" ∈ spec.command ∧
    ¬ CommandFlags {} .vllm engine inst := by
  have hbuilds : ((vllmLauncher.buildSpec {} (deviceConfig 2) "Qwen::a").toOption.any fun spec =>
      decide ("--cuda-device" ∈ spec.command)) = true := by
    decide +kernel
  obtain ⟨spec, hspec, hmem⟩ := (Option.any_eq_true _ _).mp hbuilds
  have hresolve : resolve (deviceConfig 2) "Qwen::a" = .ok
      ({ instances := [{ id := "a", port := 8001, cudaDevice := some 0 }]
         settings := { modelTag := "Qwen/Qwen3", tensorParallelSize := 2 } },
        { id := "a", port := 8001, cudaDevice := some 0 }) := rfl
  refine ⟨spec, _, _, by decide +kernel, toOption_eq_some.mp hspec, hresolve,
    of_decide_eq_true hmem, fun h => ?_⟩
  have hdevice := clean_iff.mp h.clean
  revert hdevice
  decide +kernel

end Llmops.Config
