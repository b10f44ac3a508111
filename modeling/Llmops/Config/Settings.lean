import Llmops.Config.Schema
import Llmops.Config.Launch

/-!
# Settings through the schema

What `model_dump` writes of settings that `model_validate` has accepted
(`packages/config-schema/schema.py`): the nine fields that `EngineModelConfig` declares, converted,
and everything else as it was.

* `EngineModelConfig.get_dump_of_notMem`: a setting that is not declared comes out as it went in;
* `LoraModule.get_nonNull_dump`: an adapter keeps its fields, but for those that are null.
-/

namespace Llmops.Config

open Lib

/-- The fields that the settings declare. -/
def settingsFields : List String :=
  ["model_tag", "engine", "kind", "dtype", "max_model_len", "gpu_memory_utilization",
    "tensor_parallel_size", "lora_modules", "kv_transfer_config"]

variable {py : Pydantic} {d : Dict Json} {key : String}

namespace Extra

variable {fields : List String} {own : Dict Json}

theorem keys_after (extra : Extra fields) : (extra.after own).keys = own.keys ++ extra.entries.keys :=
  List.map_append

/-- A dump has every key once. -/
theorem unique_after (extra : Extra fields) (hkeys : own.keys = fields) (hfields : fields.Nodup) :
    (extra.after own).Unique := by
  unfold Dict.Unique
  rw [keys_after, hkeys]
  exact hfields.append extra.unique (List.disjoint_left.mpr extra.foreign)

theorem get_after_of_notMem (extra : Extra fields) (hkey : key ∉ own.keys) :
    (extra.after own).get key = extra.entries.get key := by
  unfold after
  rw [Dict.get_append, Dict.get_eq_none_iff.mpr hkey, Option.none_or]

end Extra

namespace EngineModelConfig

variable {c : EngineModelConfig}

theorem unique_dump (c : EngineModelConfig) : c.dump.Unique :=
  c.extra.unique_after rfl (by decide)

/-- What settings that were accepted are made of. -/
theorem validate_eq_some (h : validate py (.obj d) = some c) :
    d.Unique ∧ d.get "model_tag" = some (.str c.modelTag) ∧
      withDefault d "dtype" none (optional Json.asStr) = some c.dtype ∧
      withDefault d "max_model_len" none (optional py.int) = some c.maxModelLen ∧
      withDefault d "gpu_memory_utilization" none (optional py.float) =
        some c.gpuMemoryUtilization ∧
      withDefault d "tensor_parallel_size" 1 py.int = some c.tensorParallelSize ∧
      withDefault d "lora_modules" none (optional (listOf LoraModule.validate)) =
        some c.loraModules ∧
      withDefault d "kv_transfer_config" none (optional Json.asObj) = some c.kvTransferConfig ∧
      c.extra.entries = d.without settingsFields := by
  simp only [validate, Option.bind_eq_bind, Option.pure_def, Option.bind_eq_some_iff,
    required_eq_some, Json.asStr_eq_some] at h
  obtain ⟨⟨d', hd⟩, hv, tag, ⟨_, htag, rfl⟩, _, -, _, -, dtype, hdtype, len, hlen, gpu, hgpu, tp,
    htp, lora, hlora, kv, hkv, hc⟩ := h
  cases entries_eq_some.mp hv
  cases hc
  refine ⟨hd, htag, hdtype, hlen, hgpu, htp, hlora, hkv, ?_⟩
  exact congrArg (Dict.without d') (List.append_nil _)

/-- **A setting that is not declared** comes out as it went in. -/
theorem get_dump_of_notMem (h : validate py (.obj d) = some c) (hkey : key ∉ settingsFields) :
    c.dump.get key = d.get key := by
  obtain ⟨-, -, -, -, -, -, -, -, hextra⟩ := validate_eq_some h
  unfold dump
  rw [Extra.get_after_of_notMem _ (by exact hkey), hextra, Dict.get_without hkey]

end EngineModelConfig

/-- A setting that may be null is a value, or none. -/
theorem optional_eq_some {α : Type} {f : Json → Option α} {v : Json} {o : Option α}
    (h : optional f v = some o) (hv : v ≠ .null) : ∃ a, o = some a ∧ f v = some a := by
  cases v with
  | null => exact absurd rfl hv
  | _ =>
    obtain ⟨a, ha, ho⟩ := Option.map_eq_some_iff.mp h
    exact ⟨a, ho.symm, ha⟩

/-- A command line can be built of settings that have been through the schema. -/
theorem EngineModelConfig.commandLine_dump {c : EngineModelConfig} (h : c.modelTag ≠ "")
    (engine : Engine) : CommandLine engine c.dump := by
  have hlora {v : Json} (hv : c.dump.get "lora_modules" = some v) :
      v = .null ∨ ∃ ms : List LoraModule, v = .arr (ms.map (.obj ·.dump)) := by
    have hv : some (Json.ofOption (fun ms => .arr (ms.map (.obj ·.dump))) c.loraModules) = some v := hv
    rw [← Option.some.inj hv]
    cases c.loraModules with
    | none => exact Or.inl rfl
    | some ms => exact Or.inr ⟨ms, rfl⟩
  have hobjs (ms : List LoraModule) : ∀ v ∈ ms.map fun m => Json.obj m.dump, ∃ d, v = .obj d := by
    intro v hv
    obtain ⟨m, -, rfl⟩ := List.mem_map.mp hv
    exact ⟨m.dump, rfl⟩
  refine ⟨show decide (c.modelTag ≠ "") = true from decide_eq_true h, ?_⟩
  split_ifs
  · intro v hv htruthy
    rcases hlora hv with rfl | ⟨ms, rfl⟩
    · cases htruthy
    · exact ⟨_, rfl, hobjs ms⟩
  · intro v hv
    refine (hlora (Dict.get_of_mem c.unique_dump hv)).imp id ?_
    rintro ⟨ms, rfl⟩
    exact ⟨_, rfl, fun v hv _ => hobjs ms v hv⟩

/-! ## Adapters -/

/-- A value that is not null. -/
def nonNull (v : Json) : Bool := !(v matches .null)

namespace LoraModule

variable {m : LoraModule}

theorem validate_eq_some (h : validate (.obj d) = some m) :
    d.Unique ∧ d.get "name" = some (.str m.name) ∧ d.get "path" = some (.str m.path) ∧
      withDefault d "base_model_name" none (optional Json.asStr) = some m.baseModelName ∧
      m.extra.entries = d.without ["name", "path", "base_model_name"] := by
  simp only [validate, Option.bind_eq_bind, Option.pure_def, Option.bind_eq_some_iff,
    required_eq_some, Json.asStr_eq_some] at h
  obtain ⟨⟨d', hd⟩, hv, name, ⟨_, hname, rfl⟩, path, ⟨_, hpath, rfl⟩, base, hbase, hm⟩ := h
  cases entries_eq_some.mp hv
  cases hm
  refine ⟨hd, hname, hpath, hbase, ?_⟩
  exact congrArg (Dict.without d') (List.append_nil _)

theorem unique_dump (m : LoraModule) : m.dump.Unique :=
  m.extra.unique_after rfl (by decide)

/-- **An adapter keeps its fields**, but for those that are null. -/
theorem get_nonNull_dump (h : validate (.obj d) = some m) (key : String) :
    (Dict.filterValues nonNull m.dump).get key = (d.get key).filter nonNull := by
  obtain ⟨-, hname, hpath, hbase, hextra⟩ := validate_eq_some h
  rw [Dict.get_filterValues m.unique_dump]
  by_cases hkey : key ∈ ["name", "path", "base_model_name"]
  · simp only [List.mem_cons, List.not_mem_nil, or_false] at hkey
    obtain rfl | rfl | rfl := hkey
    · rw [hname]
      rfl
    · rw [hpath]
      rfl
    · rw [show m.dump.get "base_model_name" = some (.ofOption .str m.baseModelName) from rfl]
      obtain ⟨hn, hb⟩ | ⟨v, hv, hb⟩ := withDefault_eq_some.mp hbase
      · rw [hn, hb]
        rfl
      · rw [hv]
        cases v with
        | null =>
          rw [← Option.some.inj hb]
          rfl
        | str s =>
          rw [← Option.some.inj hb]
          rfl
        | _ => cases hb
  · unfold dump
    rw [Extra.get_after_of_notMem _ (by exact hkey), hextra, Dict.get_without hkey]

end LoraModule

end Llmops.Config
