import Llmops.Config.Launch

/-!
# Command lines by their flags

The command lines that `build_vllm_cli_args` and `build_sglang_cli_args` make of settings are the
model, some fixed flags and one flag for each setting that has one, with its values
(`vllmFlagOf`, `sglangFlagOf`): `buildVllmCliArgs_eq_ok`, `buildSglangCliArgs_eq_ok`.
-/

namespace Llmops.Config

open Lib

/-- A flag on a command line, with its values. -/
structure Flag where
  name : String
  values : List String := []
  deriving DecidableEq, Repr

namespace Flag

/-- The words that a flag is written as. -/
def words (f : Flag) : List String := f.name :: f.values

end Flag

/-- `f"--{key}"`, kebab-cased. -/
def flagName (key : String) : String := "--" ++ kebab key

variable {env : LaunchEnv}

/-! ## vLLM -/

/-- The flag of a value. -/
def vllmValueFlag (env : LaunchEnv) (key : String) (value : Json) : Flag :=
  match value with
  | .bool b => ⟨if b then flagName key else "--no-" ++ kebab key, []⟩
  | .arr _ => ⟨flagName key, [dumps true value]⟩
  | .obj _ => ⟨flagName key, [dumps false value]⟩
  | _ => ⟨flagName key, [env.str value]⟩

/-- The flag of a setting. -/
def vllmFlagOf (env : LaunchEnv) (p : String × Json) : Option Flag :=
  if p.1 ∈ skipCliKeys then none
  else
    match p.2 with
    | .null => none
    | value =>
      if p.1 = "lora_modules" then
        (vllmLoraModules value).bind fun ms =>
          if ms.isEmpty then none
          else some ⟨flagName p.1, ms.map fun m => dumps false (.obj m)⟩
      else some (vllmValueFlag env p.1 value)

theorem vllmFlagOf_value {key : String} {v : Json} (hskip : key ∉ skipCliKeys)
    (hlora : key ≠ "lora_modules") (hv : v ≠ .null) :
    vllmFlagOf env (key, v) = some (vllmValueFlag env key v) := by
  unfold vllmFlagOf
  rw [if_neg hskip]
  cases v with
  | null => exact absurd rfl hv
  | _ => exact if_neg hlora

/-- The name of the flag of a setting: a switch that is off has a negated one. -/
theorem name_of_vllmFlagOf {p : String × Json} {f : Flag} (h : vllmFlagOf env p = some f) :
    f.name = if p.2 matches .bool false then "--no-" ++ kebab p.1 else flagName p.1 := by
  unfold vllmFlagOf at h
  by_cases hskip : p.1 ∈ skipCliKeys
  · rw [if_pos hskip] at h
    cases h
  rw [if_neg hskip] at h
  by_cases hlora : p.1 = "lora_modules"
  · have hmodules : ∃ ms, vllmLoraModules p.2 = some ms ∧ f.name = flagName p.1 := by
      cases hv : p.2 with
      | null =>
        rw [hv] at h
        cases h
      | _ =>
        simp only [hv, if_pos hlora, Option.bind_eq_some_iff] at h
        obtain ⟨ms, hms, h⟩ := h
        split_ifs at h
        exact ⟨ms, hms, (congrArg Flag.name (Option.some.inj h)).symm⟩
    obtain ⟨ms, hms, hname⟩ := hmodules
    rw [if_neg, hname]
    intro hoff
    cases hv : p.2 <;> rw [hv] at hms hoff <;> first | cases hms | cases hoff
  · cases hv : p.2 with
    | null =>
      rw [hv] at h
      cases h
    | bool b =>
      simp only [hv, if_neg hlora, Option.some.injEq] at h
      rw [← h]
      cases b <;> rfl
    | _ =>
      simp only [hv, if_neg hlora, Option.some.injEq] at h
      rw [← h]
      rfl

/-- The words of a setting are those of its flag, if it has one. -/
theorem vllmFlag_eq {p : String × Json} {words : List String} (h : vllmFlag env p = some words) :
    words = ((vllmFlagOf env p).map Flag.words).getD [] := by
  unfold vllmFlag at h
  unfold vllmFlagOf
  by_cases hskip : p.1 ∈ skipCliKeys
  · rw [if_pos hskip, Option.some.injEq] at h
    rw [if_pos hskip, ← h]
    rfl
  · rw [if_neg hskip] at h ⊢
    by_cases hlora : p.1 = "lora_modules"
    · cases hv : p.2 with
      | null =>
        simp only [hv, Option.some.injEq] at h
        exact h.symm
      | _ =>
        simp only [hv, if_pos hlora, Option.map_eq_some_iff] at h ⊢
        obtain ⟨ms, hms, rfl⟩ := h
        rw [hms, Option.bind_some]
        split_ifs <;> rfl
    · cases hv : p.2 <;> simp only [hv, if_neg hlora, Option.some.injEq] at h ⊢ <;> rw [← h] <;> rfl

/-- The settings with room for several adapters, when LoRA is on. -/
def withMaxLoras (cfg : Dict Json) : Dict Json :=
  if isSet cfg "enable_lora" && !cfg.has "max_loras" then cfg.set "max_loras" (.int 4) else cfg

theorem withMaxLoras_eq (cfg : Dict Json) : withMaxLoras cfg =
    cfg ++ if isSet cfg "enable_lora" = true ∧ "max_loras" ∉ cfg.keys then
      [("max_loras", .int 4)] else [] := by
  unfold withMaxLoras
  have hcond : (isSet cfg "enable_lora" && !cfg.has "max_loras") = true ↔
      isSet cfg "enable_lora" = true ∧ "max_loras" ∉ cfg.keys := by
    rw [Bool.and_eq_true, Bool.not_eq_true', ← Bool.not_eq_true, Dict.has_iff]
  by_cases h : isSet cfg "enable_lora" = true ∧ "max_loras" ∉ cfg.keys
  · rw [if_pos (hcond.mpr h), if_pos h]
    refine @Dict.update_eq_append _ cfg [("max_loras", .int 4)] (List.nodup_singleton _) ?_
    intro k hk
    rw [List.mem_singleton.mp hk]
    exact h.2
  · rw [if_neg (mt hcond.mp h), if_neg h, List.append_nil]

/-- The words of settings are those of their flags. -/
theorem flatten_mapM {α : Type*} {f : α → Option (List String)} {g : α → Option Flag} {xs : List α}
    {words : List (List String)}
    (hfg : ∀ {x ws}, f x = some ws → ws = ((g x).map Flag.words).getD [])
    (h : xs.mapM f = some words) : words.flatten = (xs.filterMap g).flatMap Flag.words := by
  induction mapM_eq_some_iff.mp h with
  | nil => rfl
  | @cons x ws xs words hx htail ih =>
    rw [List.flatten_cons, ih (mapM_eq_some_iff.mpr htail), hfg hx]
    cases hg : g x with
    | none => simp [hg]
    | some flag => simp [hg]

/-- **A vLLM command line**: the model, and a flag for each setting that has one. -/
theorem buildVllmCliArgs_eq_ok {cfg : Dict Json} {args : List String}
    (h : buildVllmCliArgs env cfg = .ok args) :
    ∃ tag, cfg.get "model_tag" = some tag ∧ tag.truthy ∧
      args = ["serve", env.str tag] ++
        ((withMaxLoras cfg).filterMap (vllmFlagOf env)).flatMap Flag.words := by
  unfold buildVllmCliArgs at h
  cases htag : (cfg.get "model_tag").filter Json.truthy with
  | none =>
    rw [htag] at h
    cases h
  | some tag =>
    obtain ⟨hget, htruthy⟩ := Option.filter_eq_some_iff.mp htag
    refine ⟨tag, hget, htruthy, ?_⟩
    rw [htag] at h
    change (orRaise .illTyped ((withMaxLoras cfg).mapM (vllmFlag env))).map _ = _ at h
    cases hmap : (withMaxLoras cfg).mapM (vllmFlag env) with
    | none =>
      rw [hmap] at h
      cases h
    | some words =>
      rw [hmap] at h
      rw [← flatten_mapM vllmFlag_eq hmap]
      exact (Except.ok.inj h).symm

/-! ## SGLang -/

/-- The name that SGLang has for a setting. -/
def sglangName (key : String) : String := (sglangParamMap.get key).getD key

/-- The flag of a setting. -/
def sglangFlagOf (env : LaunchEnv) (p : String × Json) : Option Flag :=
  let name := flagName (sglangName p.1)
  if p.1 ∈ sglangSkipCliKeys then none
  else
    match p.2 with
    | .null => none
    | .bool b => if b then some ⟨name, []⟩ else none
    | .arr xs => some ⟨name, xs.map env.str⟩
    | .obj d => some ⟨name, [dumps false (.obj d)]⟩
    | value => some ⟨name, [env.str value]⟩

theorem name_of_sglangFlagOf {p : String × Json} {f : Flag} (h : sglangFlagOf env p = some f) :
    f.name = flagName (sglangName p.1) := by
  unfold sglangFlagOf at h
  split_ifs at h
  cases hv : p.2 with
  | null =>
    rw [hv] at h
    cases h
  | bool b =>
    cases b <;> simp only [hv, Bool.false_eq_true, if_true, if_false, Option.some.injEq,
      reduceCtorEq] at h
    rw [← h]
  | _ =>
    simp only [hv, Option.some.injEq] at h
    rw [← h]

theorem sglangFlag_eq (p : String × Json) :
    sglangFlag env p = ((sglangFlagOf env p).map Flag.words).getD [] := by
  unfold sglangFlag sglangFlagOf
  by_cases hskip : p.1 ∈ sglangSkipCliKeys
  · rw [if_pos hskip, if_pos hskip]
    rfl
  · rw [if_neg hskip, if_neg hskip]
    cases p.2 with
    | bool b => cases b <;> rfl
    | _ => rfl

/-- The LoRA flags for the adapters with both a name and a path. -/
def sglangLoraFlags (paths : List String) : List Flag :=
  ⟨"--enable-lora", []⟩ :: if paths.isEmpty then [] else [⟨"--lora-paths", paths⟩]

/-- LoRA is used: a switch is on, or adapters are listed. -/
def usesLora (cfg : Dict Json) : Bool :=
  isSet cfg "enable_lora" || isSet cfg "allow_runtime_lora" || isSet cfg "lora_modules"

/-- The adapters that are listed, `or []`. -/
def loraModules (cfg : Dict Json) : Json :=
  ((cfg.get "lora_modules").filter Json.truthy).getD (.arr [])

theorem truthy_loraModules (cfg : Dict Json) :
    (loraModules cfg).truthy = isSet cfg "lora_modules" := by
  unfold loraModules isSet
  cases cfg.get "lora_modules" with
  | none => rfl
  | some v =>
    by_cases hv : v.truthy = true
    · simp [Option.filter_some_pos hv, hv]
    · rw [Bool.not_eq_true] at hv
      rw [Option.filter_some_neg hv, Option.getD_none, Option.any_some, hv]
      rfl

/-- The LoRA arguments are the words of the LoRA flags. -/
theorem sglangLora_eq_some {cfg : Dict Json} {words : List String}
    (h : sglangLora env cfg = some words) :
    ∃ paths, sglangLoraPaths env (loraModules cfg) = some paths ∧
      words = if usesLora cfg then (sglangLoraFlags paths).flatMap Flag.words else [] := by
  unfold sglangLora at h
  change (if (isSet cfg "enable_lora" || isSet cfg "allow_runtime_lora" ||
    (loraModules cfg).truthy) = true then _ else _) = _ at h
  rw [truthy_loraModules] at h
  change (if usesLora cfg = true then
    (sglangLoraPaths env (loraModules cfg)).map _ else _) = _ at h
  by_cases huse : usesLora cfg = true
  · rw [if_pos huse, Option.map_eq_some_iff] at h
    obtain ⟨paths, hpaths, rfl⟩ := h
    refine ⟨paths, hpaths, ?_⟩
    rw [if_pos huse]
    unfold sglangLoraFlags
    split_ifs <;> simp [Flag.words]
  · rw [if_neg huse, Option.some.injEq] at h
    -- nothing is listed
    have hnone : isSet cfg "lora_modules" = false := by
      rw [usesLora, Bool.or_eq_true] at huse
      simpa using (not_or.mp huse).2
    have hempty : loraModules cfg = .arr [] := by
      unfold loraModules
      unfold isSet at hnone
      cases hv : cfg.get "lora_modules" with
      | none => rfl
      | some v =>
        rw [hv, Option.any_some] at hnone
        rw [Option.filter_some_neg (by simp [hnone]), Option.getD_none]
    refine ⟨[], ?_, ?_⟩
    · rw [hempty]
      rfl
    · rw [if_neg huse, ← h]

/-- The flags of settings on an SGLang command line. -/
def sglangFlags (env : LaunchEnv) (cfg : Dict Json) (tag : Json) (paths : List String) : List Flag :=
  [⟨"--model-path", [env.str tag]⟩,
    ⟨"--served-model-name",
      [env.str (((cfg.get "served_model_name").filter Json.truthy).getD tag)]⟩,
    ⟨"--enable-metrics", []⟩] ++
  (if usesLora cfg then sglangLoraFlags paths else []) ++ cfg.filterMap (sglangFlagOf env)

/-- **An SGLang command line**: the model and its name, the switches, and a flag for each setting that
has one. -/
theorem buildSglangCliArgs_eq_ok {cfg : Dict Json} {args : List String}
    (h : buildSglangCliArgs env cfg = .ok args) :
    ∃ tag paths, cfg.get "model_tag" = some tag ∧ tag.truthy ∧
      sglangLoraPaths env (loraModules cfg) = some paths ∧
      args = (sglangFlags env cfg tag paths).flatMap Flag.words := by
  unfold buildSglangCliArgs at h
  cases htag : (cfg.get "model_tag").filter Json.truthy with
  | none =>
    rw [htag] at h
    cases h
  | some tag =>
    obtain ⟨hget, htruthy⟩ := Option.filter_eq_some_iff.mp htag
    rw [htag] at h
    cases hlora : sglangLora env cfg with
    | none =>
      simp only [hlora] at h
      cases h
    | some words =>
      obtain ⟨paths, hpaths, hwords⟩ := sglangLora_eq_some hlora
      refine ⟨tag, paths, hget, htruthy, hpaths, ?_⟩
      simp only [hlora] at h
      rw [← Except.ok.inj h, hwords]
      have hflags (ps : List (String × Json)) :
          ps.flatMap (sglangFlag env) = (ps.filterMap (sglangFlagOf env)).flatMap Flag.words := by
        induction ps with
        | nil => rfl
        | cons p ps ih =>
          rw [List.flatMap_cons, ih, sglangFlag_eq]
          cases hp : sglangFlagOf env p with
          | none => simp [hp]
          | some flag => simp [hp]
      unfold sglangFlags
      rw [hflags, List.flatMap_append, List.flatMap_append]
      split_ifs <;> simp [Flag.words]

end Llmops.Config
