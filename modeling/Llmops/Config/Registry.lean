import Llmops.Config.Launch

/-!
# Building the registry (`build_registry`, `_resolve_specs`)

At boot the backend makes a record of every key that a launcher finds in the configuration. Keys are
glued with `::` and split at its first occurrence, and the schema constrains neither group names nor
instance ids, model tags or adapters, and allows engines that no launcher serves. Settings are JSON
values: a date or a binary of YAML, at which `json.dumps` raises, is left out.

* `faithful_iff`: the registry is built and has one record for each instance, under a key that splits
  back and with the instance's own address and model tag, **iff** the configuration is `WellKeyed`;
* `unsplit_refused`: one group with `::` in its name keeps the backend from booting.
-/

namespace Llmops.Config

open Lib

/-- `ModelRegistry`: the records by key. -/
abbrev Registry := Dict ModelInstance

/-- The launchers with the keys they define. -/
def launchKeys (env : LaunchEnv) (config : RootConfig) : List (Launcher × String) :=
  (launchers env).flatMap fun l => (l.keys config).map fun key => (l, key)

/-- `out[key] = f(launcher.build_spec(config, config_path, key))`. -/
def collectKey {V : Type} (f : LaunchSpec → V) (config : RootConfig) (out : Dict V)
    (p : Launcher × String) : Except Raised (Dict V) :=
  (p.1.buildSpec config p.2).map fun spec => out.set p.2 (f spec)

/-- Every key that a launcher defines, with its spec. -/
def collect {V : Type} (f : LaunchSpec → V) (env : LaunchEnv) (config : RootConfig) :
    Except Raised (Dict V) :=
  (launchKeys env config).foldlM (collectKey f config) []

/-- `build_registry`. -/
def buildRegistry (env : LaunchEnv) (config : RootConfig) : Except Raised Registry :=
  collect ModelInstance.ofSpec env config

/-- `_resolve_specs`. The kind is in the spec. -/
def resolveSpecs (env : LaunchEnv) (config : RootConfig) : Except Raised (Dict LaunchSpec) :=
  collect id env config

/-- The keys that the launchers define. -/
def definedKeys (config : RootConfig) : List String :=
  vllmLauncher.keys config ++ sglangLauncher.keys config ++ embeddingKeys config

theorem map_snd_launchKeys (env : LaunchEnv) (config : RootConfig) :
    (launchKeys env config).map Prod.snd = definedKeys config := by
  simp [launchKeys, launchers, definedKeys, LlmLauncher.toLauncher, embeddingLauncher,
    Function.comp_def]

theorem mem_launchKeys {env : LaunchEnv} {config : RootConfig} {l : Launcher} {key : String} :
    (l, key) ∈ launchKeys env config ↔ l ∈ launchers env ∧ key ∈ l.keys config := by
  simp only [launchKeys, List.mem_flatMap, List.mem_map, Prod.mk.injEq]
  constructor
  · rintro ⟨_, hl, _, hkey, rfl, rfl⟩
    exact ⟨hl, hkey⟩
  · exact fun ⟨hl, hkey⟩ => ⟨l, hl, key, hkey, rfl, rfl⟩

section Collect

variable {V : Type} {f : LaunchSpec → V} {env : LaunchEnv} {config : RootConfig}

/-- The specs of a list of keys, each from its launcher. -/
def Specs (config : RootConfig) (ps : List (Launcher × String)) (specs : Dict LaunchSpec) : Prop :=
  List.Forall₂ (fun p q => q.1 = p.2 ∧ p.1.buildSpec config p.2 = .ok q.2) ps specs

theorem foldlM_collectKey {ps : List (Launcher × String)} {out reg : Dict V} :
    ps.foldlM (collectKey f config) out = .ok reg ↔
      ∃ specs, Specs config ps specs ∧ reg = out.update (specs.map fun q => (q.1, f q.2)) := by
  induction ps generalizing out with
  | nil => simp [Specs, pure, Except.pure, eq_comm]
  | cons p ps ih =>
    rw [List.foldlM_cons]
    unfold Specs
    simp only [List.forall₂_cons_left_iff]
    cases hspec : p.1.buildSpec config p.2 with
    | error e => simp [collectKey, hspec, Except.map, bind, Except.bind]
    | ok spec =>
      simp only [collectKey, hspec, Except.map, bind, Except.bind, ih]
      constructor
      · rintro ⟨specs, hspecs, rfl⟩
        exact ⟨(p.2, spec) :: specs, ⟨(p.2, spec), specs, ⟨rfl, rfl⟩, hspecs, rfl⟩, rfl⟩
      · rintro ⟨_, ⟨q, specs, ⟨hq, hok⟩, hspecs, rfl⟩, rfl⟩
        cases hok
        exact ⟨specs, hspecs, by rw [List.map_cons, Dict.update_cons, hq]⟩

theorem Specs.keys {ps : List (Launcher × String)} {specs : Dict LaunchSpec}
    (h : Specs config ps specs) : specs.keys = ps.map Prod.snd := by
  induction h with
  | nil => rfl
  | cons hp _ ih => rw [List.map_cons, ← ih, ← hp.1]; rfl

theorem keys_mapped (specs : Dict LaunchSpec) :
    Dict.keys (specs.map fun q => (q.1, f q.2)) = specs.keys := by
  simp [Dict.keys, Function.comp_def]

theorem mem_keys_collect {reg : Dict V} (h : collect f env config = .ok reg) {key : String} :
    key ∈ reg.keys ↔ key ∈ definedKeys config := by
  obtain ⟨specs, hspecs, rfl⟩ := foldlM_collectKey.mp h
  rw [Dict.mem_keys_update, keys_mapped, hspecs.keys, map_snd_launchKeys]
  simp [Dict.keys]

theorem unique_collect {reg : Dict V} (h : collect f env config = .ok reg) : reg.Unique := by
  obtain ⟨specs, -, rfl⟩ := foldlM_collectKey.mp h
  exact Dict.Unique.update List.nodup_nil

/-- What the registry has under a key is built by a launcher that defines the key. -/
theorem collect_spec {reg : Dict V} (h : collect f env config = .ok reg) {key : String} {v : V}
    (hget : reg.get key = some v) :
    ∃ l spec, l ∈ launchers env ∧ key ∈ l.keys config ∧ l.buildSpec config key = .ok spec ∧
      v = f spec := by
  obtain ⟨specs, hspecs, rfl⟩ := foldlM_collectKey.mp h
  obtain hmem | hnil := Dict.mem_of_get_update hget
  · obtain ⟨q, hq, hqv⟩ := List.mem_map.mp hmem
    cases hqv
    obtain ⟨i, hi⟩ := List.mem_iff_getElem?.mp hq
    have hlen := hspecs.length_eq
    obtain ⟨hlt, hval⟩ := List.getElem?_eq_some_iff.mp hi
    have hp := hspecs.get (hlen ▸ hlt) hlt
    rw [List.get_eq_getElem, List.get_eq_getElem, hval] at hp
    have hmem : (launchKeys env config)[i] ∈ launchKeys env config := List.getElem_mem _
    obtain ⟨hl, hkey⟩ := mem_launchKeys.mp hmem
    exact ⟨_, q.2, hl, hp.1 ▸ hkey, hp.1 ▸ hp.2, rfl⟩
  · cases hnil

theorem collect_isOk :
    (∃ reg, collect f env config = .ok reg) ↔
      ∀ l ∈ launchers env, ∀ key ∈ l.keys config, ∃ spec, l.buildSpec config key = .ok spec := by
  have hfold (ps : List (Launcher × String)) : (∃ specs, Specs config ps specs) ↔
      ∀ p ∈ ps, ∃ spec, p.1.buildSpec config p.2 = .ok spec := by
    induction ps with
    | nil => simp [Specs]
    | cons p ps ih =>
      rw [List.forall_mem_cons, ← ih]
      unfold Specs
      simp only [List.forall₂_cons_left_iff]
      constructor
      · rintro ⟨_, q, specs, hq, hspecs, rfl⟩
        exact ⟨⟨q.2, hq.2⟩, specs, hspecs⟩
      · rintro ⟨⟨spec, hspec⟩, specs, hspecs⟩
        exact ⟨_, (p.2, spec), specs, ⟨rfl, hspec⟩, hspecs, rfl⟩
  have hall := hfold (launchKeys env config)
  constructor
  · rintro ⟨reg, hreg⟩ l hl key hkey
    obtain ⟨specs, hspecs, -⟩ := foldlM_collectKey.mp hreg
    exact hall.mp ⟨specs, hspecs⟩ (l, key) (mem_launchKeys.mpr ⟨hl, hkey⟩)
  · intro h
    obtain ⟨specs, hspecs⟩ := hall.mpr fun p hp =>
      have hp := mem_launchKeys.mp hp
      h p.1 hp.1 p.2 hp.2
    exact ⟨_, foldlM_collectKey.mpr ⟨specs, hspecs, rfl⟩⟩

end Collect

/-! ## When the registry is faithful -/

/-- The instances that the configuration declares, each with its group. -/
def instancePairs (config : RootConfig) : List (String × LLMEngine × InstanceConfig) :=
  config.llmEngines.flatMap fun p => p.2.instances.map fun inst => (p.1, p.2, inst)

theorem mem_instancePairs {config : RootConfig} {group : String} {engine : LLMEngine}
    {inst : InstanceConfig} :
    (group, engine, inst) ∈ instancePairs config ↔
      (group, engine) ∈ config.llmEngines ∧ inst ∈ engine.instances := by
  simp only [instancePairs, List.mem_flatMap, List.mem_map, Prod.mk.injEq, Prod.exists]
  constructor
  · rintro ⟨_, _, hmem, _, hinst, rfl, rfl, rfl⟩
    exact ⟨hmem, hinst⟩
  · exact fun ⟨hmem, hinst⟩ => ⟨group, engine, hmem, inst, hinst, rfl, rfl, rfl⟩

/-- The keys of the declared instances. -/
def gluedKeys (config : RootConfig) : List String :=
  (instancePairs config).map fun p => glue p.1 p.2.2.id

/-- One record for every instance and one for an embedding server with models; keys that are distinct
and split back; specs with the instance's own address and model tag. -/
structure Faithful (config : RootConfig) (reg : Registry) : Prop where
  keys : reg.keys.Perm (gluedKeys config ++ embeddingKeys config)
  distinct : reg.keys.Nodup
  splits : ∀ p ∈ instancePairs config, partition (glue p.1 p.2.2.id) "::" = (p.1, p.2.2.id)
  own : ∀ p ∈ instancePairs config, ∃ r, reg.get (glue p.1 p.2.2.id) = some r ∧ r.kind = .llm ∧
    r.spec.host = p.2.2.host ∧ r.spec.port = p.2.2.port ∧
    r.spec.modelTag = some p.2.1.settings.modelTag
  embedding : ∀ emb, servedEmbedding config = some emb →
    ∃ r, reg.get embeddingKey = some r ∧ r.kind = .embedding ∧ r.spec.host = emb.host ∧
      r.spec.port = emb.port

/-- What the schema does not ask of a configuration:

* every group with an instance has an engine that a launcher serves, and a name without `::` that does
  not end with `:`;
* no group has an instance id twice, and no group `embedding` has an instance `default` beside an
  embedding server with models;
* under the instance's own fields the model tag is not empty, and the adapters are listed as objects. -/
structure WellKeyed (env : LaunchEnv) (config : RootConfig) : Prop where
  launchable : ∀ p ∈ instancePairs config, p.2.1.settings.engine.launcher.isSome
  splits : ∀ p ∈ instancePairs config, Splits p.1
  distinct : ∀ p ∈ config.llmEngines, (p.2.instances.map (·.id)).Nodup
  apart : (servedEmbedding config).isSome →
    ∀ p ∈ instancePairs config, ¬ (p.1 = "embedding" ∧ p.2.2.id = "default")
  command : ∀ p ∈ instancePairs config,
    CommandLine p.2.1.settings.engine (cliConfig env p.2.1 p.2.2)

section Faithful

variable {env : LaunchEnv} {config : RootConfig} {group : String} {engine : LLMEngine}
  {inst : InstanceConfig} {r : LlmLauncher}

theorem mem_gluedKeys (h : (group, engine, inst) ∈ instancePairs config) :
    glue group inst.id ∈ gluedKeys config :=
  List.mem_map.mpr ⟨_, h, rfl⟩

theorem glue_eq_embeddingKey {id : String} (hg : Splits group) :
    glue group id = embeddingKey ↔ group = "embedding" ∧ id = "default" := by
  constructor
  · intro h
    have hkey : embeddingKey = glue "embedding" "default" := by decide
    exact glue_injective hg (by decide) (h.trans hkey)
  · rintro ⟨rfl, rfl⟩
    decide

theorem find?_id {insts : List InstanceConfig} (hd : (insts.map (·.id)).Nodup)
    (h : inst ∈ insts) : insts.find? (·.id = inst.id) = some inst := by
  induction insts with
  | nil => cases h
  | cons i insts ih =>
    obtain ⟨hi, hd⟩ := List.nodup_cons.mp hd
    obtain rfl | h := List.mem_cons.mp h
    · simp
    · have hne : i.id ≠ inst.id := fun he => hi (List.mem_map.mpr ⟨inst, h, he.symm⟩)
      rw [List.find?_cons_of_neg (by simpa using hne), ih hd h]

/-- Where keys split back and ids are distinct, a key resolves to its own instance. -/
theorem resolve_glue (hg : Splits group) (hd : (engine.instances.map (·.id)).Nodup)
    (h : (group, engine, inst) ∈ instancePairs config) :
    resolve config (glue group inst.id) = .ok (engine, inst) := by
  obtain ⟨hmem, hinst⟩ := mem_instancePairs.mp h
  rw [resolve_eq_ok, partition_glue.mpr hg]
  exact ⟨Dict.get_of_mem config.unique hmem, find?_id hd hinst⟩

theorem launcher_mem (hr : engine.settings.engine.launcher = some r) :
    r.toLauncher env ∈ launchers env := by
  unfold launchers
  cases he : engine.settings.engine with
  | vllm =>
    rw [he] at hr
    cases hr
    simp
  | sglang =>
    rw [he] at hr
    cases hr
    simp
  | llamacpp => rw [he] at hr; cases hr
  | trtllm => rw [he] at hr; cases hr

/-- A launcher of the backend is an LLM launcher, for its engine, or the embedding launcher. -/
theorem mem_launchers {l : Launcher} (h : l ∈ launchers env) :
    (∃ r : LlmLauncher, l = r.toLauncher env ∧ r.engine.launcher = some r) ∨
      l = embeddingLauncher env := by
  simp only [launchers, List.mem_cons, List.not_mem_nil, or_false] at h
  obtain rfl | rfl | rfl := h
  · exact .inl ⟨vllmLauncher, rfl, rfl⟩
  · exact .inl ⟨sglangLauncher, rfl, rfl⟩
  · exact .inr rfl

theorem mem_embeddingKeys {key : String} :
    key ∈ embeddingKeys config ↔ (servedEmbedding config).isSome ∧ key = embeddingKey := by
  unfold embeddingKeys
  split_ifs with h <;> simp [h]

/-- The instances of the launchable groups are those of the two launchers. -/
theorem keys_perm (h : ∀ p ∈ instancePairs config, p.2.1.settings.engine.launcher.isSome) :
    (vllmLauncher.keys config ++ sglangLauncher.keys config).Perm (gluedKeys config) := by
  unfold LlmLauncher.keys gluedKeys
  unfold instancePairs at h ⊢
  generalize config.llmEngines = engines at h ⊢
  induction engines with
  | nil => exact .nil
  | cons p engines ih =>
    simp only [List.flatMap_cons, List.forall_mem_append] at h
    obtain ⟨hp, h⟩ := h
    have ih := ih h
    simp only [List.flatMap_cons, List.map_append, List.map_map, Function.comp_def] at ih ⊢
    cases he : p.2.settings.engine with
    | vllm =>
      have hv : decide (p.2.settings.engine = vllmLauncher.engine) = true := by rw [he]; rfl
      have hs : decide (p.2.settings.engine = sglangLauncher.engine) = false := by rw [he]; rfl
      simp only [List.filter_cons, hv, hs, if_true, Bool.false_eq_true, if_false,
        List.flatMap_cons, List.append_assoc]
      exact ih.append_left _
    | sglang =>
      have hv : decide (p.2.settings.engine = vllmLauncher.engine) = false := by rw [he]; rfl
      have hs : decide (p.2.settings.engine = sglangLauncher.engine) = true := by rw [he]; rfl
      simp only [List.filter_cons, hv, hs, if_true, Bool.false_eq_true, if_false,
        List.flatMap_cons]
      refine List.Perm.trans ?_ (ih.append_left _)
      rw [← List.append_assoc, ← List.append_assoc]
      exact List.perm_append_comm.append_right _
    | llamacpp | trtllm =>
      have hnil : p.2.instances = [] := by
        by_contra hne
        obtain ⟨i, hi⟩ := List.exists_mem_of_ne_nil _ hne
        have := hp _ (List.mem_map.mpr ⟨i, hi, rfl⟩)
        rw [he] at this
        cases this
      simpa [List.filter_cons, he, vllmLauncher, sglangLauncher, hnil] using ih

theorem gluedKeys_eq_flatMap (config : RootConfig) : gluedKeys config =
    config.llmEngines.flatMap fun p => (p.2.instances.map (·.id)).map (glue p.1) := by
  simp [gluedKeys, instancePairs, List.map_flatMap, Function.comp_def]

theorem nodup_gluedKeys (hs : ∀ p ∈ instancePairs config, Splits p.1)
    (hd : ∀ p ∈ config.llmEngines, (p.2.instances.map (·.id)).Nodup) :
    (gluedKeys config).Nodup := by
  rw [gluedKeys_eq_flatMap, List.nodup_flatMap]
  constructor
  · intro p hp
    refine (hd p hp).map_on fun i hi i' _ he => ?_
    obtain ⟨inst, hinst, rfl⟩ := List.mem_map.mp hi
    have hsplit : Splits p.1 := hs (p.1, p.2, inst) (mem_instancePairs.mpr ⟨hp, hinst⟩)
    exact (glue_injective hsplit hsplit he).2
  · refine (List.pairwise_map.mp config.unique).imp_of_mem fun {p q} hp hq hne => ?_
    simp only [Function.onFun, List.disjoint_left, List.map_map, List.mem_map, Function.comp_apply]
    rintro key ⟨i, hi, rfl⟩ ⟨j, hj, he⟩
    have hp : Splits p.1 := hs (p.1, p.2, i) (mem_instancePairs.mpr ⟨hp, hi⟩)
    have hq : Splits q.1 := hs (q.1, q.2, j) (mem_instancePairs.mpr ⟨hq, hj⟩)
    exact hne (glue_injective hq hp he).1.symm

/-- The record of a key that an LLM launcher defines. -/
theorem collected_of_llm {reg : Registry} (h : buildRegistry env config = .ok reg)
    (hr : engine.settings.engine.launcher = some r)
    (hmem : (group, engine, inst) ∈ instancePairs config) :
    ∃ spec, r.buildSpec env config (glue group inst.id) = .ok spec := by
  have hall := collect_isOk.mp ⟨reg, h⟩
  obtain ⟨hgroup, hinst⟩ := mem_instancePairs.mp hmem
  refine hall _ (launcher_mem hr) _ (r.mem_keys.mpr ⟨group, engine, inst, hgroup, ?_, hinst, rfl⟩)
  exact (launcher_engine hr).symm

/-- A faithful registry comes from a well-keyed configuration. -/
theorem wellKeyed_of_faithful {reg : Registry} (h : buildRegistry env config = .ok reg)
    (hf : Faithful config reg) : WellKeyed env config := by
  have hnodup : (gluedKeys config ++ embeddingKeys config).Nodup := hf.keys.nodup_iff.mp hf.distinct
  have hsplits : ∀ p ∈ instancePairs config, Splits p.1 := fun p hp =>
    partition_glue.mp (hf.splits p hp)
  have hids : ∀ p ∈ config.llmEngines, (p.2.instances.map (·.id)).Nodup := by
    intro p hp
    have hkeys : (gluedKeys config).Nodup := hnodup.of_append_left
    rw [gluedKeys_eq_flatMap] at hkeys
    exact ((List.nodup_flatMap.mp hkeys).1 p hp).of_map
  have hapart : ∀ p ∈ instancePairs config, glue p.1 p.2.2.id ∉ embeddingKeys config := by
    intro p hp hmem
    exact (List.nodup_append.mp hnodup).2.2 _ (mem_gluedKeys hp) _ hmem rfl
  have hlaunch : ∀ p ∈ instancePairs config, p.2.1.settings.engine.launcher.isSome := by
    rintro ⟨group, engine, inst⟩ hp
    have hkey : glue group inst.id ∈ definedKeys config := by
      rw [← mem_keys_collect h]
      exact hf.keys.mem_iff.mpr (List.mem_append_left _ (mem_gluedKeys hp))
    unfold definedKeys at hkey
    rw [List.mem_append, List.mem_append] at hkey
    have hllm : ∀ r : LlmLauncher, glue group inst.id ∈ r.keys config →
        engine.settings.engine = r.engine := by
      intro r hr
      obtain ⟨group', engine', inst', hmem, he, hinst, hglue⟩ := r.mem_keys.mp hr
      have hp' : (group', engine', inst') ∈ instancePairs config :=
        mem_instancePairs.mpr ⟨hmem, hinst⟩
      obtain ⟨rfl, -⟩ := glue_injective (hsplits _ hp') (hsplits _ hp) hglue
      have hget := Dict.get_of_mem config.unique hmem
      rw [Dict.get_of_mem config.unique (mem_instancePairs.mp hp).1] at hget
      cases hget
      exact he
    obtain (hv | hs) | he := hkey
    · rw [hllm _ hv]
      rfl
    · rw [hllm _ hs]
      rfl
    · exact absurd he (hapart _ hp)
  refine ⟨hlaunch, hsplits, hids, ?_, ?_⟩
  · rintro hserved ⟨group, engine, inst⟩ hp hemb
    refine hapart _ hp (mem_embeddingKeys.mpr ⟨hserved, ?_⟩)
    exact (glue_eq_embeddingKey (hsplits _ hp)).mpr hemb
  · rintro ⟨group, engine, inst⟩ hp
    obtain ⟨r, hr⟩ := Option.isSome_iff_exists.mp (hlaunch _ hp)
    obtain ⟨spec, hspec⟩ := collected_of_llm h hr hp
    obtain ⟨engine', inst', hresolve, hcommand, -⟩ := LlmLauncher.buildSpec_eq_ok hspec
    rw [resolve_glue (hsplits _ hp) (hids _ (mem_instancePairs.mp hp).1) hp] at hresolve
    cases hresolve
    exact (command_isOk hr).mp hcommand

/-- A well-keyed configuration has a faithful registry. -/
theorem faithful_of_wellKeyed (hw : WellKeyed env config) :
    ∃ reg, buildRegistry env config = .ok reg ∧ Faithful config reg := by
  -- every key of an LLM launcher resolves to one declared instance of that launcher's engine
  have hresolve : ∀ r : LlmLauncher, r.engine.launcher = some r → ∀ key ∈ r.keys config,
      ∃ group engine inst, (group, engine, inst) ∈ instancePairs config ∧
        engine.settings.engine.launcher = some r ∧ glue group inst.id = key ∧
        resolve config key = .ok (engine, inst) := by
    intro r hr key hkey
    obtain ⟨group, engine, inst, hmem, he, hinst, rfl⟩ := r.mem_keys.mp hkey
    have hp : (group, engine, inst) ∈ instancePairs config := mem_instancePairs.mpr ⟨hmem, hinst⟩
    exact ⟨group, engine, inst, hp, he ▸ hr, rfl,
      resolve_glue (hw.splits _ hp) (hw.distinct _ hmem) hp⟩
  have hbuilt : ∀ l ∈ launchers env, ∀ key ∈ l.keys config, ∃ spec,
      l.buildSpec config key = .ok spec := by
    intro l hl key hkey
    obtain ⟨r, rfl, hr⟩ | rfl := mem_launchers hl
    · obtain ⟨group, engine, inst, hp, hre, -, hres⟩ := hresolve r hr key hkey
      have hcommand : ∃ command, r.command env (cliConfig env engine inst) = .ok command :=
        (command_isOk hre).mpr (hw.command (group, engine, inst) hp)
      have hspec : ∃ spec, r.buildSpec env config key = .ok spec :=
        LlmLauncher.buildSpec_isOk hres hcommand
      exact hspec
    · have hkey : key ∈ embeddingKeys config := hkey
      obtain ⟨emb, hemb⟩ := Option.isSome_iff_exists.mp (mem_embeddingKeys.mp hkey).1
      obtain ⟨spec, hspec, -⟩ := buildEmbeddingSpec_of_served hemb
      exact ⟨spec, hspec⟩
  obtain ⟨reg, hreg⟩ := (collect_isOk (f := ModelInstance.ofSpec)).mpr hbuilt
  have hperm : (definedKeys config).Perm (gluedKeys config ++ embeddingKeys config) :=
    (keys_perm hw.launchable).append_right _
  have hnodup : (gluedKeys config ++ embeddingKeys config).Nodup := by
    refine List.nodup_append.mpr ⟨nodup_gluedKeys hw.splits hw.distinct, ?_, ?_⟩
    · unfold embeddingKeys
      split_ifs <;> simp
    · rintro a ha b hb rfl
      obtain ⟨p, hp, rfl⟩ := List.mem_map.mp ha
      obtain ⟨hserved, he⟩ := mem_embeddingKeys.mp hb
      exact hw.apart hserved p hp ((glue_eq_embeddingKey (hw.splits p hp)).mp he)
  have hkeys : reg.keys.Perm (definedKeys config) :=
    (List.perm_ext_iff_of_nodup (unique_collect hreg) (hperm.nodup_iff.mpr hnodup)).mpr
      fun key => mem_keys_collect hreg
  have hrecord : ∀ key ∈ definedKeys config, ∃ r, reg.get key = some r := by
    intro key hkey
    have hmem := (mem_keys_collect hreg).mpr hkey
    exact Option.ne_none_iff_exists'.mp fun hn => Dict.get_eq_none_iff.mp hn hmem
  refine ⟨reg, hreg, hkeys.trans hperm, unique_collect hreg,
    fun p hp => partition_glue.mpr (hw.splits p hp), ?_, ?_⟩
  · rintro ⟨group, engine, inst⟩ hp
    obtain ⟨rec, hrec⟩ := hrecord _ (hperm.mem_iff.mpr (List.mem_append_left _ (mem_gluedKeys hp)))
    refine ⟨rec, hrec, ?_⟩
    obtain ⟨l, spec, hl, hkey, hspec, rfl⟩ := collect_spec hreg hrec
    obtain ⟨r, rfl, hr⟩ | rfl := mem_launchers hl
    · obtain ⟨engine', inst', hres, -, -, hkind, -, hhost, hport, htag⟩ :=
        LlmLauncher.buildSpec_eq_ok hspec
      rw [resolve_glue (hw.splits _ hp) (hw.distinct _ (mem_instancePairs.mp hp).1) hp] at hres
      cases hres
      exact ⟨hkind, hhost, hport, htag⟩
    · have hkey : glue group inst.id ∈ embeddingKeys config := hkey
      obtain ⟨hserved, he⟩ := mem_embeddingKeys.mp hkey
      exact absurd ((glue_eq_embeddingKey (hw.splits _ hp)).mp he) (hw.apart hserved _ hp)
  · intro emb hemb
    have hserved : (servedEmbedding config).isSome := by rw [hemb]; rfl
    have hmem : embeddingKey ∈ embeddingKeys config := mem_embeddingKeys.mpr ⟨hserved, rfl⟩
    obtain ⟨rec, hrec⟩ := hrecord _ (List.mem_append_right _ hmem)
    refine ⟨rec, hrec, ?_⟩
    obtain ⟨l, spec, hl, hkey, hspec, rfl⟩ := collect_spec hreg hrec
    obtain ⟨r, rfl, hr⟩ | rfl := mem_launchers hl
    · obtain ⟨group, engine, inst, hp, -, hglue, -⟩ := hresolve r hr _ hkey
      exact absurd ((glue_eq_embeddingKey (hw.splits _ hp)).mp hglue) (hw.apart hserved _ hp)
    · obtain ⟨spec', hspec', -, hkind, -, hhost, hport⟩ := buildEmbeddingSpec_of_served hemb
      rw [show (embeddingLauncher env).buildSpec = buildEmbeddingSpec env from rfl, hspec'] at hspec
      cases hspec
      exact ⟨hkind, hhost, hport⟩

end Faithful

/-- **The registry is faithful** exactly when the configuration is well keyed. -/
theorem faithful_iff (env : LaunchEnv) (config : RootConfig) :
    (∃ reg, buildRegistry env config = .ok reg ∧ Faithful config reg) ↔ WellKeyed env config :=
  ⟨fun ⟨_, h, hf⟩ => wellKeyed_of_faithful h hf, faithful_of_wellKeyed⟩

/-- A `config.yaml` with one group, `team::qwen`. -/
def unsplitYaml : Json :=
  .obj [("server", .obj [("port", .int 8887)]),
    ("LLM_engines", .obj [("team::qwen", .obj [
      ("instances", .arr [.obj [("id", .str "a"), ("port", .int 8001)]]),
      ("model_config", .obj [("model_tag", .str "Qwen/Qwen3")])])])]

/-- **A valid configuration without a registry.** The key `team::qwen::a` is looked up under the group
`team`. -/
theorem unsplit_refused : ∃ config, RootConfig.validate .strict unsplitYaml = some config ∧
    ¬ ∃ reg, buildRegistry {} config = .ok reg ∧ Faithful config reg := by
  have hany : (RootConfig.validate .strict unsplitYaml).any
      (fun config => (buildRegistry {} config).toOption.isNone) = true := by decide +kernel
  obtain ⟨config, hconfig, hnone⟩ := (Option.any_eq_true _ _).mp hany
  refine ⟨config, hconfig, ?_⟩
  rintro ⟨reg, hreg, -⟩
  rw [hreg] at hnone
  cases hnone

end Llmops.Config
