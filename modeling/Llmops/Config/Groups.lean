import Llmops.Config.Edits

/-!
# An edit of the overlay, seen in the merged configuration

Every edit of a group changes its entry in the overlay and is then merged with `config.yaml` again.
What the merge makes of it is said here once, for all edits: the other groups and the embedding server
stay (`EditOf`), the instances of the group are those of its two sources (`lists_iff`), and its
settings depend on the fields of the settings only (`settings_merged`).
-/

namespace Llmops.Config

open Lib

/-- A file that a JSON parser has read: every group once. -/
def Parsed (file : Option Json) : Prop :=
  ∀ overlay groups, loadOverlay file = some overlay → groupsOf overlay = some groups → groups.Unique

/-- `build_merged_config(config_path, load_overlay(overlay_path))`. -/
def mergedFile (w : Setup) (file : Option Json) : Option RootConfig :=
  (loadOverlay file).bind (buildMergedConfig w.py w.yaml)

/-- The group that `config.yaml` defines. -/
def Setup.baseGroup (w : Setup) (group : String) : Option Json := do
  let base ← (← orEmpty w.yaml).asObj
  let groups ← groupsOf base
  groups.get group

/-! ## The instances of a merged group -/

section Instances

variable {py : Pydantic} {s : Scalar}

theorem idOf_validated {x : Json} {inst : InstanceConfig}
    (h : InstanceConfig.validate py x = some inst) : idOf x = some (.str inst.id) := by
  obtain ⟨d, rfl, hid, -⟩ := InstanceConfig.source h
  rw [idOf, Json.asObj, Option.bind_some, hid]
  rfl

theorem hasId_validated {xs : List Json} {insts : List InstanceConfig}
    (h : xs.mapM (InstanceConfig.validate py) = some insts) :
    HasId xs s ↔ ∃ inst ∈ insts, .str inst.id = s := by
  induction mapM_eq_some_iff.mp h with
  | nil => simp [HasId]
  | @cons x inst xs insts hx htail ih =>
    have ih := ih (mapM_eq_some_iff.mpr htail)
    simp only [HasId, List.exists_mem_cons_iff, idOf_validated hx, Option.some.injEq] at ih ⊢
    rw [ih]

theorem listed_of_getD {d : Dict Json} :
    listed (some (.obj d)) = (((d.get "instances").getD (.arr [])).asArr).getD [] := by
  rw [listed_obj]
  cases d.get "instances" <;> rfl

/-- Only the elements of a list have ids. -/
theorem hasId_iter {v : Json} {xs : List Json} (h : v.iter = some xs) :
    HasId xs s ↔ HasId (v.asArr.getD []) s := by
  cases v with
  | arr => cases h; rfl
  | obj | str =>
    cases h
    simp [HasId, Json.asArr, idOf, Json.asObj]
  | _ => cases h

theorem mergeInstances_arr {base : Json} {overlay out : List Json}
    (h : mergeInstances base overlay = some (.arr out)) : ∃ xs, base = .arr xs := by
  simp only [mergeInstances, Option.bind_eq_bind, Option.bind_eq_some_iff] at h
  obtain ⟨_, -, ids, -, h⟩ := h
  cases overlay with
  | nil =>
    cases h
    exact ⟨out, rfl⟩
  | cons inst overlay =>
    rw [List.foldlM_cons, Option.bind_eq_bind, Option.bind_eq_some_iff] at h
    obtain ⟨_, hinst, -⟩ := h
    simp only [mergeInstance, Option.bind_eq_bind, Option.bind_eq_some_iff] at hinst
    obtain ⟨_, -, xs, hxs, -⟩ := hinst
    exact ⟨xs, Json.asArr_eq_some.mp hxs⟩

/-- The merge fails on an instance without an id. -/
theorem idOf_of_mergeInstances {base out : Json} {overlay : List Json}
    (h : mergeInstances base overlay = some out) : ∀ x ∈ overlay, ∃ s, idOf x = some s := by
  simp only [mergeInstances, Option.bind_eq_bind, Option.bind_eq_some_iff] at h
  obtain ⟨_, -, ids, -, h⟩ := h
  induction overlay generalizing base with
  | nil => exact fun x hx => absurd hx List.not_mem_nil
  | cons inst overlay ih =>
    rw [List.foldlM_cons, Option.bind_eq_bind, Option.bind_eq_some_iff] at h
    obtain ⟨_, hinst, h⟩ := h
    refine List.forall_mem_cons.mpr ⟨?_, ih h⟩
    obtain ⟨s, hs, -⟩ := Option.bind_eq_some_iff.mp hinst
    exact ⟨s, hs⟩

variable {b e : Option Json} {v : Json} {engine : LLMEngine}

/-- The instances of a validated group are those it lists. -/
theorem hasId_listed (h : LLMEngine.validate py v = some engine) :
    HasId (listed (some v)) s ↔ ∃ inst ∈ engine.instances, .str inst.id = s := by
  obtain ⟨d, rfl, ⟨xs, hxs, hinsts⟩, -⟩ := LLMEngine.source h
  rw [listed_of_getD, hxs, ← hasId_validated hinsts]
  rfl

/-- **The instances of a merged group**, by their ids. -/
theorem hasId_merged (h : mergedAt backendFields b e = some v)
    (hv : LLMEngine.validate py v = some engine) :
    (∃ inst ∈ engine.instances, .str inst.id = s) ↔ HasId (listed b) s ∨ HasId (listed e) s := by
  have hnone : ¬ HasId (listed none) s := by simp [listed, HasId]
  rw [← hasId_listed hv]
  cases e with
  | none =>
    have hb : b = some v := by cases b <;> exact h
    simp [hb, hnone]
  | some entry =>
    cases b with
    | none =>
      cases h
      simp [hnone]
    | some base =>
      obtain ⟨b, e, m, rfl, rfl, rfl, hm⟩ := mergeGroup_eq_some (by decide) (by decide) h
      obtain ⟨ovs, insts, hovs, hmerge, hget⟩ := hm.instances
      obtain ⟨d, hd, ⟨xs, hxs, -⟩, -⟩ := LLMEngine.source hv
      cases hd
      rw [hget] at hxs
      cases hxs
      obtain ⟨bs, hbs⟩ := mergeInstances_arr hmerge
      rw [hbs] at hmerge
      obtain ⟨_, hys, hids⟩ := hasId_mergeInstances hmerge
      cases hys
      rw [listed_of_getD, hget, listed_of_getD, hbs, listed_of_getD, ← hasId_iter hovs]
      exact hids s

/-- Every instance that the overlay lists has a string for an id. -/
theorem idOf_listed (h : mergedAt backendFields b e = some v)
    (hv : LLMEngine.validate py v = some engine) {x : Json} (hx : x ∈ listed e) :
    ∃ s, idOf x = some (.str s) := by
  have hsome : ∃ s, idOf x = some s := by
    cases e with
    | none => cases hx
    | some entry =>
      cases b with
      | none =>
        cases h
        obtain ⟨d, rfl, ⟨xs, hxs, hinsts⟩, -⟩ := LLMEngine.source hv
        rw [listed_of_getD, hxs] at hx
        have hall := mapM_isSome_iff.mp (Option.isSome_iff_exists.mpr ⟨_, hinsts⟩) x hx
        obtain ⟨inst, hinst⟩ := Option.isSome_iff_exists.mp hall
        exact ⟨_, idOf_validated hinst⟩
      | some base =>
        obtain ⟨b, e, m, rfl, rfl, rfl, hm⟩ := mergeGroup_eq_some (by decide) (by decide) h
        obtain ⟨ovs, insts, hovs, hmerge, -⟩ := hm.instances
        refine idOf_of_mergeInstances hmerge x ?_
        rw [listed_of_getD] at hx
        cases hget : (Dict.get e "instances").getD (.arr []) with
        | arr ys =>
          rw [hget] at hx hovs
          cases hovs
          exact hx
        | _ =>
          rw [hget] at hx
          cases hx
  obtain ⟨s, hs⟩ := hsome
  obtain ⟨inst, -, hid⟩ := (hasId_merged h hv).mpr (.inr ⟨x, hx, hs⟩)
  exact ⟨inst.id, by rw [hs, ← hid]⟩

end Instances

/-! ## The settings of a merged group -/

section Settings

variable {py : Pydantic}

theorem settings_congr {d d' : Dict Json} {engine engine' : LLMEngine}
    (h : LLMEngine.validate py (.obj d) = some engine)
    (h' : LLMEngine.validate py (.obj d') = some engine')
    (hmodel : d'.get "model_config" = d.get "model_config")
    (hsettings : d'.get "settings" = d.get "settings") : engine'.settings = engine.settings := by
  obtain ⟨_, hd, -, ⟨s, hs, hval⟩, -⟩ := LLMEngine.source h
  obtain ⟨_, hd', -, ⟨s', hs', hval'⟩, -⟩ := LLMEngine.source h'
  cases hd
  cases hd'
  have hkey : settingsKey d' = settingsKey d := by
    unfold settingsKey Dict.has
    rw [hmodel]
  have hget : d'.get (settingsKey d) = d.get (settingsKey d) := by
    unfold settingsKey
    split_ifs
    · exact hmodel
    · exact hsettings
  rw [hkey, hget, hs] at hs'
  cases hs'
  exact Option.some.inj (hval'.symm.trans hval)

/-- The settings of a group over a base group. -/
theorem mergedAt_base {base v : Json} {e : Option Json} {engine : LLMEngine}
    (h : mergedAt backendFields (some base) e = some v)
    (hv : LLMEngine.validate py v = some engine) :
    ∃ b g m : Dict Json, base = .obj b ∧ v = .obj m ∧
      mergeSettings b (fieldOf e "model_config") = some g ∧
      m.get "model_config" = g.get "model_config" ∧ m.get "settings" = b.get "settings" := by
  cases e with
  | none =>
    cases h
    obtain ⟨d, rfl, -⟩ := LLMEngine.source hv
    exact ⟨d, d, d, rfl, rfl, rfl, rfl, rfl⟩
  | some entry =>
    obtain ⟨b, e, m, rfl, rfl, rfl, hm⟩ := mergeGroup_eq_some (by decide) (by decide) h
    obtain ⟨g, hg, hget⟩ := hm.settings
    exact ⟨b, g, m, rfl, rfl, hg, hget, hm.kept _ (by decide) (by decide) (by decide)⟩

/-- **An edit that leaves the settings in the overlay** leaves those of the group. -/
theorem settings_merged {b e e' : Option Json} {v v' : Json} {engine engine' : LLMEngine}
    (h : mergedAt backendFields b e = some v) (hv : LLMEngine.validate py v = some engine)
    (h' : mergedAt backendFields b e' = some v') (hv' : LLMEngine.validate py v' = some engine')
    (hmodel : fieldOf e' "model_config" = fieldOf e "model_config")
    (hsettings : fieldOf e' "settings" = fieldOf e "settings") :
    engine'.settings = engine.settings := by
  cases b with
  | none =>
    have he : e = some v := by cases e <;> exact h
    have he' : e' = some v' := by cases e' <;> exact h'
    subst he he'
    obtain ⟨d, rfl, -⟩ := LLMEngine.source hv
    obtain ⟨d', rfl, -⟩ := LLMEngine.source hv'
    exact settings_congr hv hv' hmodel hsettings
  | some base =>
    obtain ⟨b, g, m, rfl, rfl, hg, hm, hs⟩ := mergedAt_base h hv
    obtain ⟨_, g', m', hb, rfl, hg', hm', hs'⟩ := mergedAt_base h' hv'
    cases hb
    rw [hmodel, hg] at hg'
    cases hg'
    exact settings_congr hv hv' (by rw [hm', hm]) (by rw [hs', hs])

end Settings

/-! ## The keys that a group lists -/

/-- The group has an engine that a launcher serves. -/
def Launches (c : RootConfig) (group : String) : Prop :=
  ∃ engine, c.llmEngines.get group = some engine ∧ engine.settings.engine.launcher.isSome

/-- A launcher finds the key in the group. -/
def Lists (c : RootConfig) (group key : String) : Prop :=
  ∃ engine inst, c.llmEngines.get group = some engine ∧ engine.settings.engine.launcher.isSome ∧
    inst ∈ engine.instances ∧ glue group inst.id = key

theorem mem_definedKeys {c : RootConfig} {key : String} :
    key ∈ definedKeys c ↔ (∃ group, Lists c group key) ∨ key ∈ embeddingKeys c := by
  unfold definedKeys
  rw [List.mem_append, List.mem_append]
  refine or_congr ?_ Iff.rfl
  rw [LlmLauncher.mem_keys, LlmLauncher.mem_keys]
  constructor
  · rintro (⟨group, engine, inst, hmem, he, hinst, hkey⟩ | ⟨group, engine, inst, hmem, he, hinst, hkey⟩)
    all_goals
      refine ⟨group, engine, inst, Dict.get_of_mem c.unique hmem, ?_, hinst, hkey⟩
      rw [he]
      rfl
  · rintro ⟨group, engine, inst, hget, hsome, hinst, hkey⟩
    have hmem := Dict.mem_of_get hget
    cases he : engine.settings.engine with
    | vllm => exact .inl ⟨group, engine, inst, hmem, he, hinst, hkey⟩
    | sglang => exact .inr ⟨group, engine, inst, hmem, he, hinst, hkey⟩
    | llamacpp | trtllm =>
      rw [he] at hsome
      cases hsome

section Lists

variable {py : Pydantic} {c : RootConfig} {group key : String} {b e : Option Json}

theorem mem_ids {engine : LLMEngine} {s : String}
    (h : c.llmEngines.get group = (mergedAt backendFields b e).bind (LLMEngine.validate py))
    (hget : c.llmEngines.get group = some engine) :
    (∃ inst ∈ engine.instances, inst.id = s) ↔
      HasId (listed b) (.str s) ∨ HasId (listed e) (.str s) := by
  rw [h] at hget
  obtain ⟨v, hv, hval⟩ := Option.bind_eq_some_iff.mp hget
  rw [← hasId_merged hv hval]
  simp

/-- The keys of a merged group. -/
theorem lists_iff
    (h : c.llmEngines.get group = (mergedAt backendFields b e).bind (LLMEngine.validate py)) :
    Lists c group key ↔ Launches c group ∧
      ∃ s, (HasId (listed b) (.str s) ∨ HasId (listed e) (.str s)) ∧ glue group s = key := by
  constructor
  · rintro ⟨engine, inst, hget, hsome, hinst, hkey⟩
    exact ⟨⟨engine, hget, hsome⟩, inst.id, (mem_ids h hget).mp ⟨inst, hinst, rfl⟩, hkey⟩
  · rintro ⟨⟨engine, hget, hsome⟩, s, hs, hkey⟩
    obtain ⟨inst, hinst, rfl⟩ := (mem_ids h hget).mpr hs
    exact ⟨engine, inst, hget, hsome, hinst, hkey⟩

end Lists

/-! ## Edits of one group -/

/-- An edit that leaves the other groups as they are. -/
def Touches (group : String) (f : Dict Json → Option (Dict Json)) : Prop :=
  ∀ engines engines', f engines = some engines' →
    (∀ g, g ≠ group → engines'.get g = engines.get g) ∧ (engines.Unique → engines'.Unique)

/-- Two configurations whose overlays differ in one group. -/
structure EditOf (w : Setup) (group : String) (entry entry' : Option Json) (c c' : RootConfig) :
    Prop where
  other : ∀ g, g ≠ group → c'.llmEngines.get g = c.llmEngines.get g
  embedding : c'.embeddingServer = c.embeddingServer
  before : c.llmEngines.get group =
    (mergedAt backendFields (w.baseGroup group) entry).bind (LLMEngine.validate w.py)
  after : c'.llmEngines.get group =
    (mergedAt backendFields (w.baseGroup group) entry').bind (LLMEngine.validate w.py)
  absent : c.llmEngines.get group = none → w.baseGroup group = none ∧ entry = none
  present : c'.llmEngines.get group = none → w.baseGroup group = none ∧ entry' = none

theorem merged_eq_ok {w : Setup} {overlay : Dict Json} {c : RootConfig} :
    w.merged overlay = .ok c ↔ buildMergedConfig w.py w.yaml overlay = some c :=
  orRaise_eq_ok

/-- **What an edit of one group makes of the merged configuration.** -/
theorem editOf {w : Setup} {file : Option Json} {f : Dict Json → Option (Dict Json)}
    {group : String} {overlay : Dict Json} {c c' : RootConfig} (hf : Touches group f)
    (hparsed : Parsed file) (hfile : mergedFile w file = some c)
    (hedit : editGroups file f = some overlay) (hmerged : w.merged overlay = .ok c') :
    Parsed (some (.obj overlay)) ∧ mergedFile w (some (.obj overlay)) = some c' ∧
      ∃ engines engines', (loadOverlay file).bind groupsOf = some engines ∧
        f engines = some engines' ∧
        EditOf w group (engines.get group) (engines'.get group) c c' := by
  obtain ⟨ov, engines, engines', hov, hengines, hf', rfl⟩ := editGroups_eq_some.mp hedit
  obtain ⟨hother, hunique⟩ := hf _ _ hf'
  have hu : engines.Unique := hparsed _ _ hov hengines
  have hmerged : buildMergedConfig w.py w.yaml _ = some c' := merged_eq_ok.mp hmerged
  rw [mergedFile, hov, Option.bind_some] at hfile
  obtain ⟨base, baseGroups, groups, hyaml, hm⟩ := buildMergedConfig_eq_some
    (fun groups hg => by
      rw [hengines] at hg
      cases hg
      exact hu) hfile
  obtain ⟨base', baseGroups', groups', hyaml', hm'⟩ := buildMergedConfig_eq_some
    (fun groups hg => by
      rw [groupsOf_saved] at hg
      cases hg
      exact hunique hu) hmerged
  cases hyaml.symm.trans hyaml'
  cases hm.baseEq.symm.trans hm'.baseEq
  cases hm.overlayEq.symm.trans hengines
  cases hm'.overlayEq.symm.trans (groupsOf_saved ov engines')
  have hbase : ∀ g, w.baseGroup g = baseGroups.get g := by
    intro g
    simp [Setup.baseGroup, hyaml, Json.asObj, hm.baseEq]
  have habsent : ∀ {overlay groups : Dict Json} {config : RootConfig},
      MergeOf w.py base overlay config baseGroups groups → config.llmEngines.get group = none →
        w.baseGroup group = none ∧ groups.get group = none := by
    intro overlay groups config hm hnone
    obtain ⟨hb, he⟩ := not_or.mp (mt (hm.mem group).mpr (Dict.get_eq_none_iff.mp hnone))
    rw [hbase]
    exact ⟨Dict.get_eq_none_iff.mpr hb, Dict.get_eq_none_iff.mpr he⟩
  refine ⟨?_, ?_, engines, engines', by rw [hov]; exact hengines, hf', ?_, ?_, ?_, ?_,
    habsent hm, habsent hm'⟩
  · intro ov' groups hov' hgroups
    rw [load_saved] at hov'
    cases hov'
    rw [groupsOf_saved] at hgroups
    cases hgroups
    exact hunique hu
  · rw [mergedFile, load_saved]
    exact hmerged
  · intro g hg
    rw [hm'.get, hm.get, hother g hg]
  · obtain ⟨emb, hemb, hval⟩ := hm.embedding
    obtain ⟨emb', hemb', hval'⟩ := hm'.embedding
    rw [Dict.get_set_ne (by decide), hemb] at hemb'
    cases hemb'
    cases emb with
    | none => exact Eq.trans hval' (Eq.symm hval)
    | some v => exact Option.some.inj (Eq.trans (Eq.symm hval') hval)
  · rw [hbase]
    exact hm.get group
  · rw [hbase]
    exact hm'.get group

namespace EditOf

variable {w : Setup} {group key : String} {entry entry' : Option Json} {c c' : RootConfig}

theorem embeddingKeys_eq (h : EditOf w group entry entry' c c') :
    embeddingKeys c' = embeddingKeys c := by
  unfold embeddingKeys servedEmbedding
  rw [h.embedding]

/-- The keys that are defined elsewhere stay. -/
theorem mem_definedKeys (h : EditOf w group entry entry' c c') :
    key ∈ definedKeys c' ↔
      (∃ g, g ≠ group ∧ Lists c g key) ∨ Lists c' group key ∨ key ∈ embeddingKeys c := by
  rw [Config.mem_definedKeys, h.embeddingKeys_eq, ← or_assoc]
  refine or_congr ?_ Iff.rfl
  constructor
  · rintro ⟨g, hg⟩
    by_cases hne : g = group
    · exact .inr (hne ▸ hg)
    · obtain ⟨engine, inst, hget, hrest⟩ := hg
      rw [h.other g hne] at hget
      exact .inl ⟨g, hne, engine, inst, hget, hrest⟩
  · rintro (⟨g, hne, engine, inst, hget, hrest⟩ | hg)
    · rw [← h.other g hne] at hget
      exact ⟨g, engine, inst, hget, hrest⟩
    · exact ⟨group, hg⟩

/-- The keys before the edit, in the same form. -/
theorem mem_definedKeys_before :
    key ∈ definedKeys c ↔
      (∃ g, g ≠ group ∧ Lists c g key) ∨ Lists c group key ∨ key ∈ embeddingKeys c := by
  rw [Config.mem_definedKeys, ← or_assoc]
  refine or_congr ?_ Iff.rfl
  constructor
  · rintro ⟨g, hg⟩
    by_cases hne : g = group
    · exact .inr (hne ▸ hg)
    · exact .inl ⟨g, hne, hg⟩
  · rintro (⟨g, -, hg⟩ | hg)
    · exact ⟨g, hg⟩
    · exact ⟨group, hg⟩

/-- An edit that changes no settings keeps the engine of a group that was there. -/
theorem settings_eq (h : EditOf w group entry entry' c c') {engine engine' : LLMEngine}
    (hget : c.llmEngines.get group = some engine) (hget' : c'.llmEngines.get group = some engine')
    (hmodel : fieldOf entry' "model_config" = fieldOf entry "model_config")
    (hsettings : fieldOf entry' "settings" = fieldOf entry "settings") :
    engine'.settings = engine.settings := by
  rw [h.before] at hget
  rw [h.after] at hget'
  obtain ⟨v, hv, hval⟩ := Option.bind_eq_some_iff.mp hget
  obtain ⟨v', hv', hval'⟩ := Option.bind_eq_some_iff.mp hget'
  exact settings_merged hv hval hv' hval' hmodel hsettings

end EditOf

/-! ## The edits -/

section Edits

variable {group instanceId key : String} {engines engines' : Dict Json}

theorem touches_set {f : Dict Json → Option (Dict Json)}
    (h : ∀ engines engines', f engines = some engines' → ∃ v, engines' = Dict.set engines group v) :
    Touches group f := by
  intro engines engines' hf
  obtain ⟨v, rfl⟩ := h _ _ hf
  exact ⟨fun g hg => Dict.get_set_ne hg, fun hu => hu.set⟩

theorem touches_appendInstance {declared : Bool} {instance_ modelConfig : Dict Json}
    {autoscale : Option (Dict Json)} :
    Touches group (appendInstance declared group instance_ modelConfig autoscale) := by
  refine touches_set fun engines engines' h => ?_
  obtain ⟨entry, -, h⟩ := Option.map_eq_some_iff.mp h
  exact ⟨_, h.symm⟩

/-- A replaced instance, with the settings of its group. -/
theorem replaceInstance_eq_some {instance_ modelConfig : Dict Json}
    (h : replaceInstance group instanceId instance_ modelConfig engines = some engines') :
    ∃ entry ys, engines' = engines.set group (.obj entry) ∧
      replaceOrAppend instanceId (.obj instance_) (listed (engines.get group)) = some ys ∧
      listed (some (.obj entry)) = ys := by
  simp only [replaceInstance, Option.bind_eq_bind, Option.bind_eq_some_iff, Json.asObj_eq_some,
    Json.asArr_eq_some, Option.pure_def, Option.some.injEq] at h
  obtain ⟨e, he, xs, hxs, ys, hys, rfl⟩ := h
  refine ⟨_, ys, rfl, ?_, ?_⟩
  · have hlisted : listed (engines.get group) = xs := by
      cases hg : engines.get group with
      | none =>
        rw [hg] at he
        cases he
        cases hxs
        rfl
      | some v =>
        rw [hg] at he
        cases he
        rw [listed_of_getD, hxs]
        rfl
    rw [hlisted]
    exact hys
  · rw [listed_of_getD, Dict.get_set_ne (by decide), Dict.get_set_self]
    rfl

theorem touches_replaceInstance {instance_ modelConfig : Dict Json} :
    Touches group (replaceInstance group instanceId instance_ modelConfig) := by
  refine touches_set fun engines engines' h => ?_
  obtain ⟨entry, -, h, -⟩ := replaceInstance_eq_some h
  exact ⟨_, h⟩

theorem touches_removeInstance : Touches group (removeInstance group instanceId) := by
  intro engines engines' h
  simp only [removeInstance, Option.bind_eq_bind, Option.bind_eq_some_iff] at h
  obtain ⟨e, -, xs, -, ys, -, h⟩ := h
  split_ifs at h
  · cases h
    exact ⟨fun g hg => Dict.get_pop_ne hg, fun hu => hu.pop⟩
  · cases h
    exact ⟨fun g hg => Dict.get_set_ne hg, fun hu => hu.set⟩

/-- A field of a group, set. -/
theorem setField_eq_some {value : Json} (h : setField group key value engines = some engines') :
    ∃ entry : Dict Json, engines' = engines.set group (.obj entry) ∧
      ∀ k, k ≠ key → entry.get k = fieldOf (engines.get group) k := by
  simp only [setField, Option.bind_eq_bind, Option.bind_eq_some_iff, Json.asObj_eq_some,
    Option.pure_def, Option.some.injEq] at h
  obtain ⟨e, he, rfl⟩ := h
  refine ⟨_, rfl, fun k hk => ?_⟩
  rw [Dict.get_set_ne hk]
  cases hg : engines.get group with
  | none =>
    rw [hg] at he
    cases he
    rfl
  | some v =>
    rw [hg] at he
    cases he
    rfl

theorem touches_setField {value : Json} : Touches group (setField group key value) := by
  refine touches_set fun engines engines' h => ?_
  obtain ⟨entry, h, -⟩ := setField_eq_some h
  exact ⟨_, h⟩

theorem listed_eq_fieldOf (entry : Option Json) :
    listed entry = ((fieldOf entry "instances").bind Json.asArr).getD [] := by
  unfold listed fieldOf
  cases entry.bind Json.asObj <;> rfl

/-- Setting a field of a group leaves its other fields, and its instances with them. -/
theorem fieldOf_setField {value : Json} {k : String}
    (h : setField group key value engines = some engines') (hk : k ≠ key) :
    fieldOf (engines'.get group) k = fieldOf (engines.get group) k := by
  obtain ⟨entry, rfl, hfields⟩ := setField_eq_some h
  rw [Dict.get_set_self, ← hfields k hk]
  rfl

theorem listed_setField {value : Json} (h : setField group key value engines = some engines')
    (hkey : key ≠ "instances") : listed (engines'.get group) = listed (engines.get group) := by
  rw [listed_eq_fieldOf, fieldOf_setField h hkey.symm, ← listed_eq_fieldOf]

end Edits

/-! ## Who owns an instance -/

theorem anyWithId_iff {instanceId : String} {xs : List Json} {b : Bool}
    (h : anyWithId instanceId xs = some b) : b = true ↔ HasId xs (.str instanceId) := by
  induction xs with
  | nil =>
    cases h
    simp [HasId]
  | cons i xs ih =>
    rw [anyWithId] at h
    obtain ⟨same, hsame, h⟩ := Option.bind_eq_some_iff.mp h
    obtain ⟨_, rfl, hid⟩ := idIs_eq_some hsame
    rw [show i :: xs = [i] ++ xs from rfl, hasId_append, hasId_singleton, ← hid]
    cases same with
    | true =>
      cases h
      simp
    | false => simpa using ih h

theorem not_hasId_of_entryOwns {groups : Dict Json} {group instanceId : String}
    (h : entryOwns groups group instanceId = some false) :
    ¬ HasId (listed (groups.get group)) (.str instanceId) := by
  unfold entryOwns at h
  cases hg : groups.get group with
  | none => simp [listed, HasId]
  | some entry =>
    rw [hg] at h
    dsimp only at h
    split_ifs at h with ht
    · simp only [Option.bind_eq_bind, Option.bind_eq_some_iff, Json.asObj_eq_some] at h
      obtain ⟨e, rfl, xs, hxs, h⟩ := h
      rw [listed_of_getD, ← hasId_iter hxs, ← anyWithId_iff h]
      exact Bool.false_ne_true
    · cases entry with
      | obj d =>
        have hd : d = [] := by simpa [Json.truthy] using ht
        simp [hd, listed, Json.asObj, HasId]
      | _ => simp [listed, Json.asObj, HasId]

/-- `config_owns` looks into the group that `config.yaml` defines. -/
theorem not_hasId_of_configOwns {w : Setup} {group instanceId : String}
    (h : configOwns w.yaml group instanceId = some false) :
    ¬ HasId (listed (w.baseGroup group)) (.str instanceId) := by
  unfold configOwns at h
  cases hyaml : orEmpty w.yaml with
  | none => simp [Setup.baseGroup, hyaml, listed, HasId]
  | some base =>
    rw [hyaml] at h
    simp only [Option.bind_eq_bind, Option.bind_eq_some_iff] at h
    obtain ⟨d, hd, groups, hgroups, h⟩ := h
    rw [show w.baseGroup group = groups.get group by
      simp [Setup.baseGroup, hyaml, hd, hgroups]]
    exact not_hasId_of_entryOwns h

end Llmops.Config
