import Llmops.Lib.Conversion
import Llmops.Router.Load

/-!
# One configuration, read by two programs

What the router reads of a group in the config that it loaded, and what the backend's typed
configuration declares. The router reads JSON: of a group of `config.yaml` the dump of its typed form,
of what the overlay brings the overlay's own values, which the backend validates and the router does
not.

* `read_validated`, `read_dump`: the settings of a group are read as the typed ones, in the raw form
  and in the dump;
* `resolvesAlike_iff`: the two programs resolve the same configuration exactly if the overlay's
  instances that stand in the merge have integer ports, and the key `settings`, which the schema takes
  for `model_config`, hides nothing (`Seen`).
-/

namespace Llmops.Router

open Lib Config

/-! ## What is read, and what is declared -/

/-- The settings of a group that routing depends on. -/
structure SettingsReading where
  modelTag : Json
  kind : Json
  engine : Json
  adapters : List Json
  strategy : Option Json

/-- A group: its instances' ids and addresses, its settings and its fallback chain. -/
structure GroupReading where
  instances : List (Json × Json × Json)
  settings : SettingsReading
  fallback : List Json

/-- The fields of `model_config` that the router reads, from the values of a lookup. The model tag
defaults to the requested name. -/
def readSettings (requested : String) (look : String → Option Json) : Option SettingsReading := do
  return {
    modelTag := (look "model_tag").getD (.str requested)
    kind := kindOrChat (look "kind")
    engine := (look "engine").getD (.str "vllm")
    adapters := ← adapterNames (look "lora_modules")
    strategy := (look "routing_strategy").filter Json.truthy }

/-- `instance["id"]`, `instance.get("host", "localhost")` and `instance["port"]`. -/
def readInstance (inst : Json) : Option (Json × Json × Json) := do
  let d ← inst.asObj
  return (← d.get "id", (d.get "host").getD (.str "localhost"), ← d.get "port")

/-- `engine.get("fallback") or []`. -/
def readFallback (v : Option Json) : Option (List Json) :=
  if (v.getD .null).truthy then (v.getD .null).iter else some []

/-- What the router reads of a group. -/
def readGroup (requested : String) (entry : Json) : Option GroupReading := do
  let engine ← entry.asObj
  let instances ← (← ((engine.get "instances").getD (.arr [])).iter).mapM readInstance
  let settings ← readSettings requested (← settingsOf engine).get
  return { instances, settings, fallback := ← readFallback (engine.get "fallback") }

/-- The names under which the adapters of a group are served. -/
def servedNames (s : EngineModelConfig) : List String :=
  ((s.loraModules.getD []).map LoraModule.name).filter (· ≠ "")

/-- The group's own strategy. -/
def ownStrategy (s : EngineModelConfig) : Option Json :=
  (s.extra.entries.get "routing_strategy").filter Json.truthy

/-- What the typed settings declare. -/
def declaredSettings (s : EngineModelConfig) : SettingsReading where
  modelTag := .str s.modelTag
  kind := .str s.kind.name
  engine := .str s.engine.name
  adapters := (servedNames s).map .str
  strategy := ownStrategy s

def declaredInstance (inst : InstanceConfig) : Json × Json × Json :=
  (.str inst.id, .str inst.host, .int inst.port)

/-- What a typed group declares. -/
def declaredGroup (engine : LLMEngine) : GroupReading where
  instances := engine.instances.map declaredInstance
  settings := declaredSettings engine.settings
  fallback := (engine.fallback.getD []).map .str

/-- **The router resolves the configuration as the backend does**: the same groups, and each is read
as it is declared. -/
structure ResolvesAlike (c : RootConfig) (engines : Dict Json) : Prop where
  groups : engines.keys = c.llmEngines.keys
  read : ∀ g engine, c.llmEngines.get g = some engine →
    (engines.get g).bind (readGroup g) = some (declaredGroup engine)

/-! ## Settings -/

section Settings

variable {py : Pydantic} {d : Dict Json} {s : EngineModelConfig} {g : String}
  {look look' : String → Option Json} {r : SettingsReading}

/-- What of the source validated settings are read from. -/
theorem settings_source (h : EngineModelConfig.validate py (.obj d) = some s) :
    d.get "model_tag" = some (.str s.modelTag) ∧
      withDefault d "engine" Engine.vllm (literal Engine.name Engine.all) = some s.engine ∧
      withDefault d "kind" Kind.chat (literal Kind.name Kind.all) = some s.kind ∧
      withDefault d "lora_modules" none (optional (listOf LoraModule.validate)) =
        some s.loraModules ∧
      s.extra.entries.get "routing_strategy" = d.get "routing_strategy" := by
  simp only [EngineModelConfig.validate, Option.bind_eq_bind, Option.pure_def,
    Option.bind_eq_some_iff, required_eq_some, Json.asStr_eq_some] at h
  obtain ⟨⟨d', hd⟩, hv, tag, ⟨_, htag, rfl⟩, engine, hengine, kind, hkind, _, -, _, -, _, -, _, -, lora,
    hlora, _, -, hs⟩ := h
  cases entries_eq_some.mp hv
  cases hs
  exact ⟨htag, hengine, hkind, hlora, Dict.get_without (by decide)⟩

theorem kindOrChat_name (k : Kind) : kindOrChat (some (.str k.name)) = .str k.name := by
  cases k <;> rfl

theorem literal_eq_some {α : Type} {name : α → String} {all : List α} {v : Json} {a : α}
    (h : literal name all v = some a) : v = .str (name a) := by
  obtain ⟨t, ht, h⟩ := Option.bind_eq_some_iff.mp h
  have hname := List.find?_some h
  rw [Json.asStr_eq_some.mp ht, ← of_decide_eq_true hname]

theorem adapterNames_arr (xs : List Json) : adapterNames (some (.arr xs)) =
    some (xs.filterMap fun m => (m.asObj.bind (·.get "name")).filter Json.truthy) := by
  cases xs <;> rfl

theorem truthy_str (t : String) : (Json.str t).truthy = decide (t ≠ "") := rfl

/-- The names that are read of adapters, each by its own name. -/
theorem filterMap_names {xs : List Json} {ms : List LoraModule}
    (h : List.Forall₂ (fun x m => ∃ d : Dict Json, x = .obj d ∧
      d.get "name" = some (.str (LoraModule.name m))) xs ms) :
    xs.filterMap (fun m => (m.asObj.bind (·.get "name")).filter Json.truthy) =
      (((ms.map LoraModule.name).filter (· ≠ "")).map .str) := by
  induction h with
  | nil => rfl
  | @cons x m xs ms hx _ ih =>
    obtain ⟨d, rfl, hname⟩ := hx
    rw [List.filterMap_cons, Json.asObj, Option.bind_some, hname, List.map_cons, List.filter_cons]
    by_cases hm : m.name = ""
    · simp [Option.filter_some, truthy_str, hm, ih]
    · simp [Option.filter_some, truthy_str, hm, ih]

theorem adapterNames_validated {v : Option Json} {ms : Option (List LoraModule)}
    (h : (v.elim (some none) (optional (listOf LoraModule.validate))) = some ms) :
    adapterNames v = some (((((ms.getD []).map LoraModule.name).filter (· ≠ ""))).map .str) := by
  cases v with
  | none =>
    cases h
    rfl
  | some w =>
    cases ms with
    | none =>
      obtain rfl := null_of_optional h
      rfl
    | some ms =>
      obtain ⟨xs, rfl, hxs⟩ := listOf_eq_some.mp (of_optional h)
      rw [adapterNames_arr, Option.getD_some, filterMap_names]
      refine (mapM_eq_some_iff.mp hxs).imp fun x m hm => ?_
      simp only [LoraModule.validate, Option.bind_eq_bind, Option.bind_eq_some_iff,
        required_eq_some, Json.asStr_eq_some, Option.pure_def] at hm
      obtain ⟨d, hd, name, ⟨_, hname, rfl⟩, path, -, base, -, hm⟩ := hm
      cases hm
      exact ⟨d.1, entries_eq_some.mp hd, hname⟩

/-- **Validated settings are read as they are declared.** -/
theorem read_validated (h : EngineModelConfig.validate py (.obj d) = some s) :
    readSettings g d.get = some (declaredSettings s) := by
  obtain ⟨htag, hengine, hkind, hlora, hstrategy⟩ := settings_source h
  have hengine' : (d.get "engine").getD (.str "vllm") = .str s.engine.name := by
    obtain ⟨hn, he⟩ | ⟨v, hv, he⟩ := withDefault_eq_some.mp hengine
    · rw [hn, he]
      rfl
    · rw [hv, literal_eq_some he, Option.getD_some]
  have hkind' : kindOrChat (d.get "kind") = .str s.kind.name := by
    obtain ⟨hn, hk⟩ | ⟨v, hv, hk⟩ := withDefault_eq_some.mp hkind
    · rw [hn, hk]
      rfl
    · rw [hv, literal_eq_some hk, kindOrChat_name]
  have hnames : adapterNames (d.get "lora_modules") = some ((servedNames s).map .str) := by
    refine adapterNames_validated ?_
    unfold withDefault at hlora
    cases hl : d.get "lora_modules" <;> rw [hl] at hlora <;> exact hlora
  rw [readSettings, htag, hengine', hkind', hnames, ← hstrategy]
  rfl

/-- **So is their dump.** -/
theorem read_dump (s : EngineModelConfig) : readSettings g s.dump.get = some (declaredSettings s) := by
  have hnames : adapterNames (s.dump.get "lora_modules") = some ((servedNames s).map .str) := by
    rw [show s.dump.get "lora_modules" =
      some (.ofOption (fun ms => .arr (ms.map (.obj ·.dump))) s.loraModules) from rfl]
    unfold servedNames
    cases s.loraModules with
    | none => rfl
    | some ms =>
      rw [Json.ofOption, adapterNames_arr, Option.getD_some, filterMap_names]
      refine List.forall₂_map_left_iff.mpr (List.forall₂_same.mpr fun m _ => ?_)
      exact ⟨m.dump, rfl, rfl⟩
  have hkind : kindOrChat (s.dump.get "kind") = .str s.kind.name := kindOrChat_name s.kind
  have hstrategy : s.dump.get "routing_strategy" = s.extra.entries.get "routing_strategy" := by
    unfold EngineModelConfig.dump Extra.after
    rw [Dict.get_append]
    rfl
  rw [readSettings, hnames, hkind, hstrategy]
  rfl

theorem readSettings_eq_some : readSettings g look = some r ↔
    (look "model_tag").getD (.str g) = r.modelTag ∧ kindOrChat (look "kind") = r.kind ∧
      (look "engine").getD (.str "vllm") = r.engine ∧
      adapterNames (look "lora_modules") = some r.adapters ∧
      (look "routing_strategy").filter Json.truthy = r.strategy := by
  unfold readSettings
  cases hnames : adapterNames (look "lora_modules") with
  | none => simp
  | some names =>
    constructor
    · intro h
      cases h
      exact ⟨rfl, rfl, rfl, rfl, rfl⟩
    · rintro ⟨htag, hkind, hengine, hadapters, hstrategy⟩
      cases hadapters
      obtain ⟨_, _, _, _, _⟩ := r
      subst htag hkind hengine hstrategy
      rfl

/-- Two lookups that read the same also do under the same updates. -/
theorem readSettings_or {u : String → Option Json} {r' : SettingsReading}
    (h : readSettings g look = some r) (h' : readSettings g look' = some r)
    (hu : readSettings g (fun k => (u k).or (look k)) = some r') :
    readSettings g (fun k => (u k).or (look' k)) = some r' := by
  obtain ⟨htag, hkind, hengine, hadapters, hstrategy⟩ := readSettings_eq_some.mp h
  obtain ⟨htag', hkind', hengine', hadapters', hstrategy'⟩ := readSettings_eq_some.mp h'
  obtain ⟨hutag, hukind, huengine, huadapters, hustrategy⟩ := readSettings_eq_some.mp hu
  refine readSettings_eq_some.mpr ⟨?_, ?_, ?_, ?_, ?_⟩
  · rw [← hutag]
    cases u "model_tag" with
    | none => exact htag'.trans htag.symm
    | some v => rfl
  · rw [← hukind]
    cases u "kind" with
    | none => exact hkind'.trans hkind.symm
    | some v => rfl
  · rw [← huengine]
    cases u "engine" with
    | none => exact hengine'.trans hengine.symm
    | some v => rfl
  · rw [← huadapters]
    cases u "lora_modules" with
    | none => exact hadapters'.trans hadapters.symm
    | some v => rfl
  · rw [← hustrategy]
    cases u "routing_strategy" with
    | none => exact hstrategy'.trans hstrategy.symm
    | some v => rfl

/-- Settings that say no more than the router assumes where it finds none. -/
structure Plain (g : String) (s : EngineModelConfig) : Prop where
  modelTag : s.modelTag = g
  kind : s.kind = .chat
  engine : s.engine = .vllm
  adapters : servedNames s = []
  strategy : ownStrategy s = none

/-- The fields where these settings say more are set again by the updates. -/
structure Restated (u : String → Option Json) (s : EngineModelConfig) : Prop where
  kind : u "kind" = none → s.kind = .chat
  engine : u "engine" = none → s.engine = .vllm
  adapters : u "lora_modules" = none → servedNames s = []
  strategy : u "routing_strategy" = none → ownStrategy s = none

theorem kind_eq_chat {k : Kind} : Json.str k.name = .str "chat" ↔ k = .chat := by
  cases k <;> simp [Kind.name]

theorem engine_eq_vllm {e : Engine} : Json.str e.name = .str "vllm" ↔ e = .vllm := by
  cases e <;> simp [Engine.name]

/-- Where the router finds no settings. -/
theorem read_none : readSettings g (fun _ => none) = some (declaredSettings s) ↔ Plain g s := by
  rw [readSettings_eq_some]
  constructor
  · rintro ⟨htag, hkind, hengine, hadapters, hstrategy⟩
    refine ⟨?_, kind_eq_chat.mp hkind.symm, engine_eq_vllm.mp hengine.symm, ?_, hstrategy.symm⟩
    · exact (Json.str.inj htag).symm
    · exact List.map_eq_nil_iff.mp (Option.some.inj hadapters).symm
  · rintro ⟨htag, hkind, hengine, hadapters, hstrategy⟩
    refine ⟨?_, (kind_eq_chat.mpr hkind).symm, (engine_eq_vllm.mpr hengine).symm, ?_,
      hstrategy.symm⟩
    · exact congrArg Json.str htag.symm
    · rw [declaredSettings, hadapters]
      rfl

/-- Updates that stand alone for the backend, and over a dump for the router. -/
theorem read_over_dump {u : String → Option Json} (htag : (u "model_tag").isSome)
    (hu : readSettings g u = some r) :
    readSettings g (fun k => (u k).or (s.dump.get k)) = some r ↔ Restated u s := by
  obtain ⟨hutag, hukind, huengine, huadapters, hustrategy⟩ := readSettings_eq_some.mp hu
  obtain ⟨-, hkind, hengine, hadapters, hstrategy⟩ :=
    readSettings_eq_some.mp (read_dump s (g := g))
  rw [readSettings_eq_some]
  constructor
  · rintro ⟨-, hkind', hengine', hadapters', hstrategy'⟩
    constructor <;> intro hnone
    · rw [hnone] at hukind hkind'
      exact kind_eq_chat.mp (hkind.symm.trans (hkind'.trans hukind.symm))
    · rw [hnone] at huengine hengine'
      exact engine_eq_vllm.mp (hengine.symm.trans (hengine'.trans huengine.symm))
    · rw [hnone] at huadapters hadapters'
      exact List.map_eq_nil_iff.mp (Option.some.inj
        (hadapters.symm.trans (hadapters'.trans huadapters.symm)))
    · rw [hnone] at hustrategy hstrategy'
      exact hstrategy.symm.trans (hstrategy'.trans hustrategy.symm)
  · rintro ⟨hk, he, ha, ht⟩
    refine ⟨?_, ?_, ?_, ?_, ?_⟩
    · obtain ⟨v, hv⟩ := Option.isSome_iff_exists.mp htag
      rw [hv] at hutag ⊢
      exact hutag
    · cases hnone : u "kind" with
      | some v => rw [← hukind, hnone, Option.some_or]
      | none =>
        rw [← hukind, hnone, Option.none_or, hkind]
        exact kind_eq_chat.mpr (hk hnone)
    · cases hnone : u "engine" with
      | some v => rw [← huengine, hnone, Option.some_or]
      | none =>
        rw [← huengine, hnone, Option.none_or, hengine]
        exact engine_eq_vllm.mpr (he hnone)
    · cases hnone : u "lora_modules" with
      | some v => rw [← huadapters, hnone, Option.some_or]
      | none =>
        rw [← huadapters, hnone, Option.none_or, hadapters, declaredSettings, ha hnone]
        rfl
    · cases hnone : u "routing_strategy" with
      | some v => rw [← hustrategy, hnone, Option.some_or]
      | none =>
        rw [← hustrategy, hnone, Option.none_or, hstrategy]
        exact ht hnone

end Settings

/-! ## Instances -/

section Instances

variable {py : Pydantic} {x : Json} {inst : InstanceConfig} {xs ovs : List Json}
  {base insts : List InstanceConfig} {ids : List Scalar}

/-- The port of the instance is an integer, and not what pydantic converts to one. -/
def IntPort (x : Json) : Prop := ∃ (d : Dict Json) (n : Int), x = .obj d ∧ d.get "port" = some (.int n)

/-- A validated instance is read as it is declared, its port if that is an integer. -/
theorem readInstance_validated (h : InstanceConfig.validate py x = some inst) :
    readInstance x = some (declaredInstance inst) ↔ IntPort x := by
  obtain ⟨d, rfl, hid, hhost, p, hport, hp⟩ := InstanceConfig.source h
  have hread : readInstance (.obj d) = some (.str inst.id, .str inst.host, p) := by
    simp [readInstance, Json.asObj, hid, hhost, hport]
  rw [hread]
  constructor
  · intro heq
    cases heq
    exact ⟨d, _, rfl, hport⟩
  · rintro ⟨_, n, heq, hn⟩
    cases heq
    cases hport.symm.trans hn
    have hval : n = inst.port := Option.some.inj ((py.int_int n).symm.trans hp)
    rw [hval]
    rfl

theorem readInstance_dump (inst : InstanceConfig) :
    readInstance (.obj inst.dump) = some (declaredInstance inst) := rfl

theorem getElem?_mergedInstances {bs : List Json} {n : Nat} : (mergedInstances ids bs ovs)[n]? =
    if n < bs.length then (bs[n]?).map fun b => (lastFor ids ovs n).getD b
    else (ovs.filter fun o => placeOf ids o = none)[n - bs.length]? := by
  unfold mergedInstances
  split_ifs with hn
  · rw [List.getElem?_append_left (by simpa using hn), List.getElem?_mapIdx]
  · rw [List.getElem?_append_right (by simpa using hn), List.length_mapIdx]

theorem length_mergedInstances {bs : List Json} : (mergedInstances ids bs ovs).length =
    bs.length + (ovs.filter fun o => placeOf ids o = none).length := by
  simp [mergedInstances]

/-- A standing instance has one place in every merge. -/
theorem exists_place (h : Standing ids ovs x) : ∃ n : Nat, ∀ bs : List Json,
    bs.length = ids.length → (mergedInstances ids bs ovs)[n]? = some x := by
  obtain ⟨hmem, hstands⟩ := h
  cases hplace : placeOf ids x with
  | none =>
    have htail : x ∈ ovs.filter fun o => placeOf ids o = none :=
      List.mem_filter.mpr ⟨hmem, by simpa using hplace⟩
    obtain ⟨k, hk⟩ := List.mem_iff_getElem?.mp htail
    refine ⟨ids.length + k, fun bs hbs => ?_⟩
    rw [getElem?_mergedInstances, if_neg (by omega), hbs, Nat.add_sub_cancel_left]
    exact hk
  | some n =>
    have hn := placeOf_lt hplace
    refine ⟨n, fun bs hbs => ?_⟩
    rw [getElem?_mergedInstances, if_pos (by omega), hstands n hplace,
      List.getElem?_eq_getElem (by omega)]
    rfl

/-- What is at a place of a merge stands there, or is the base's. -/
theorem standing_or_base {bs : List Json} {n : Nat} {y : Json} (hlen : bs.length = ids.length)
    (h : (mergedInstances ids bs ovs)[n]? = some y) :
    (Standing ids ovs y ∧ ∀ bs' : List Json, bs'.length = ids.length →
        (mergedInstances ids bs' ovs)[n]? = some y) ∨
      bs[n]? = some y ∧ ∀ bs' : List Json, bs'.length = ids.length →
        (mergedInstances ids bs' ovs)[n]? = bs'[n]? := by
  rw [getElem?_mergedInstances] at h
  split_ifs at h with hn
  · cases hlast : lastFor ids ovs n with
    | some o =>
      rw [hlast, List.getElem?_eq_getElem hn] at h
      cases h
      refine .inl ⟨(standing_of_lastFor hlast).1, fun bs' hbs' => ?_⟩
      rw [getElem?_mergedInstances, if_pos (by omega), hlast, List.getElem?_eq_getElem (by omega)]
      rfl
    | none =>
      rw [hlast] at h
      refine .inr ⟨by simpa using h, fun bs' hbs' => ?_⟩
      rw [getElem?_mergedInstances, if_pos (by omega), hlast]
      simp
  · refine .inl ⟨⟨?_, fun m hm => ?_⟩, fun bs' hbs' => ?_⟩
    · exact (List.mem_filter.mp (List.mem_of_getElem? h)).1
    · have hnone := (List.mem_filter.mp (List.mem_of_getElem? h)).2
      rw [hm] at hnone
      simp at hnone
    · rw [getElem?_mergedInstances, if_neg (by omega), hbs', ← hlen]
      exact h

/-- **The merged instances are read as they are declared** exactly if those of the overlay that
stand have integer ports. -/
theorem readInstances_merged (hlen : xs.length = ids.length)
    (hbase : xs.mapM (InstanceConfig.validate py) = some base)
    (hvalid : (mergedInstances ids xs ovs).mapM (InstanceConfig.validate py) = some insts) :
    (mergedInstances ids (base.map fun i => .obj i.dump) ovs).mapM readInstance =
        some (insts.map declaredInstance) ↔
      ∀ x, Standing ids ovs x → IntPort x := by
  obtain ⟨hbaseLen, hbaseAt⟩ := mapM_eq_some_getElem.mp hbase
  obtain ⟨hvalidLen, hvalidAt⟩ := mapM_eq_some_getElem.mp hvalid
  have hdumps : (base.map fun i => Json.obj i.dump).length = ids.length := by
    rw [List.length_map]
    omega
  rw [mapM_eq_some_getElem]
  constructor
  · rintro ⟨-, hread⟩ x hstands
    obtain ⟨n, hplace⟩ := exists_place hstands
    obtain ⟨inst, hinst, hval⟩ := hvalidAt n x (hplace xs hlen)
    obtain ⟨r, hr, hreadAt⟩ := hread n x (hplace _ hdumps)
    rw [List.getElem?_map, hinst] at hr
    cases hr
    exact (readInstance_validated hval).mp hreadAt
  · intro hports
    refine ⟨?_, fun n y hy => ?_⟩
    · rw [length_mergedInstances] at hvalidLen ⊢
      simp only [List.length_map]
      omega
    · obtain ⟨hstands, hplace⟩ | ⟨hdump, hplace⟩ := standing_or_base hdumps hy
      · obtain ⟨inst, hinst, hval⟩ := hvalidAt n y (hplace xs hlen)
        refine ⟨declaredInstance inst, by rw [List.getElem?_map, hinst]; rfl, ?_⟩
        exact (readInstance_validated hval).mpr (hports y hstands)
      · rw [List.getElem?_map, Option.map_eq_some_iff] at hdump
        obtain ⟨i, hi, rfl⟩ := hdump
        have hlt : n < xs.length := by
          have := (List.getElem?_eq_some_iff.mp hi).1
          omega
        have hx : xs[n]? = some xs[n] := List.getElem?_eq_getElem hlt
        obtain ⟨i', hi', hval⟩ := hbaseAt n _ hx
        cases hi.symm.trans hi'
        obtain ⟨inst, hinst, hval'⟩ := hvalidAt n _ ((hplace xs hlen).trans hx)
        cases hval.symm.trans hval'
        exact ⟨declaredInstance i, by rw [List.getElem?_map, hinst]; rfl, rfl⟩

end Instances

/-! ## Groups -/

section Groups

variable {py : Pydantic} {g : String} {b e m d s : Dict Json} {xs : List Json} {engine : LLMEngine}

theorem settingsOf_obj (h : e.get "model_config" = some (.obj s)) : settingsOf e = some s := by
  unfold settingsOf
  rw [h]
  cases s <;> rfl

theorem settingsOf_none (h : e.get "model_config" = none) : settingsOf e = some [] := by
  unfold settingsOf
  rw [h]
  rfl

theorem readFallback_arr (xs : List Json) : readFallback (some (.arr xs)) = some xs := by
  cases xs <;> rfl

theorem readFallback_validated {v : Option Json} {fallback : Option (List String)}
    (h : v.elim (fallback = none) fun f =>
      Config.optional (listOf Json.asStr) f = some fallback) :
    readFallback v = some ((fallback.getD []).map .str) := by
  cases v with
  | none =>
    cases h
    rfl
  | some f =>
    cases fallback with
    | none =>
      obtain rfl := null_of_optional h
      rfl
    | some names =>
      obtain ⟨xs, rfl, hxs⟩ := listOf_eq_some.mp (of_optional h)
      have hval : List.Forall₂ Eq xs (names.map .str) := List.forall₂_map_right_iff.mpr
        ((mapM_eq_some_iff.mp hxs).imp fun _ _ hx => Json.asStr_eq_some.mp hx)
      rw [List.forall₂_eq_eq_eq] at hval
      rw [readFallback_arr, hval]
      rfl

theorem readFallback_dump (fallback : Option (List String)) :
    readFallback (some (.ofOption (fun gs => .arr (gs.map .str)) fallback)) =
      some ((fallback.getD []).map .str) := by
  cases fallback with
  | none => rfl
  | some names => exact readFallback_arr _

/-- A group is read as it is declared if its parts are. -/
theorem readGroup_iff (hs : settingsOf e = some s)
    (hxs : ((e.get "instances").getD (.arr [])).iter = some xs) :
    readGroup g (.obj e) = some (declaredGroup engine) ↔
      xs.mapM readInstance = some (engine.instances.map declaredInstance) ∧
        readSettings g s.get = some (declaredSettings engine.settings) ∧
          readFallback (e.get "fallback") = some ((engine.fallback.getD []).map .str) := by
  simp only [readGroup, Json.asObj, hs, hxs, Option.bind_eq_bind, Option.bind_some,
    Option.pure_def, Option.bind_eq_some_iff, Option.some.injEq]
  constructor
  · rintro ⟨insts, hinsts, settings, hsettings, fallback, hfallback, heq⟩
    cases heq
    exact ⟨hinsts, hsettings, hfallback⟩
  · rintro ⟨hinsts, hsettings, hfallback⟩
    exact ⟨_, hinsts, _, hsettings, _, hfallback, rfl⟩

/-- A dump is read as it is declared. -/
theorem readGroup_dump (engine : LLMEngine) :
    readGroup g (.obj engine.dump) = some (declaredGroup engine) := by
  obtain ⟨hcfg, hinsts, hfallback⟩ := get_engine_dump engine
  refine (readGroup_iff (settingsOf_obj hcfg) (by rw [hinsts]; rfl)).mpr ⟨?_, read_dump _, ?_⟩
  · rw [mapM_eq_some_iff, List.forall₂_map_left_iff, List.forall₂_map_right_iff]
    exact List.forall₂_same.mpr fun inst _ => readInstance_dump inst
  · rw [hfallback]
    exact readFallback_dump engine.fallback

/-- The overlay's entry of a group shows the router what the backend takes from it. -/
structure Seen (py : Pydantic) (g : String) (base : Option Json) (entry : Json) : Prop where
  ports : ∀ ids, (listed base).mapM idOf = some ids →
    ∀ x, Standing ids (listed (some entry)) x → IntPort x
  own : base = none → ∀ (e : Dict Json) (engine : LLMEngine), entry = .obj e →
    e.get "model_config" = none → LLMEngine.validate py entry = some engine →
      Plain g engine.settings
  shared : ∀ (b e u : Dict Json) (ov : Json) (engine : LLMEngine), base = some (.obj b) →
    entry = .obj e → b.get "model_config" = none → LLMEngine.validate py (.obj b) = some engine →
      e.get "model_config" = some ov → ov.truthy = true → ov.pairs = some u →
        Restated (Dict.update [] u).get engine.settings

theorem placeOf_nil (x : Json) : placeOf [] x = none := by
  unfold placeOf
  cases idOf x <;> rfl

theorem mergedInstances_nil (ovs : List Json) : mergedInstances [] [] ovs = ovs := by
  simp [mergedInstances, placeOf_nil]

/-- A group that only the overlay has. -/
theorem readGroup_own {entry : Json} (h : LLMEngine.validate py entry = some engine) :
    readGroup g entry = some (declaredGroup engine) ↔ Seen py g none entry := by
  obtain ⟨e, rfl, ⟨xs, hxs, hinsts⟩, ⟨v, hv, hsettings⟩, hfallback⟩ := LLMEngine.source h
  have hlisted : listed (some (.obj e)) = xs := by
    rw [listed_of_getD, hxs]
    rfl
  have hiter : ((e.get "instances").getD (.arr [])).iter = some xs := by
    rw [hxs]
    rfl
  have hports : xs.mapM readInstance = some (engine.instances.map declaredInstance) ↔
      ∀ ids, (listed none).mapM idOf = some ids →
        ∀ x, Standing ids (listed (some (.obj e))) x → IntPort x := by
    have hmerged := @readInstances_merged py [] xs [] engine.instances [] rfl rfl
      (by rw [mergedInstances_nil]; exact hinsts)
    rw [List.map_nil, mergedInstances_nil] at hmerged
    rw [hmerged, hlisted]
    exact ⟨fun h ids hids => by cases hids; exact h, fun h => h [] rfl⟩
  have hread : readFallback (e.get "fallback") = some ((engine.fallback.getD []).map .str) :=
    readFallback_validated hfallback
  cases hcfg : Dict.get e "model_config" with
  | some cfg =>
    have hkey : settingsKey e = "model_config" := by simp [settingsKey, Dict.has, hcfg]
    rw [hkey, hcfg] at hv
    cases hv
    obtain ⟨⟨s, hs⟩, hentries, -⟩ := Option.bind_eq_some_iff.mp hsettings
    obtain rfl := entries_eq_some.mp hentries
    rw [readGroup_iff (settingsOf_obj hcfg) hiter, hports]
    constructor
    · rintro ⟨hp, -, -⟩
      refine ⟨hp, fun _ e' _ heq hnone => ?_, fun _ _ _ _ _ hbase => by cases hbase⟩
      cases heq
      rw [hcfg] at hnone
      cases hnone
    · exact fun hseen => ⟨hseen.ports, read_validated hsettings, hread⟩
  | none =>
    rw [readGroup_iff (settingsOf_none hcfg) hiter, hports]
    have hplain := read_none (g := g) (s := engine.settings)
    constructor
    · rintro ⟨hp, hset, -⟩
      refine ⟨hp, fun _ e' engine' _ _ heng => ?_, fun _ _ _ _ _ hbase => by cases hbase⟩
      cases h.symm.trans heng
      exact hplain.mp hset
    · exact fun hseen => ⟨hseen.ports, hplain.mpr (hseen.own rfl e engine rfl hcfg h), hread⟩

/-! ### A group that both have -/

/-- An update over a dictionary is the update alone, then the dictionary. -/
theorem get_update_or {d u : Dict Json} {k : String} :
    (d.update u).get k = ((Dict.update [] u).get k).or (d.get k) := by
  induction u using List.reverseRecOn with
  | nil => rfl
  | append_singleton u p ih =>
    have hlast (d : Dict Json) : d.update (u ++ [p]) = (d.update u).set p.1 p.2 := by
      simp [Dict.update]
    rw [hlast, hlast, Dict.get_set, Dict.get_set, ih]
    split_ifs <;> rfl

/-- The overlay's instances are those that its entry lists. -/
theorem listed_of_iter {ovs : List Json} (h : ((e.get "instances").getD (.arr [])).iter = some ovs)
    (hids : ∀ x ∈ ovs, (idOf x).isSome) : listed (some (.obj e)) = ovs := by
  rw [listed_of_getD]
  cases hv : (Dict.get e "instances").getD (.arr []) with
  | arr xs =>
    rw [hv] at h
    exact Option.some.inj h
  | obj d =>
    rw [hv] at h
    cases h
    cases d with
    | nil => rfl
    | cons p d => cases hids (.str p.1) List.mem_cons_self
  | str t =>
    rw [hv] at h
    cases h
    cases ht : t.toList with
    | nil => rfl
    | cons ch cs => cases hids (.str (.singleton ch)) (by rw [ht]; exact List.mem_cons_self)
  | _ =>
    rw [hv] at h
    cases h

variable {base : LLMEngine} {gb gd : Dict Json}

/-- What `mergeSettings` does: nothing, or an update of what is there. -/
theorem mergeSettings_cases {ovCfg : Option Json} (h : mergeSettings b ovCfg = some gb) :
    gb = b ∧ (∀ ov, ovCfg = some ov → ov.truthy = false) ∨
      ∃ ov cfg u, ovCfg = some ov ∧ ov.truthy = true ∧ ov.pairs = some u ∧
        (b.get "model_config").getD (.obj []) = .obj cfg ∧
        gb.get "model_config" = some (.obj (Dict.update cfg u)) := by
  unfold mergeSettings at h
  split at h
  · cases h
    exact .inl ⟨rfl, fun ov hov => by cases hov⟩
  next ov =>
    split_ifs at h with ht
    · obtain ⟨cfg, hcfg, h⟩ := Option.bind_eq_some_iff.mp h
      obtain ⟨u, hu, h⟩ := Option.bind_eq_some_iff.mp h
      cases h
      exact .inr ⟨ov, cfg, u, rfl, ht, hu, Json.asObj_eq_some.mp hcfg, Dict.get_set_self⟩
    · cases h
      exact .inl ⟨rfl, fun ov' hov => by cases hov; exact Bool.eq_false_iff.mpr ht⟩

/-- The condition on the settings of a group that both have. -/
def SettingsSeen (py : Pydantic) (b e : Dict Json) : Prop :=
  ∀ (u : Dict Json) (ov : Json) (engine : LLMEngine), b.get "model_config" = none →
    LLMEngine.validate py (.obj b) = some engine → e.get "model_config" = some ov →
      ov.truthy = true → ov.pairs = some u → Restated (Dict.update [] u).get engine.settings

theorem settings_both (hbase : LLMEngine.validate py (.obj b) = some base)
    (hval : LLMEngine.validate py (.obj m) = some engine) {m' : Dict Json}
    (hm : Merged backendFields b e m) (hm' : Merged routerFields base.dump e m') :
    ∃ s, settingsOf m' = some s ∧
      (readSettings g s.get = some (declaredSettings engine.settings) ↔ SettingsSeen py b e) := by
  obtain ⟨gb, hgb, hgetB⟩ := hm.settings
  obtain ⟨gd, hgd, hgetD⟩ := hm'.settings
  obtain ⟨_, hd, -, ⟨v, hv, hsettings⟩, -⟩ := LLMEngine.source hval
  cases hd
  obtain ⟨_, hd, -, ⟨v₀, hv₀, hsettings₀⟩, -⟩ := LLMEngine.source hbase
  cases hd
  obtain ⟨hcfg, -, -⟩ := get_engine_dump base
  obtain ⟨rfl, hfalsy⟩ | ⟨ov, cfg, u, hov, ht, hu, hcfgB, hupB⟩ := mergeSettings_cases hgb
  · -- The overlay has no settings, and the typed ones are the base's.
    obtain ⟨rfl, -⟩ | ⟨ov, -, -, hov, ht, -⟩ := mergeSettings_cases hgd
    · have hkey : settingsKey m = settingsKey gb := by
        unfold settingsKey Dict.has
        rw [hgetB]
      have hsame : m.get (settingsKey gb) = gb.get (settingsKey gb) := by
        unfold settingsKey
        split_ifs
        · exact hgetB
        · exact hm.kept "settings" (by decide) (by decide) (by decide)
      rw [hkey, hsame, hv₀] at hv
      cases hv
      refine ⟨base.settings.dump, settingsOf_obj (hgetD.trans hcfg), iff_of_true ?_ ?_⟩
      · rw [show base.settings = engine.settings from Option.some.inj
          (hsettings₀.symm.trans hsettings)]
        exact read_dump engine.settings
      · intro u ov engine' _ _ hov ht
        rw [hfalsy ov hov] at ht
        cases ht
    · rw [hfalsy ov hov] at ht
      cases ht
  · obtain ⟨-, hfalsy⟩ | ⟨ov', cfg', u', hov', -, hu', hcfgD, hupD⟩ := mergeSettings_cases hgd
    · rw [hfalsy ov hov] at ht
      cases ht
    · cases hov.symm.trans hov'
      cases hu.symm.trans hu'
      rw [hcfg, Option.getD_some] at hcfgD
      cases hcfgD
      have hkey : settingsKey m = "model_config" := by
        simp [settingsKey, Dict.has, hgetB, hupB]
      rw [hkey, hgetB, hupB] at hv
      cases hv
      have hread := read_validated (g := g) hsettings
      have hdump : (Dict.update base.settings.dump u).get =
          fun k => ((Dict.update [] u).get k).or (base.settings.dump.get k) := by
        funext k
        exact get_update_or
      refine ⟨_, settingsOf_obj (hgetD.trans hupD), ?_⟩
      rw [hdump]
      cases hb : b.get "model_config" with
      | some w =>
        -- The typed settings are an update of the base's, as the router's are of their dump.
        have hkey₀ : settingsKey b = "model_config" := by simp [settingsKey, Dict.has, hb]
        rw [hb, Option.getD_some] at hcfgB
        rw [hkey₀, hb, hcfgB] at hv₀
        cases hv₀
        have hraw : (Dict.update cfg u).get =
            fun k => ((Dict.update [] u).get k).or (Dict.get cfg k) := by
          funext k
          exact get_update_or
        rw [hraw] at hread
        refine iff_of_true (readSettings_or (read_validated hsettings₀) (read_dump _) hread) ?_
        intro _ _ _ hnone
        rw [hb] at hnone
        cases hnone
      | none =>
        -- The typed settings are the overlay's alone.
        rw [hb, Option.getD_none] at hcfgB
        cases hcfgB
        obtain ⟨htag, -⟩ := settings_source hsettings
        rw [read_over_dump (by rw [htag]; rfl) hread]
        constructor
        · intro hrestated u' ov' base' _ hbase' hov' _ hu'
          cases hbase.symm.trans hbase'
          cases hov.symm.trans hov'
          cases hu.symm.trans hu'
          exact hrestated
        · exact fun hseen => hseen u ov base hb hbase hov ht hu

theorem fallback_both {m' : Dict Json} (hbase : LLMEngine.validate py (.obj b) = some base)
    (hval : LLMEngine.validate py (.obj m) = some engine) (hm : Merged backendFields b e m)
    (hm' : Merged routerFields base.dump e m') :
    readFallback (m'.get "fallback") = some ((engine.fallback.getD []).map .str) := by
  obtain ⟨_, hd, -, -, hfallback⟩ := LLMEngine.source hval
  cases hd
  obtain ⟨_, hd, -, -, hfallback₀⟩ := LLMEngine.source hbase
  cases hd
  obtain ⟨-, -, hdump⟩ := get_engine_dump base
  have hread := readFallback_validated hfallback
  rw [hm.replaced "fallback" (by decide)] at hread
  rw [hm'.replaced "fallback" (by decide)]
  cases he : e.get "fallback" with
  | some f =>
    rw [he] at hread
    exact hread
  | none =>
    -- The fallback of both is the base's.
    rw [he, Option.none_or, readFallback_validated hfallback₀] at hread
    rw [Option.none_or, hdump, readFallback_dump, hread]

/-- Validated instances and their dumps have the same ids. -/
theorem ids_validated {insts : List InstanceConfig}
    (h : xs.mapM (InstanceConfig.validate py) = some insts) :
    xs.map idOf = (insts.map fun i => Json.obj i.dump).map idOf := by
  induction mapM_eq_some_iff.mp h with
  | nil => rfl
  | cons hx htail ih =>
    rw [List.map_cons, List.map_cons, List.map_cons, ih (mapM_eq_some_iff.mpr htail),
      idOf_validated hx, idOf_dump]

/-- **A group that both have** is read as it is declared exactly if its entry is seen. -/
theorem readGroup_both {rawBase entry raw out : Json}
    (hbase : LLMEngine.validate py rawBase = some base)
    (hraw : mergeGroup backendFields rawBase entry = some raw)
    (hval : LLMEngine.validate py raw = some engine)
    (hout : mergeGroup routerFields (.obj base.dump) entry = some out) :
    readGroup g out = some (declaredGroup engine) ↔ Seen py g (some rawBase) entry := by
  obtain ⟨b, e, m, rfl, rfl, rfl, hm⟩ := mergeGroup_eq_some (by decide) (by decide) hraw
  obtain ⟨_, _, m', hb', he', rfl, hm'⟩ := mergeGroup_eq_some (by decide) (by decide) hout
  cases hb'
  cases he'
  obtain ⟨_, hd, ⟨xs, hxs, hinsts⟩, -⟩ := LLMEngine.source hbase
  cases hd
  obtain ⟨_, hd, ⟨ys, hys, hinsts'⟩, -⟩ := LLMEngine.source hval
  cases hd
  obtain ⟨-, hdump, -⟩ := get_engine_dump base
  -- the instances of the two merges
  obtain ⟨ovs, insts, hovs, hmerge, hget⟩ := hm.instances
  obtain ⟨ovs', insts', hovs', hmerge', hget'⟩ := hm'.instances
  cases hovs.symm.trans hovs'
  rw [hxs] at hmerge
  rw [hdump, Option.getD_some] at hmerge'
  obtain ⟨ids, hids, hov, rfl⟩ := mergeInstances_eq_some.mp hmerge
  obtain ⟨ids', hids', -, rfl⟩ := mergeInstances_eq_some.mp hmerge'
  have hsame : ids = ids' := by
    have h := map_of_mapM hids
    rw [ids_validated hinsts, map_of_mapM hids'] at h
    exact (List.map_injective_iff.mpr (Option.some_injective _) h).symm
  subst hsame
  rw [hget, Option.getD_some] at hys
  cases hys
  obtain ⟨s, hs, hsettings⟩ := settings_both (g := g) hbase hval hm hm'
  rw [readGroup_iff hs (by rw [hget']; rfl), hsettings,
    readInstances_merged (mapM_eq_some_iff.mp hids).length_eq hinsts hinsts']
  have hlisted : listed (some (.obj b)) = xs := by
    rw [listed_of_getD, hxs]
    rfl
  constructor
  · rintro ⟨hports, hset, -⟩
    refine ⟨fun ids hids'' => ?_, fun hnone => (by cases hnone), ?_⟩
    · rw [hlisted, hids] at hids''
      cases hids''
      rw [listed_of_iter hovs hov]
      exact hports
    · intro b' e' u ov base' hb' he' hnone hbase' hov' ht hu
      cases hb'
      cases he'
      exact hset u ov base' hnone hbase' hov' ht hu
  · intro hseen
    refine ⟨?_, ?_, fallback_both hbase hval hm hm'⟩
    · have hports := hseen.ports ids (by rw [hlisted]; exact hids)
      rw [listed_of_iter hovs hov] at hports
      exact hports
    · exact fun u ov base' hnone hbase' hov' ht hu =>
        hseen.shared b e u ov base' rfl rfl hnone hbase' hov' ht hu

end Groups

/-! ## The configuration -/

section Configuration

variable {py : Pydantic} {v : Json} {file : Option Json} {b c : RootConfig} {g : String}
  {overlay baseGroups groups raw loaded config : Dict Json}

/-- Every entry of the overlay is seen. -/
def OverlaySeen (py : Pydantic) (v : Json) (file : Option Json) : Prop :=
  ∀ overlay baseGroups groups : Dict Json, v.asObj.bind groupsOf = some baseGroups →
    loadOverlay file = some overlay → groupsOf overlay = some groups →
      ∀ g entry, groups.get g = some entry → Seen py g (baseGroups.get g) entry

namespace SideBySide

/-- The two merges have the same groups, in the same order. -/
theorem keys_eq (h : SideBySide py v file b c overlay baseGroups groups raw loaded config) :
    loaded.keys = c.llmEngines.keys := by
  rw [keys_mergeEngines h.loadedEq, keys_dumpedGroups, Dict.keys_mapValues h.base,
    Dict.keys_mapValues h.merged, keys_mergeEngines h.rawEq]

/-- **One group**: it is read as it is declared exactly if its entry in the overlay, if there is one,
is seen. -/
theorem read_iff (h : SideBySide py v file b c overlay baseGroups groups raw loaded config)
    {engine : LLMEngine} (hengine : c.llmEngines.get g = some engine) :
    (loaded.get g).bind (readGroup g) = some (declaredGroup engine) ↔
      ∀ entry, groups.get g = some entry → Seen py g (baseGroups.get g) entry := by
  obtain ⟨_, heq, -, hraw, -⟩ := get_mergeEngines h.unique h.rawEq
  cases heq
  obtain ⟨_, heq, -, hloaded, -⟩ := get_mergeEngines h.unique h.loadedEq
  cases heq
  rw [Dict.get_mapValues h.merged, Option.bind_eq_some_iff] at hengine
  obtain ⟨rawEntry, hrawEntry, hval⟩ := hengine
  rw [hraw] at hrawEntry
  have hdumped := get_dumpedGroups b g
  rw [Dict.get_mapValues h.base] at hdumped
  rw [hloaded, hdumped]
  cases hbaseGet : baseGroups.get g with
  | none =>
    rw [hbaseGet] at hrawEntry
    cases hentry : groups.get g with
    | none =>
      rw [hentry] at hrawEntry
      cases hrawEntry
    | some entry =>
      rw [hentry] at hrawEntry
      cases hrawEntry
      have hown := readGroup_own (g := g) hval
      simpa [mergedAt] using hown
  | some rawBase =>
    rw [hbaseGet] at hrawEntry
    have hbaseValid : ∃ base, LLMEngine.validate py rawBase = some base := by
      have hmem : g ∈ b.llmEngines.keys := by
        rw [Dict.keys_mapValues h.base]
        exact Dict.has_iff.mp (by rw [Dict.has, hbaseGet]; rfl)
      obtain ⟨base, hbase⟩ := Option.isSome_iff_exists.mp (Dict.has_iff.mpr hmem)
      rw [Dict.get_mapValues h.base, hbaseGet, Option.bind_some] at hbase
      exact ⟨base, hbase⟩
    obtain ⟨base, hbase⟩ := hbaseValid
    rw [Option.bind_some, hbase, Option.map_some]
    cases hentry : groups.get g with
    | none =>
      rw [hentry] at hrawEntry
      cases hrawEntry
      cases hbase.symm.trans hval
      exact iff_of_true (readGroup_dump engine) fun _ hnone => by cases hnone
    | some entry =>
      rw [hentry] at hrawEntry
      obtain ⟨out, hout⟩ := Option.isSome_iff_exists.mp (@mergeGroup_dump _ _ _ base hrawEntry)
      have hboth := readGroup_both (g := g) hbase hrawEntry hval hout
      simpa [mergedAt, hout] using hboth

end SideBySide

/-- **Router and backend resolve the same configuration exactly if** every entry of the overlay is
seen. -/
theorem resolvesAlike_iff (hparsed : Parsed file) (hb : RootConfig.validate py v = some b)
    (hc : (loadOverlay file).bind (buildMergedConfig py (some v)) = some c) :
    (∃ config engines, loadConfigWithOverlay py (some v) file = some config ∧
        enginesOf config = some engines ∧ ResolvesAlike c engines) ↔ OverlaySeen py v file := by
  obtain ⟨overlay, baseGroups, groups, raw, loaded, config, hconfig, h⟩ :=
    load_of_merged hparsed hb hc
  constructor
  · rintro ⟨config', engines, hconfig', hengines, hread⟩ overlay' baseGroups' groups' hyaml hov hg
    cases hconfig.symm.trans hconfig'
    cases h.engines.symm.trans hengines
    cases h.overlayEq.symm.trans hov
    cases h.yaml.symm.trans hyaml
    cases h.groupsEq.symm.trans hg
    intro g entry hentry
    obtain ⟨_, heq, -, -, hkeys⟩ := get_mergeEngines h.unique h.rawEq
    cases heq
    have hmem : g ∈ c.llmEngines.keys := by
      rw [Dict.keys_mapValues h.merged]
      exact hkeys g (Dict.has_iff.mp (by rw [Dict.has, hentry]; rfl))
    obtain ⟨engine, hengine⟩ := Option.isSome_iff_exists.mp (Dict.has_iff.mpr hmem)
    exact (h.read_iff hengine).mp (hread.read g engine hengine) entry hentry
  · intro hseen
    refine ⟨config, loaded, hconfig, h.engines, h.keys_eq, fun g engine hengine => ?_⟩
    exact (h.read_iff hengine).mpr
      (hseen overlay baseGroups groups h.yaml h.overlayEq h.groupsEq g)

end Configuration

/-- A `config.yaml` with one group. -/
def oneChat : Json :=
  .obj [("server", .obj [("port", .int 8947)]),
    ("LLM_engines", .obj [("chat", .obj
      [("instances", .arr [.obj [("id", .str "a"), ("port", .int 8001)]]),
        ("model_config", .obj [("model_tag", .str "Qwen/Qwen3")])])])]

/-- An overlay with this entry of a group. -/
def groupOverlay (group : String) (entry : Dict Json) : Option Json :=
  some (.obj [("LLM_engines", .obj [(group, .obj entry)])])

/-- A second instance of the group, and an adapter. -/
def grownChat : Dict Json :=
  [("instances", .arr [.obj [("id", .str "b"), ("port", .int 8002)]]),
    ("model_config", .obj
      [("lora_modules", .arr [.obj [("name", .str "sql"), ("path", .str "/sql")]])])]

theorem seen_grownChat :
    OverlaySeen Pydantic.strict oneChat (groupOverlay "chat" grownChat) := by
  intro overlay baseGroups groups hyaml hov hgroups g entry hentry
  cases hyaml
  cases hov
  cases hgroups
  have hg : g = "chat" := by
    by_contra hne
    rw [Dict.get_cons_ne hne] at hentry
    cases hentry
  subst hg
  cases hentry
  refine ⟨fun ids _ x hx => ?_, fun h => (by cases h), fun b e u ov engine hb he hnone => ?_⟩
  · have hmem : x ∈ [Json.obj [("id", .str "b"), ("port", .int 8002)]] := hx.1
    obtain rfl := List.mem_singleton.mp hmem
    exact ⟨_, 8002, rfl, rfl⟩
  · cases hb
    cases hnone

theorem resolvesAlike_grown : ∃ c config engines,
    (loadOverlay (groupOverlay "chat" grownChat)).bind
      (buildMergedConfig Pydantic.strict (some oneChat)) = some c ∧
    loadConfigWithOverlay Pydantic.strict (some oneChat) (groupOverlay "chat" grownChat) =
      some config ∧ enginesOf config = some engines ∧ ResolvesAlike c engines := by
  have hparsed : Parsed (groupOverlay "chat" grownChat) := by
    intro overlay groups hov hgroups
    cases hov
    cases hgroups
    decide
  obtain ⟨b, hb⟩ := Option.isSome_iff_exists.mp
    (show (RootConfig.validate Pydantic.strict oneChat).isSome = true by decide +kernel)
  obtain ⟨c, hc⟩ := Option.isSome_iff_exists.mp
    (show ((loadOverlay (groupOverlay "chat" grownChat)).bind
      (buildMergedConfig Pydantic.strict (some oneChat))).isSome = true by decide +kernel)
  obtain ⟨config, engines, hconfig, hengines, hread⟩ :=
    (resolvesAlike_iff hparsed hb hc).mpr seen_grownChat
  exact ⟨c, config, engines, hc, hconfig, hengines, hread⟩

/-- A new group whose settings are under `settings`, as the schema allows. -/
def settingsGroup : Dict Json :=
  [("instances", .arr [.obj [("id", .str "one"), ("port", .int 8001)]]),
    ("settings", .obj [("model_tag", .str "Qwen/Qwen3")])]

/-- The backend launches the group with its model tag, and the router forwards requests for it under
the group's own name. -/
theorem settings_unseen : ∃ c, (loadOverlay (groupOverlay "qwen" settingsGroup)).bind
      (buildMergedConfig Pydantic.strict (some oneChat)) = some c ∧
    ¬ ∃ config engines, loadConfigWithOverlay Pydantic.strict (some oneChat)
        (groupOverlay "qwen" settingsGroup) = some config ∧
      enginesOf config = some engines ∧ ResolvesAlike c engines := by
  have hdeclared : ((loadOverlay (groupOverlay "qwen" settingsGroup)).bind
      (buildMergedConfig Pydantic.strict (some oneChat))).any (fun c =>
        (c.llmEngines.get "qwen").any (·.settings.modelTag = "Qwen/Qwen3")) = true := by
    decide +kernel
  obtain ⟨c, hc, h⟩ := (Option.any_eq_true _ _).mp hdeclared
  obtain ⟨engine, hengine, htag⟩ := (Option.any_eq_true _ _).mp h
  refine ⟨c, hc, ?_⟩
  rintro ⟨config, engines, hconfig, hengines, hread⟩
  have hforward : ((((loadConfigWithOverlay Pydantic.strict (some oneChat)
      (groupOverlay "qwen" settingsGroup)).bind enginesOf).bind (·.get "qwen")).bind
        (readGroup "qwen")).any (fun r => r.settings.modelTag.asStr = some "qwen") = true := by
    decide +kernel
  rw [hconfig, Option.bind_some, hengines, Option.bind_some, hread.read "qwen" engine hengine]
    at hforward
  have hname : engine.settings.modelTag = "qwen" := Option.some.inj (of_decide_eq_true hforward)
  rw [of_decide_eq_true htag] at hname
  exact absurd hname (by decide)

end Llmops.Router
