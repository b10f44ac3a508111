import Llmops.Config.Merged
import Llmops.Config.Groups
import Llmops.Config.Server

/-!
# The config that the router loads (`config_loader.py`, `llm_router/overlay.py`)

The backend merges the raw `config.yaml` with the overlay and validates the result. The router
validates `config.yaml`, dumps it and merges the raw overlay into the dump: what the overlay brings it
reads as it stands, and what it reads is JSON. Its merge knows the groups only. `load_overlay` is the
backend's, line by line, and `none` is again an operation that raises. A requested model is a text.

* `load_of_merged`: where `config.yaml` is valid by itself, the router loads whatever the backend
  can merge;
* `embeddingAgrees_iff`: the router forwards to the embedding server that the backend launches
  exactly if `config.yaml` is valid by itself and the overlay leaves the server's address as it is.
-/

namespace Llmops.Router

open Lib Config

/-! ## Loading -/

/-- `if data.get(key) is None: data.pop(key, None)`. -/
def popNull (data : Dict Json) (key : String) : Dict Json :=
  match (data.get key).getD .null with
  | .null => data.pop key
  | _ => data

/-- `load_config`: the validated config as a dictionary, with the aliases of YAML. -/
def loadConfig (py : Pydantic) (yaml : Option Json) : Option (Dict Json) := do
  return popNull (← RootConfig.validate py (← yaml)).dump "embedding_server"

/-- The group fields that the overlay replaces wholesale, in the router's order. -/
def routerFields : List String := ["fallback", "autoscale"]

/-- `merge_into` of the router. -/
def mergeInto (base overlay : Dict Json) : Option (Dict Json) := do
  let groups ← groupsOf overlay
  let engines ← mergeEngines routerFields ((base.get "LLM_engines").getD (.obj [])) groups
  return base.set "LLM_engines" engines

/-- `load_config_with_overlay`. -/
def loadConfigWithOverlay (py : Pydantic) (yaml file : Option Json) : Option (Dict Json) := do
  mergeInto (← loadConfig py yaml) (← loadOverlay file)

/-! ## Pooling requests -/

/-- `engine.get("model_config") or {}`. -/
def settingsOf (engine : Dict Json) : Option (Dict Json) :=
  let v := (engine.get "model_config").getD .null
  if v.truthy then v.asObj else some []

/-- The names of `settings.get("lora_modules") or []`, where there is one. -/
def adapterNames (v : Option Json) : Option (List Json) := do
  let mods ← if (v.getD .null).truthy then (v.getD .null).iter else some []
  return mods.filterMap fun m => (m.asObj.bind (·.get "name")).filter Json.truthy

/-- `settings.get("kind") or "chat"`. -/
def kindOrChat (v : Option Json) : Json := if (v.getD .null).truthy then v.getD .null else .str "chat"

/-- `_lora_modules`, their names. -/
def loraNames (engine : Dict Json) : Option (List Json) := do
  adapterNames ((← settingsOf engine).get "lora_modules")

/-- `engine_kind`. -/
def engineKind (engine : Dict Json) : Option Json := do
  return kindOrChat ((← settingsOf engine).get "kind")

/-- The engines of a config. -/
def enginesOf (config : Dict Json) : Option (Dict Json) :=
  ((config.get "LLM_engines").getD (.obj [])).asObj

/-- The kind of the first group that has an adapter of the name. -/
def adapterKind (requested : String) : Dict Json → Option (Option Json)
  | [] => some none
  | (_, eng) :: engines => do
    let engine ← eng.asObj
    if (← loraNames engine).any fun name => name.asStr = some requested then
      return some (← engineKind engine)
    else adapterKind requested engines

/-- `resolve_model`, as far as a pooling request asks: the kind of what it finds. -/
def resolveKind (config : Dict Json) (requested : String) : Option (Option Json) := do
  let engines ← enginesOf config
  match engines.get requested with
  | some engine => return some (← engineKind (← engine.asObj))
  | none => adapterKind requested engines

/-- Where a pooling request goes. -/
inductive Upstream where
  | group (name : String)
  | notServed
  | embeddingServer (host port : Json)

/-- The address in `_proxy_to_embedding_server`, and in `main` of the server itself. -/
def embeddingAddress (config : Dict Json) : Option (Json × Json) := do
  let cfg ← ((config.get "embedding_server").getD (.obj [])).asObj
  return ((cfg.get "host").getD (.str "localhost"), (cfg.get "port").getD (.int 8003))

/-- `resolve_model(config, requested) if requested else None`. -/
def requestKind (config : Dict Json) (requested : Option String) : Option (Option Json) :=
  match requested.filter (· ≠ "") with
  | none => some none
  | some name => resolveKind config name

/-- `_dispatch_pooling`. -/
def dispatchPooling (config : Dict Json) (requested : Option String) (expectedKind : String) :
    Option Upstream := do
  match ← requestKind config requested with
  | some kind =>
    return if kind.asStr = some expectedKind then .group (requested.getD "") else .notServed
  | none => return .embeddingServer (← embeddingAddress config).1 (← embeddingAddress config).2

/-! ## What a load keeps of the base -/

section Load

variable {py : Pydantic} {yaml file : Option Json} {base overlay config : Dict Json}
  {b c : RootConfig} {key : String} {v : Json}

theorem get_popNull_ne {k : String} (h : k ≠ key) : (popNull base key).get k = base.get k := by
  unfold popNull
  split
  · exact Dict.get_pop_ne h
  · rfl

theorem get_popNull_self : (popNull base key).get key =
    (base.get key).filter fun v => !(v matches .null) := by
  unfold popNull
  cases hget : base.get key with
  | none => exact Dict.get_pop_self
  | some v =>
    cases v with
    | null => exact Dict.get_pop_self
    | _ => exact hget

/-- The embedding server of a dump. -/
theorem get_dump_embedding (c : RootConfig) : (popNull c.dump "embedding_server").get
    "embedding_server" = c.embeddingServer.map fun e => .obj e.dump := by
  rw [get_popNull_self, show c.dump.get "embedding_server" =
    some (.ofOption (.obj ·.dump) c.embeddingServer) from rfl]
  cases c.embeddingServer <;> rfl

theorem get_dump_engines (c : RootConfig) : (popNull c.dump "embedding_server").get
    "LLM_engines" = some (.obj (c.llmEngines.map fun p => (p.1, .obj p.2.dump))) := by
  rw [get_popNull_ne (by decide)]
  rfl

/-- The address of a server, or the defaults of the code that reads it. -/
def addressOf (server : Option EmbeddingServer) : Json × Json :=
  match server with
  | none => (.str "localhost", .int 8003)
  | some emb => (.str emb.host, .int emb.port)

theorem embeddingAddress_of_get
    (h : config.get "embedding_server" = c.embeddingServer.map fun e => .obj e.dump) :
    embeddingAddress config = some (addressOf c.embeddingServer) := by
  unfold embeddingAddress
  rw [h]
  cases c.embeddingServer <;> rfl

/-- The embedding server of the loaded config is that of `config.yaml`: the overlay has no say. -/
theorem embeddingAddress_load (hb : RootConfig.validate py v = some b)
    (h : loadConfigWithOverlay py (some v) file = some config) :
    embeddingAddress config = some (addressOf b.embeddingServer) := by
  simp only [loadConfigWithOverlay, loadConfig, mergeInto, hb, Option.bind_eq_bind, Option.bind_some,
    Option.pure_def, Option.bind_eq_some_iff, Option.some.injEq] at h
  obtain ⟨overlay, -, groups, -, engines, -, rfl⟩ := h
  refine embeddingAddress_of_get ?_
  rw [Dict.get_set_ne (by decide), get_dump_embedding]

end Load

/-! ## The router loads what the backend accepts -/

section Accepted

variable {py : Pydantic} {v : Json} {file : Option Json} {b c : RootConfig}

theorem idOf_dump (inst : InstanceConfig) : idOf (.obj inst.dump) = some (.str inst.id) := rfl

theorem get_engine_dump (engine : LLMEngine) :
    engine.dump.get "model_config" = some (.obj engine.settings.dump) ∧
      engine.dump.get "instances" = some (.arr (engine.instances.map (.obj ·.dump))) ∧
      engine.dump.get "fallback" = some (.ofOption (fun gs => .arr (gs.map .str)) engine.fallback) :=
  ⟨rfl, rfl, rfl⟩

/-- A group of `config.yaml` that the backend can merge with its entry, the router can. -/
theorem mergeGroup_dump {base entry out : Json} {engine : LLMEngine}
    (h : mergeGroup backendFields base entry = some out) :
    (mergeGroup routerFields (.obj engine.dump) entry).isSome := by
  obtain ⟨b, e, m, rfl, rfl, rfl, hm⟩ := mergeGroup_eq_some (by decide) (by decide) h
  obtain ⟨hcfg, hinsts, -⟩ := get_engine_dump engine
  obtain ⟨ovs, insts, hovs, hmerge, -⟩ := hm.instances
  refine mergeGroup_isSome (by decide) ?_ hovs ?_
  · obtain ⟨g, hg, -⟩ := hm.settings
    unfold mergeSettings at hg ⊢
    cases he : Dict.get e "model_config" with
    | none => rfl
    | some ov =>
      rw [he] at hg
      dsimp only at hg ⊢
      split_ifs at hg ⊢
      · obtain ⟨_, -, hg⟩ := Option.bind_eq_some_iff.mp hg
        obtain ⟨updates, hupdates, -⟩ := Option.bind_eq_some_iff.mp hg
        simp [hcfg, Json.asObj, hupdates]
      · rfl
  · have hids : ((engine.instances.map fun i => Json.obj i.dump).mapM idOf).isSome := by
      rw [mapM_isSome_iff]
      intro x hx
      obtain ⟨inst, -, rfl⟩ := List.mem_map.mp hx
      rfl
    obtain ⟨ids, hids⟩ := Option.isSome_iff_exists.mp hids
    rw [hinsts, Option.getD_some, Option.isSome_iff_exists]
    refine ⟨_, mergeInstances_eq_some.mpr ⟨ids, hids, fun x hx => ?_, rfl⟩⟩
    obtain ⟨s, hs⟩ := idOf_of_mergeInstances hmerge x hx
    rw [hs]
    rfl

/-- The groups of a validated config, as the router has them. -/
def dumpedGroups (c : RootConfig) : Dict Json := c.llmEngines.map fun p => (p.1, .obj p.2.dump)

theorem get_dumpedGroups (c : RootConfig) (g : String) :
    (dumpedGroups c).get g = (c.llmEngines.get g).map fun engine => .obj engine.dump := by
  unfold dumpedGroups
  induction c.llmEngines with
  | nil => rfl
  | cons p d ih =>
    rw [List.map_cons, Dict.get_cons, Dict.get_cons, ih]
    split_ifs <;> rfl

theorem keys_dumpedGroups (c : RootConfig) : (dumpedGroups c).keys = c.llmEngines.keys := by
  simp [dumpedGroups, Dict.keys]

/-- The two merges, side by side: of the raw groups of `config.yaml` and of the dumped ones. -/
structure SideBySide (py : Pydantic) (v : Json) (file : Option Json) (b c : RootConfig)
    (overlay baseGroups groups raw loaded config : Dict Json) : Prop where
  yaml : v.asObj.bind groupsOf = some baseGroups
  overlayEq : loadOverlay file = some overlay
  groupsEq : groupsOf overlay = some groups
  unique : groups.Unique
  base : Dict.mapValues (LLMEngine.validate py) baseGroups = some b.llmEngines
  rawEq : mergeEngines backendFields (.obj baseGroups) groups = some (.obj raw)
  merged : Dict.mapValues (LLMEngine.validate py) raw = some c.llmEngines
  loadedEq : mergeEngines routerFields (.obj (dumpedGroups b)) groups = some (.obj loaded)
  engines : enginesOf config = some loaded

/-- A valid `config.yaml` is not empty. -/
theorem orEmpty_of_valid (hb : RootConfig.validate py v = some b) : orEmpty (some v) = some v := by
  simp only [RootConfig.validate, Option.bind_eq_bind, Option.bind_eq_some_iff] at hb
  obtain ⟨⟨d, hd⟩, hv, server, hserver, -⟩ := hb
  rw [entries_eq_some.mp hv]
  cases d with
  | nil => cases hserver
  | cons => rfl

theorem mergeEngines_dumped {baseGroups groups raw : Dict Json} (hu : groups.Unique)
    (hbase : Dict.mapValues (LLMEngine.validate py) baseGroups = some b.llmEngines)
    (hraw : mergeEngines backendFields (.obj baseGroups) groups = some (.obj raw)) :
    (mergeEngines routerFields (.obj (dumpedGroups b)) groups).isSome := by
  refine mergeEngines_isSome hu fun g dumped entry hdumped hentry => ?_
  rw [get_dumpedGroups, Option.map_eq_some_iff] at hdumped
  obtain ⟨engine, hengine, rfl⟩ := hdumped
  rw [Dict.get_mapValues hbase, Option.bind_eq_some_iff] at hengine
  obtain ⟨rawBase, hrawBase, -⟩ := hengine
  obtain ⟨_, hm, -, hget, hkeys⟩ := get_mergeEngines hu hraw
  cases hm
  have hmem : g ∈ raw.keys := hkeys g (Dict.has_iff.mp (by rw [Dict.has, hentry]; rfl))
  obtain ⟨out, hout⟩ := Option.isSome_iff_exists.mp (Dict.has_iff.mpr hmem)
  rw [hget, hrawBase, hentry] at hout
  exact mergeGroup_dump hout

/-- **The router loads what the backend accepts**, if `config.yaml` is valid by itself. -/
theorem load_of_merged (hparsed : Parsed file) (hb : RootConfig.validate py v = some b)
    (h : (loadOverlay file).bind (buildMergedConfig py (some v)) = some c) :
    ∃ overlay baseGroups groups raw loaded config,
      loadConfigWithOverlay py (some v) file = some config ∧
        SideBySide py v file b c overlay baseGroups groups raw loaded config := by
  obtain ⟨overlay, hov, h⟩ := Option.bind_eq_some_iff.mp h
  obtain ⟨base, baseGroups, groups, raw, hbase, hbaseGroups, hgroups, hraw, hmerged⟩ :=
    engines_of_merged h
  have hu := hparsed overlay groups hov hgroups
  rw [orEmpty_of_valid hb] at hbase
  cases hbase
  obtain ⟨_, hd, ⟨e, he, hvalues⟩, -⟩ := RootConfig.source hb
  cases hd
  have hbaseEq : e = baseGroups := by
    rw [groupsOf, he] at hbaseGroups
    exact Option.some.inj hbaseGroups
  subst hbaseEq
  obtain ⟨out, hout⟩ := Option.isSome_iff_exists.mp (mergeEngines_dumped hu hvalues hraw)
  obtain ⟨loaded, rfl, -⟩ := get_mergeEngines hu hout
  refine ⟨overlay, e, groups, raw, loaded,
    (popNull b.dump "embedding_server").set "LLM_engines" (.obj loaded), ?_,
    hbaseGroups, hov, hgroups, hu, hvalues, hraw, hmerged, hout, ?_⟩
  · have hengines : (popNull b.dump "embedding_server").get "LLM_engines" =
        some (.obj (dumpedGroups b)) := get_dump_engines b
    simp [loadConfigWithOverlay, loadConfig, mergeInto, hb, hov, hgroups, hengines, hout]
  · rw [enginesOf, Dict.get_set_self]
    rfl

end Accepted

/-! ## The embedding server -/

section Embedding

variable {py : Pydantic} {env : LaunchEnv} {yaml file : Option Json} {b c : RootConfig}
  {fields d overlay : Dict Json} {emb : EmbeddingServer} {k : String}

/-- The server that the backend launches as `spec`, the effective config that it binds by, and the
router after it loaded the same files have one address. -/
structure EmbeddingAgrees (py : Pydantic) (yaml file : Option Json) (c : RootConfig)
    (spec : LaunchSpec) : Prop where
  effective : embeddingAddress c.dump = some (.str spec.host, .int spec.port)
  binds : ∀ d, loadConfig py (some (.obj c.dump)) = some d →
    embeddingAddress d = some (.str spec.host, .int spec.port)
  forwards : ∃ config, loadConfigWithOverlay py yaml file = some config ∧
    ∀ requested kind, requestKind config requested = some none →
      dispatchPooling config requested kind =
        some (.embeddingServer (.str spec.host) (.int spec.port))

/-- The fields of the overlay's `embedding_server`. -/
def serverFields (overlay : Dict Json) : Dict Json :=
  ((overlay.get "embedding_server").bind Json.asObj).getD []

/-- A file that a JSON parser has read: every group once, and every field of the server. -/
def ParsedOverlay (file : Option Json) : Prop :=
  Parsed file ∧ ∀ overlay, loadOverlay file = some overlay → (serverFields overlay).Unique

/-- The overlay's `embedding_server` says nothing of the address, or what `config.yaml` says. -/
def KeepsAddress (py : Pydantic) (overlay : Dict Json) (emb : EmbeddingServer) : Prop :=
  (∀ v, (serverFields overlay).get "host" = some v → v = .str emb.host) ∧
    ∀ v, (serverFields overlay).get "port" = some v → py.int v = some emb.port

theorem last_of_unique (h : fields.Unique) :
    ((fields.filter (·.1 = k)).getLast?).map Prod.snd = fields.get k := by
  induction fields with
  | nil => rfl
  | cons p fields ih =>
    obtain ⟨hp, h⟩ := List.nodup_cons.mp h
    rw [List.filter_cons, Dict.get_cons]
    by_cases hk : k = p.1
    · subst hk
      have hnone : fields.filter (fun q => decide (q.1 = p.1)) = [] := by
        refine List.filter_eq_nil_iff.mpr fun q hq => ?_
        simpa using fun heq : q.1 = p.1 => hp (heq ▸ List.mem_map.mpr ⟨q, hq, rfl⟩)
      simp [hnone]
    · rw [if_neg hk, if_neg (by simpa using fun heq : p.1 = k => hk heq.symm), ih h]

section Optional

variable {α : Type} {f : Json → Option α} {v : Json} {a : α}

theorem of_optional (h : Config.optional f v = some (some a)) : f v = some a := by
  unfold Config.optional at h
  split at h
  · cases h
  · obtain ⟨x, hx, heq⟩ := Option.map_eq_some_iff.mp h
    rw [hx, Option.some.inj heq]

theorem null_of_optional (h : Config.optional f v = some none) : v = .null := by
  unfold Config.optional at h
  split at h
  · rfl
  · obtain ⟨x, -, heq⟩ := Option.map_eq_some_iff.mp h
    cases heq

end Optional

/-- A merged server has the overlay's fields, and the base's where that has none. -/
theorem get_merged {v out : Json} (hu : (serverFields overlay).Unique)
    (h : mergedServer (overlay.get "embedding_server") (some v) = some (some out))
    (hval : EmbeddingServer.validate py out = some emb) :
    ∃ bd d : Dict Json, v = .obj bd ∧ out = .obj d ∧
      ∀ k ∉ modelFields, d.get k = ((serverFields overlay).get k).or (bd.get k) := by
  obtain ⟨d, rfl, hd, -⟩ := EmbeddingServer.source hval
  unfold serverFields at hu ⊢
  cases hov : overlay.get "embedding_server" with
  | none =>
    rw [hov] at h
    cases h
    exact ⟨d, d, rfl, rfl, fun k _ => rfl⟩
  | some ov =>
    rw [hov] at h hu
    rw [Option.bind_some] at hu ⊢
    unfold mergedServer at h
    dsimp only at h
    by_cases htruthy : (ov.truthy && v.truthy) = true
    · rw [if_pos htruthy] at h
      simp only [Option.bind_eq_bind, Option.pure_def, Option.bind_eq_some_iff,
        Option.some.injEq] at h
      obtain ⟨fields, hfields, _, hfold, rfl⟩ := h
      have hobj : ∃ bd : Dict Json, v = .obj bd := by
        cases Json.asObj_eq_some.mp hfields
        cases fields with
        | nil => exact ⟨d, Option.some.inj hfold⟩
        | cons p fields =>
          rw [List.foldlM_cons, Option.bind_eq_bind, Option.bind_eq_some_iff] at hfold
          obtain ⟨_, hp, -⟩ := hfold
          obtain ⟨bd, hbd, -⟩ := Option.bind_eq_some_iff.mp hp
          exact ⟨bd, Json.asObj_eq_some.mp hbd⟩
      obtain ⟨bd, rfl⟩ := hobj
      rw [hfields, Option.getD_some] at hu ⊢
      refine ⟨bd, d, rfl, rfl, fun k hk => ?_⟩
      rw [get_mergedServer hk hfold, last_of_unique hu]
    · rw [if_neg htruthy] at h
      cases h
      refine ⟨d, d, rfl, rfl, fun k _ => ?_⟩
      have hempty : ov.asObj.getD [] = [] := by
        cases ov with
        | obj fields =>
          cases d with
          | nil => exact absurd rfl hd
          | cons q d =>
            cases fields with
            | nil => rfl
            | cons p fields => exact absurd rfl htruthy
        | _ => rfl
      rw [hempty]
      rfl

theorem spec_address {key : String} {spec : LaunchSpec}
    (h : buildEmbeddingSpec env c key = .ok spec) :
    ∃ emb, c.embeddingServer = some emb ∧ spec.host = emb.host ∧ spec.port = emb.port := by
  cases hserved : servedEmbedding c with
  | none =>
    unfold buildEmbeddingSpec at h
    rw [hserved] at h
    cases h
  | some emb =>
    obtain ⟨spec', hspec', -, -, -, hhost, hport⟩ :=
      @buildEmbeddingSpec_of_served env c key emb hserved
    rw [h] at hspec'
    cases hspec'
    exact ⟨emb, (Option.filter_eq_some_iff.mp hserved).1, hhost, hport⟩

theorem get_server_dump (hemb : c.embeddingServer = some emb) :
    c.dump.get "embedding_server" = some (.obj emb.dump) := by
  rw [show c.dump.get "embedding_server" = some (.ofOption (.obj ·.dump) c.embeddingServer)
    from rfl, hemb]
  rfl

/-- The server that starts from the dump of a config binds the config's address. -/
theorem embeddingAddress_effective (hemb : c.embeddingServer = some emb)
    (h : loadConfig py (some (.obj c.dump)) = some d) :
    embeddingAddress d = some (.str emb.host, .int emb.port) := by
  simp only [loadConfig, Option.bind_eq_bind, Option.bind_some, Option.pure_def,
    Option.bind_eq_some_iff, Option.some.injEq] at h
  obtain ⟨c', hc', rfl⟩ := h
  rw [embeddingAddress_of_get (get_dump_embedding c')]
  obtain ⟨_, hd, -, hserver⟩ := RootConfig.source hc'
  cases hd
  rw [get_server_dump hemb, Option.elim_some] at hserver
  obtain ⟨emb', hemb', heq⟩ := Option.map_eq_some_iff.mp hserver
  rw [← heq]
  obtain ⟨_, hd, -, hhost, hport, -⟩ := EmbeddingServer.source hemb'
  cases hd
  have hhost' : emb.host = emb'.host := Option.some.inj hhost
  have hport' : emb.port = emb'.port := Option.some.inj ((py.int_int emb.port).symm.trans hport)
  rw [hhost', hport']
  rfl

/-- What the merged server's address says of the base's. -/
theorem address_merged {v out : Json} {base : EmbeddingServer}
    (hu : (serverFields overlay).Unique)
    (h : mergedServer (overlay.get "embedding_server") (some v) = some (some out))
    (hbase : EmbeddingServer.validate py v = some base)
    (hval : EmbeddingServer.validate py out = some emb) :
    (emb.host = base.host ∧ emb.port = base.port) ↔ KeepsAddress py overlay base := by
  obtain ⟨bd, d, rfl, rfl, hget⟩ := get_merged hu h hval
  obtain ⟨_, hd, -, hhost, hport, -⟩ := EmbeddingServer.source hval
  cases hd
  obtain ⟨_, hd, -, hhost', hport', -⟩ := EmbeddingServer.source hbase
  cases hd
  rw [withDefault, hget "host" (by decide)] at hhost
  rw [required, hget "port" (by decide)] at hport
  refine and_congr ?_ ?_
  · cases hw : (serverFields overlay).get "host" with
    | none =>
      rw [hw, Option.none_or, ← withDefault, hhost'] at hhost
      simpa using (Option.some.inj hhost).symm
    | some w =>
      rw [hw, Option.some_or] at hhost
      rw [Json.asStr_eq_some.mp hhost]
      simp
  · cases hw : (serverFields overlay).get "port" with
    | none =>
      rw [hw, Option.none_or, ← required, hport'] at hport
      simpa using (Option.some.inj hport).symm
    | some w =>
      rw [hw, Option.some_or, Option.bind_some] at hport
      simp [hport]

/-- The merged server and the one of `config.yaml`. -/
theorem server_of_merged {v : Json} (hparsed : ParsedOverlay file)
    (hb : RootConfig.validate py v = some b) (hov : loadOverlay file = some overlay)
    (hc : buildMergedConfig py (some v) overlay = some c) (hemb : c.embeddingServer = some emb) :
    ∃ base, b.embeddingServer = some base ∧
      ((emb.host = base.host ∧ emb.port = base.port) ↔ KeepsAddress py overlay base) := by
  obtain ⟨d, baseGroups, groups, hd, hm⟩ :=
    buildMergedConfig_eq_some (fun groups hg => hparsed.1 overlay groups hov hg) hc
  rw [orEmpty_of_valid hb] at hd
  cases hd
  obtain ⟨_, hd, -, hbase⟩ := RootConfig.source hb
  cases hd
  obtain ⟨merged, hmerged, hval⟩ := hm.embedding
  rw [hemb] at hval
  cases hv : Dict.get d "embedding_server" with
  | none =>
    have hnone : merged = none := by
      rw [hv] at hmerged
      cases hov : overlay.get "embedding_server" <;> rw [hov] at hmerged <;>
        exact (Option.some.inj hmerged).symm
    subst hnone
    cases hval
  | some raw =>
    rw [hv] at hmerged hbase
    cases merged with
    | none => cases hval
    | some out =>
      have hout := of_optional hval
      cases hserver : b.embeddingServer with
      | some base =>
        rw [hserver] at hbase
        exact ⟨base, rfl, address_merged (hparsed.2 overlay hov) hmerged (of_optional hbase) hout⟩
      | none =>
        -- A server that is `None` stays so.
        rw [hserver] at hbase
        obtain ⟨bd, -, rfl, -⟩ := get_merged (hparsed.2 overlay hov) hmerged hout
        obtain ⟨_, -, heq⟩ := Option.map_eq_some_iff.mp hbase
        cases heq

/-- **The router forwards to the embedding server that the backend launches exactly if**
`config.yaml` is valid by itself and the overlay leaves the address of its server. -/
theorem embeddingAgrees_iff {key : String} {spec : LaunchSpec} (hparsed : ParsedOverlay file)
    (hc : (loadOverlay file).bind (buildMergedConfig py yaml) = some c)
    (hspec : buildEmbeddingSpec env c key = .ok spec) :
    EmbeddingAgrees py yaml file c spec ↔ ∃ overlay b emb, loadOverlay file = some overlay ∧
      yaml.bind (RootConfig.validate py) = some b ∧ b.embeddingServer = some emb ∧
        KeepsAddress py overlay emb := by
  obtain ⟨emb, hemb, hhost, hport⟩ := spec_address hspec
  obtain ⟨overlay, hov, hc'⟩ := Option.bind_eq_some_iff.mp hc
  constructor
  · rintro ⟨-, -, config, hconfig, hforward⟩
    obtain ⟨loaded, hloaded, -⟩ := Option.bind_eq_some_iff.mp hconfig
    obtain ⟨v, rfl, hloaded⟩ := Option.bind_eq_some_iff.mp hloaded
    obtain ⟨b, hb, -⟩ := Option.bind_eq_some_iff.mp hloaded
    obtain ⟨base, hbase, haddress⟩ := server_of_merged hparsed hb hov hc' hemb
    refine ⟨overlay, b, base, hov, hb, hbase, haddress.mp ?_⟩
    have hto := hforward none "embed" rfl
    simp only [dispatchPooling, requestKind, Option.filter_none, Option.bind_eq_bind,
      Option.bind_some, embeddingAddress_load hb hconfig, hbase, addressOf, Option.pure_def,
      Option.some.injEq, Upstream.embeddingServer.injEq, Json.str.injEq, Json.int.injEq] at hto
    exact ⟨hhost.symm.trans hto.1.symm, hport.symm.trans hto.2.symm⟩
  · rintro ⟨_, b, base, hov', hb, hbase, hkeeps⟩
    cases hov.symm.trans hov'
    obtain ⟨v, rfl, hb⟩ := Option.bind_eq_some_iff.mp hb
    obtain ⟨base', hbase', haddress⟩ := server_of_merged hparsed hb hov hc' hemb
    cases hbase.symm.trans hbase'
    obtain ⟨hhost', hport'⟩ := haddress.mpr hkeeps
    refine ⟨?_, fun d hd => ?_, ?_⟩
    · rw [embeddingAddress, get_server_dump hemb, hhost, hport]
      rfl
    · rw [embeddingAddress_effective hemb hd, hhost, hport]
    · obtain ⟨_, _, _, _, _, config, hconfig, -⟩ := load_of_merged hparsed.1 hb hc
      refine ⟨config, hconfig, fun requested kind hnone => ?_⟩
      simp only [dispatchPooling, hnone, embeddingAddress_load hb hconfig, hbase, addressOf,
        Option.bind_eq_bind, Option.bind_some, Option.pure_def, hhost, hport, hhost', hport']

end Embedding

/-- A `config.yaml` with an embedding server at the default address. -/
def oneServer : Json :=
  .obj [("server", .obj [("port", .int 8947)]),
    ("embedding_server", .obj [("host", .str "localhost"), ("port", .int 8003),
      ("embedding_models", .obj [("m3", .obj [("model_name", .str "bge-m3")])])])]

/-- An overlay with these fields of the server. -/
def serverOverlay (fields : Dict Json) : Option Json :=
  some (.obj [("embedding_server", .obj fields)])

/-- A merge of the two that is seen to launch. -/
theorem exists_launched (fields : Dict Json) (port : Int)
    (h : ((loadOverlay (serverOverlay fields)).bind
      (buildMergedConfig Pydantic.strict (some oneServer))).any (fun c =>
        (buildEmbeddingSpec {} c embeddingKey).toOption.any (·.port = port)) = true) :
    ∃ c spec, (loadOverlay (serverOverlay fields)).bind
        (buildMergedConfig Pydantic.strict (some oneServer)) = some c ∧
      buildEmbeddingSpec {} c embeddingKey = .ok spec ∧ spec.port = port := by
  obtain ⟨c, hc, h⟩ := (Option.any_eq_true _ _).mp h
  obtain ⟨spec, hspec, h⟩ := (Option.any_eq_true _ _).mp h
  exact ⟨c, spec, hc, toOption_eq_some.mp hspec, of_decide_eq_true h⟩

/-- Another maximal length of a model. -/
def longerModel : Dict Json :=
  [("embedding_models", .obj [("m3", .obj [("max_length", .int 1024)])])]

theorem embeddingAgrees_longerModel : ∃ c spec,
    (loadOverlay (serverOverlay longerModel)).bind
      (buildMergedConfig Pydantic.strict (some oneServer)) = some c ∧
    buildEmbeddingSpec {} c embeddingKey = .ok spec ∧ spec.port = 8003 ∧
    EmbeddingAgrees Pydantic.strict (some oneServer) (serverOverlay longerModel) c spec := by
  obtain ⟨c, spec, hc, hspec, hport⟩ :=
    exists_launched longerModel 8003 (by decide +kernel)
  have hparsed : ParsedOverlay (serverOverlay longerModel) := by
    constructor
    · intro overlay groups hov hgroups
      cases hov
      cases hgroups
      decide
    · intro overlay hov
      cases hov
      decide
  have hbase : (RootConfig.validate Pydantic.strict oneServer).any
      (fun b => b.embeddingServer.isSome) = true := by decide +kernel
  obtain ⟨b, hb, hsome⟩ := (Option.any_eq_true _ _).mp hbase
  obtain ⟨emb, hemb⟩ := Option.isSome_iff_exists.mp hsome
  refine ⟨c, spec, hc, hspec, hport,
    (embeddingAgrees_iff hparsed hc hspec).mpr ⟨_, b, emb, rfl, hb, hemb, ?_⟩⟩
  constructor <;> intro v hv <;> cases hv

/-- The overlay moves the server to another port: it is launched there, and the router goes on to
forward to the old one. -/
theorem port_overridden : ∃ c spec,
    (loadOverlay (serverOverlay [("port", .int 8010)])).bind
      (buildMergedConfig Pydantic.strict (some oneServer)) = some c ∧
    buildEmbeddingSpec {} c embeddingKey = .ok spec ∧ spec.port = 8010 ∧
    ¬ EmbeddingAgrees Pydantic.strict (some oneServer) (serverOverlay [("port", .int 8010)]) c
      spec := by
  obtain ⟨c, spec, hc, hspec, hport⟩ :=
    exists_launched [("port", .int 8010)] 8010 (by decide +kernel)
  refine ⟨c, spec, hc, hspec, hport, fun h => ?_⟩
  obtain ⟨config, hconfig, hforward⟩ := h.forwards
  have hto := hforward none "embed" rfl
  have hold : ((loadConfigWithOverlay Pydantic.strict (some oneServer)
      (serverOverlay [("port", .int 8010)])).bind embeddingAddress).any
        (fun a => a.2.scalar = some (.num 8003)) = true := by decide +kernel
  rw [hconfig, Option.bind_some] at hold
  obtain ⟨a, ha, hold⟩ := (Option.any_eq_true _ _).mp hold
  simp [dispatchPooling, requestKind, ha, hport] at hto hold
  rw [hto.2] at hold
  exact absurd hold (by decide +kernel)

end Llmops.Router
