import Llmops.Config.Schema

/-!
# The overlay (`services/overlay.py`)

The dynamic models live in a JSON file beside `config.yaml`, shaped like its `LLM_engines` block.
`mergeInto` layers the overlay onto the raw configuration and `buildMergedConfig` validates the
result. `none` is an operation that raises: the code indexes and updates raw JSON, and a value of the
wrong shape ends in a `TypeError` or an `AttributeError`.

The router has a merge of its own, which differs in the order in which it replaces the fields
`autoscale` and `fallback` and in the part for `embedding_server`; `mergeEngines` is both.

* `mergeGroup_eq_some`: the merged group, field by field;
* `get_mergeEngines`: the merged groups, one at a time;
* `mem_instanceIds_mergeInstances`: the instances of the merged group are those of both sides.
-/

namespace Llmops.Config

open Lib

/-! ## The file -/

/-- `load_overlay`: a file that is missing or no JSON counts as an empty overlay. -/
def loadOverlay (file : Option Json) : Option (Dict Json) :=
  match file with
  | none => some [("LLM_engines", .obj [])]
  | some v => v.asObj.map fun d => d.setDefault "LLM_engines" (.obj [])

/-- The groups of an overlay. -/
def groupsOf (overlay : Dict Json) : Option (Dict Json) :=
  ((overlay.get "LLM_engines").getD (.obj [])).asObj

/-! ## Instances -/

/-- `inst.get("id")` as a key of a dictionary. -/
def idOf (inst : Json) : Option Scalar :=
  inst.asObj.bind fun d => ((d.get "id").getD .null).scalar

/-- `idx_by_id.get(iid)`: of equal ids the last counts. -/
def lastIndex (iid : Scalar) : List Scalar → Option Nat
  | [] => none
  | x :: ids =>
    match lastIndex iid ids with
    | some n => some (n + 1)
    | none => if x = iid then some 0 else none

/-- One overlay instance: it replaces the base instance with its id, else it is appended. -/
def mergeInstance (ids : List Scalar) (base inst : Json) : Option Json := do
  let iid ← idOf inst
  let xs ← base.asArr
  return .arr <|
    match lastIndex iid ids with
    | some n => xs.set n inst
    | none => xs ++ [inst]

/-- The overlay's instances, in order; `idx_by_id` has the base instances only. -/
def mergeInstances (base : Json) (overlay : List Json) : Option Json := do
  let ids ← (← base.iter).mapM idOf
  overlay.foldlM (mergeInstance ids) base

section Instances

variable {iid s : Scalar} {ids : List Scalar} {n : Nat}

theorem lastIndex_eq_some (h : lastIndex iid ids = some n) : ids[n]? = some iid := by
  induction ids generalizing n with
  | nil => cases h
  | cons x ids ih =>
    rw [lastIndex] at h
    split at h
    next m hm =>
      cases h
      exact ih hm
    next =>
      split_ifs at h with hx
      cases h
      exact congrArg some hx

/-- Some instance of the list has the id. -/
def HasId (xs : List Json) (s : Scalar) : Prop := ∃ x ∈ xs, idOf x = some s

theorem hasId_iff_mem {xs : List Json} : HasId xs s ↔ some s ∈ xs.map idOf := by
  simp [HasId]

theorem hasId_append {xs ys : List Json} : HasId (xs ++ ys) s ↔ HasId xs s ∨ HasId ys s := by
  simp [hasId_iff_mem]

theorem hasId_singleton {x : Json} : HasId [x] s ↔ idOf x = some s := by
  simp [HasId]

theorem hasId_cons {x : Json} {xs : List Json} :
    HasId (x :: xs) s ↔ idOf x = some s ∨ HasId xs s := by
  simp [hasId_iff_mem, eq_comm]

/-- Instances of which the first are the base's, replaced or not. -/
def Led (ids : List Scalar) (xs : List Json) : Prop := ids.map some <+: xs.map idOf

theorem Led.getElem? {xs : List Json} (h : Led ids xs) (hn : ids[n]? = some iid) :
    (xs.map idOf)[n]? = some (some iid) := by
  obtain ⟨rest, hrest⟩ := h
  have hlt : n < (ids.map some).length := by
    rw [List.length_map]
    exact (List.getElem?_eq_some_iff.mp hn).1
  rw [← hrest, List.getElem?_append_left hlt, List.getElem?_map, hn]
  rfl

/-- A merged instance leaves the base's ids where they are and adds its own. -/
theorem mergeInstance_eq_some {xs : List Json} {inst out : Json} (hxs : Led ids xs)
    (h : mergeInstance ids (.arr xs) inst = some out) :
    ∃ ys, out = .arr ys ∧ Led ids ys ∧ ∀ s, HasId ys s ↔ HasId xs s ∨ idOf inst = some s := by
  simp only [mergeInstance, Option.bind_eq_bind, Option.pure_def, Option.bind_eq_some_iff,
    Json.asArr_eq_some, Json.arr.injEq, Option.some.injEq] at h
  obtain ⟨iid, hiid, _, rfl, rfl⟩ := h
  refine ⟨_, rfl, ?_⟩
  cases hn : lastIndex iid ids with
  | none =>
    refine ⟨hxs.trans ?_, fun s => by rw [hasId_append, hasId_singleton]⟩
    rw [List.map_append]
    exact List.prefix_append _ _
  | some n =>
    have hget := hxs.getElem? (lastIndex_eq_some hn)
    have hsame : (xs.set n inst).map idOf = xs.map idOf := by
      obtain ⟨hlt, hval⟩ := List.getElem?_eq_some_iff.mp hget
      rw [List.map_set, hiid, ← hval]
      exact List.set_getElem_self hlt
    refine ⟨?_, fun s => ?_⟩
    · unfold Led
      rw [hsame]
      exact hxs
    · rw [hasId_iff_mem, hasId_iff_mem, hsame]
      constructor
      · exact .inl
      · rintro (h | h)
        · exact h
        · rw [← h, hiid]
          exact List.mem_of_getElem? hget

/-- **The instances of a merged group** are those of the base and those of the overlay. -/
theorem hasId_mergeInstances {base overlay : List Json} {out : Json}
    (h : mergeInstances (.arr base) overlay = some out) :
    ∃ xs, out = .arr xs ∧ ∀ s, HasId xs s ↔ HasId base s ∨ HasId overlay s := by
  simp only [mergeInstances, Json.iter, Option.bind_eq_bind, Option.bind_some,
    Option.bind_eq_some_iff] at h
  obtain ⟨ids, hids, h⟩ := h
  have hled : Led ids base := by
    rw [Led, map_of_mapM hids]
  clear hids
  induction overlay generalizing base with
  | nil =>
    cases h
    exact ⟨base, rfl, fun s => by simp [HasId]⟩
  | cons inst overlay ih =>
    rw [List.foldlM_cons, Option.bind_eq_bind, Option.bind_eq_some_iff] at h
    obtain ⟨_, hinst, h⟩ := h
    obtain ⟨ys, rfl, hys, hmem⟩ := mergeInstance_eq_some hled hinst
    obtain ⟨xs, rfl, hxs⟩ := ih h hys
    refine ⟨xs, rfl, fun s => ?_⟩
    rw [hxs, hmem, or_assoc, show inst :: overlay = [inst] ++ overlay from rfl, hasId_append,
      hasId_singleton]

end Instances

/-! ## Groups -/

/-- `base_group.setdefault("model_config", {}).update(ov_cfg)`, if there is something to update. -/
def mergeSettings (group : Dict Json) (ovCfg : Option Json) : Option (Dict Json) :=
  match ovCfg with
  | none => some group
  | some v =>
    if v.truthy then do
      let baseCfg ← ((group.get "model_config").getD (.obj [])).asObj
      let updates ← v.pairs
      return group.set "model_config" (.obj (baseCfg.update updates))
    else some group

/-- `if key in entry: base_group[key] = entry[key]`. -/
def replaceField (entry group : Dict Json) (key : String) : Dict Json :=
  match entry.get key with
  | none => group
  | some v => group.set key v

/-- A group that both sides have. -/
def mergeGroup (wholesale : List String) (baseGroup entry : Json) : Option Json := do
  let e ← entry.asObj
  let g ← baseGroup.asObj
  let g ← mergeSettings g (e.get "model_config")
  let g := wholesale.foldl (replaceField e) g
  let instances ← mergeInstances ((g.get "instances").getD (.arr []))
    (← ((e.get "instances").getD (.arr [])).iter)
  return .obj (g.set "instances" instances)

/-- One group of the overlay: added whole if the base does not have it. -/
def mergeEntry (wholesale : List String) (engines : Json) (p : String × Json) : Option Json := do
  let d ← engines.asObj
  match d.get p.1 with
  | none => return .obj (d.set p.1 p.2)
  | some base => return .obj (d.set p.1 (← mergeGroup wholesale base p.2))

def mergeEngines (wholesale : List String) (engines : Json) (groups : Dict Json) : Option Json :=
  groups.foldlM (mergeEntry wholesale) engines

section Groups

variable {wholesale : List String} {b e m : Dict Json}

theorem get_mergeSettings {ovCfg : Option Json} {key : String}
    (h : mergeSettings b ovCfg = some m) (hkey : key ≠ "model_config") : m.get key = b.get key := by
  unfold mergeSettings at h
  split at h
  next =>
    cases h
    rfl
  next v =>
    split_ifs at h
    · obtain ⟨cfg, -, h⟩ := Option.bind_eq_some_iff.mp h
      obtain ⟨updates, -, h⟩ := Option.bind_eq_some_iff.mp h
      cases h
      exact Dict.get_set_ne hkey
    · cases h
      rfl

theorem get_replaceField {key k : String} :
    (replaceField e b key).get k = if k = key then (e.get k).or (b.get k) else b.get k := by
  unfold replaceField
  cases he : e.get key with
  | none =>
    split_ifs with hk
    · rw [hk, he]
      rfl
    · rfl
  | some v =>
    rw [Dict.get_set]
    split_ifs with hk
    · rw [hk, he]
      rfl
    · rfl

theorem get_replaceFields {k : String} :
    (wholesale.foldl (replaceField e) b).get k =
      if k ∈ wholesale then (e.get k).or (b.get k) else b.get k := by
  induction wholesale generalizing b with
  | nil => rfl
  | cons key wholesale ih =>
    rw [List.foldl_cons, ih, get_replaceField]
    by_cases hk : k = key
    · cases e.get k <;> simp [hk]
    · simp [hk]

/-- A merged group, field by field. -/
structure Merged (wholesale : List String) (b e m : Dict Json) : Prop where
  settings : ∃ g, mergeSettings b (e.get "model_config") = some g ∧
    m.get "model_config" = g.get "model_config"
  replaced : ∀ k ∈ wholesale, m.get k = (e.get k).or (b.get k)
  kept : ∀ k ∉ wholesale, k ≠ "model_config" → k ≠ "instances" → m.get k = b.get k
  instances : ∃ ovs insts, ((e.get "instances").getD (.arr [])).iter = some ovs ∧
    mergeInstances ((b.get "instances").getD (.arr [])) ovs = some insts ∧
    m.get "instances" = some insts

theorem mergeGroup_eq_some {base entry out : Json} (hcfg : "model_config" ∉ wholesale)
    (hinst : "instances" ∉ wholesale) (h : mergeGroup wholesale base entry = some out) :
    ∃ b e m, base = .obj b ∧ entry = .obj e ∧ out = .obj m ∧ Merged wholesale b e m := by
  simp only [mergeGroup, Option.bind_eq_bind, Option.pure_def, Option.bind_eq_some_iff,
    Json.asObj_eq_some] at h
  obtain ⟨e, he, b, hb, g, hg, ovs, hovs, insts, hinsts, hout⟩ := h
  refine ⟨b, e, _, hb, he, (Option.some.inj hout).symm, ?_, ?_, ?_, ovs, insts, hovs, ?_, ?_⟩
  · refine ⟨g, hg, ?_⟩
    rw [Dict.get_set_ne (by decide), get_replaceFields, if_neg hcfg]
  · intro k hk
    have hne : k ≠ "instances" := fun h => hinst (h ▸ hk)
    rw [Dict.get_set_ne hne, get_replaceFields, if_pos hk,
      get_mergeSettings hg fun h => hcfg (h ▸ hk)]
  · intro k hk hc hi
    rw [Dict.get_set_ne hi, get_replaceFields, if_neg hk, get_mergeSettings hg hc]
  · rw [get_replaceFields, if_neg hinst, get_mergeSettings hg (by decide)] at hinsts
    exact hinsts
  · exact Dict.get_set_self

/-- One group of the merged configuration, from the group of the base and the entry of the
overlay. -/
def mergedAt (wholesale : List String) : Option Json → Option Json → Option Json
  | base, none => base
  | none, some entry => some entry
  | some base, some entry => mergeGroup wholesale base entry

theorem mergeEntry_eq_some {p : String × Json} {out : Json}
    (h : mergeEntry wholesale (.obj b) p = some out) :
    ∃ v, out = .obj (b.set p.1 v) ∧ mergedAt wholesale (b.get p.1) (some p.2) = some v := by
  unfold mergeEntry at h
  obtain ⟨d, hd, h⟩ := Option.bind_eq_some_iff.mp h
  cases hd
  split at h
  next hn =>
    cases h
    exact ⟨p.2, rfl, by rw [hn]; rfl⟩
  next base hb =>
    obtain ⟨v, hv, h⟩ := Option.bind_eq_some_iff.mp h
    cases h
    exact ⟨v, rfl, by rw [hb]; exact hv⟩

/-- **The merged groups**, one at a time. -/
theorem get_mergeEngines {groups : Dict Json} {out : Json} (hu : groups.Unique)
    (h : mergeEngines wholesale (.obj b) groups = some out) :
    ∃ m : Dict Json, out = .obj m ∧ (b.Unique → m.Unique) ∧
      (∀ g, m.get g = mergedAt wholesale (b.get g) (groups.get g)) ∧
      (∀ g ∈ groups.keys, g ∈ m.keys) := by
  induction groups generalizing b with
  | nil =>
    cases h
    exact ⟨b, rfl, id, fun g => rfl, fun g hg => absurd hg List.not_mem_nil⟩
  | cons p groups ih =>
    obtain ⟨hp, hu⟩ := List.nodup_cons.mp hu
    rw [mergeEngines, List.foldlM_cons, Option.bind_eq_bind, Option.bind_eq_some_iff] at h
    obtain ⟨_, hentry, h⟩ := h
    obtain ⟨v, rfl, hv⟩ := mergeEntry_eq_some hentry
    obtain ⟨m, rfl, hunique, hget, hkeys⟩ := ih hu h
    have hself : m.get p.1 = some v := by
      rw [hget, Dict.get_set_self, Dict.get_eq_none_iff.mpr hp]
      rfl
    refine ⟨m, rfl, fun hb => hunique hb.set, fun g => ?_, fun g hg => ?_⟩
    · by_cases hg : g = p.1
      · rw [hg, hself, Dict.get_cons_self, hv]
      · rw [hget, Dict.get_set_ne hg, Dict.get_cons_ne hg]
    · obtain rfl | hg := List.mem_cons.mp hg
      · by_contra hn
        rw [Dict.get_eq_none_iff.mpr hn] at hself
        cases hself
      · exact hkeys g hg

/-- The groups that an overlay without entries leaves are the base's, whatever they are. -/
theorem mergeEngines_eq_obj {engines : Json} {groups : Dict Json}
    (h : mergeEngines wholesale engines groups = some (.obj m)) : ∃ b, engines = .obj b := by
  cases groups with
  | nil =>
    cases h
    exact ⟨m, rfl⟩
  | cons p groups =>
    rw [mergeEngines, List.foldlM_cons, Option.bind_eq_bind, Option.bind_eq_some_iff] at h
    obtain ⟨_, hentry, -⟩ := h
    obtain ⟨b, hb, -⟩ := Option.bind_eq_some_iff.mp hentry
    exact ⟨b, Json.asObj_eq_some.mp hb⟩

end Groups

/-! ## The embedding server -/

/-- `dest[name].update(params)` for two dictionaries, else `dest[name] = params`. -/
def mergeModel (dest : Json) (p : String × Json) : Option Json := do
  let d ← dest.asObj
  let merged :=
    match d.get p.1, p.2 with
    | some (.obj old), .obj params => .obj (Dict.update old params)
    | _, params => params
  return .obj (d.set p.1 merged)

/-- One field of the overlay's `embedding_server`: the two maps are merged, the rest overrides. -/
def mergeEmbeddingField (base : Json) (p : String × Json) : Option Json := do
  let b ← base.asObj
  match p.2.asObj.filter fun _ => p.1 ∈ ["embedding_models", "reranking_models"] with
  | some models =>
    let dest ← models.foldlM mergeModel ((b.get p.1).getD (.obj []))
    return .obj (b.set p.1 dest)
  | none => return .obj (b.set p.1 p.2)

def mergeEmbedding (merged : Dict Json) (ovEmb : Option Json) : Option (Dict Json) :=
  match ovEmb, merged.get "embedding_server" with
  | some ov, some base =>
    if ov.truthy && base.truthy then do
      let fields ← ov.asObj
      return merged.set "embedding_server" (← fields.foldlM mergeEmbeddingField base)
    else some merged
  | _, _ => some merged

/-- The merged embedding server, from the overlay's and the base's. -/
def mergedServer : Option Json → Option Json → Option (Option Json)
  | some ov, some base =>
    if ov.truthy && base.truthy then do
      return some (← (← ov.asObj).foldlM mergeEmbeddingField base)
    else some (some base)
  | _, base => some base

theorem mergeEmbedding_eq_some {merged out : Dict Json} {ovEmb : Option Json}
    (h : mergeEmbedding merged ovEmb = some out) :
    (∀ k, k ≠ "embedding_server" → out.get k = merged.get k) ∧
      mergedServer ovEmb (merged.get "embedding_server") = some (out.get "embedding_server") := by
  unfold mergeEmbedding at h
  cases hbase : merged.get "embedding_server" with
  | none =>
    cases ovEmb <;>
    · rw [hbase] at h
      cases h
      exact ⟨fun _ _ => rfl, by rw [hbase]; rfl⟩
  | some base =>
    cases ovEmb with
    | none =>
      cases h
      exact ⟨fun _ _ => rfl, by rw [hbase]; rfl⟩
    | some ov =>
      rw [hbase] at h
      dsimp only [mergedServer] at h ⊢
      split_ifs at h ⊢ with ht
      · obtain ⟨fields, hfields, h⟩ := Option.bind_eq_some_iff.mp h
        obtain ⟨emb, hemb, h⟩ := Option.bind_eq_some_iff.mp h
        cases h
        refine ⟨fun k hk => Dict.get_set_ne hk, ?_⟩
        simp [hfields, hemb]
      · cases h
        exact ⟨fun _ _ => rfl, by rw [hbase]⟩

/-! ## The merge -/

/-- The group fields that the overlay replaces wholesale. -/
def backendFields : List String := ["autoscale", "fallback"]

/-- `merge_into` of the backend. -/
def mergeInto (baseRaw : Json) (overlay : Dict Json) : Option (Dict Json) := do
  let base ← baseRaw.asObj
  let groups ← groupsOf overlay
  let engines ← mergeEngines backendFields ((base.get "LLM_engines").getD (.obj [])) groups
  mergeEmbedding (base.set "LLM_engines" engines) (overlay.get "embedding_server")

/-- `yaml.safe_load(f) or {}` of `config.yaml`; `none` if it cannot be read. -/
def orEmpty (yaml : Option Json) : Option Json :=
  yaml.map fun v => if v.truthy then v else .obj []

/-- `build_merged_config`. -/
def buildMergedConfig (py : Pydantic) (yaml : Option Json) (overlay : Dict Json) :
    Option RootConfig := do
  let merged ← mergeInto (← orEmpty yaml) overlay
  RootConfig.validate py (.obj merged)

/-- A configuration and the two sources it is the merge of. -/
structure MergeOf (py : Pydantic) (base overlay : Dict Json) (c : RootConfig)
    (baseGroups groups : Dict Json) : Prop where
  baseEq : groupsOf base = some baseGroups
  overlayEq : groupsOf overlay = some groups
  get (g : String) : c.llmEngines.get g =
    (mergedAt backendFields (baseGroups.get g) (groups.get g)).bind (LLMEngine.validate py)
  mem (g : String) : g ∈ c.llmEngines.keys ↔ g ∈ baseGroups.keys ∨ g ∈ groups.keys
  embedding : ∃ emb, mergedServer (overlay.get "embedding_server") (base.get "embedding_server") =
      some emb ∧
    emb.elim (c.embeddingServer = none)
      (fun v => optional (EmbeddingServer.validate py) v = some c.embeddingServer)

theorem buildMergedConfig_eq_some {py : Pydantic} {yaml : Option Json} {overlay : Dict Json}
    {c : RootConfig} (hu : ∀ groups, groupsOf overlay = some groups → groups.Unique)
    (h : buildMergedConfig py yaml overlay = some c) :
    ∃ base baseGroups groups, orEmpty yaml = some (.obj base) ∧
      MergeOf py base overlay c baseGroups groups := by
  simp only [buildMergedConfig, mergeInto, Option.bind_eq_bind, Option.bind_eq_some_iff,
    Json.asObj_eq_some] at h
  obtain ⟨_, hyaml, merged, ⟨base, rfl, groups, hgroups, engines, hengines, hemb⟩, h⟩ := h
  obtain ⟨d, hd, ⟨e, he, hvalues⟩, hserver⟩ := RootConfig.source h
  cases hd
  obtain ⟨hkept, hmerged⟩ := mergeEmbedding_eq_some hemb
  rw [hkept _ (by decide), Dict.get_set_self] at he
  cases he
  obtain ⟨b, hb⟩ := mergeEngines_eq_obj hengines
  rw [hb] at hengines
  obtain ⟨_, hm, -, hget, hkeys⟩ := get_mergeEngines (hu groups hgroups) hengines
  cases hm
  refine ⟨base, b, groups, hyaml, ?_, hgroups, fun g => ?_, fun g => ?_, ?_⟩
  · rw [groupsOf, hb]
    rfl
  · rw [Dict.get_mapValues hvalues, hget]
  · rw [Dict.keys_mapValues hvalues]
    constructor
    · intro hg
      by_contra hn
      obtain ⟨hb, hg'⟩ := not_or.mp hn
      refine Dict.get_eq_none_iff.mp ?_ hg
      rw [hget, Dict.get_eq_none_iff.mpr hb, Dict.get_eq_none_iff.mpr hg']
      rfl
    · rintro (hg | hg)
      · by_contra hn
        have hng : g ∉ groups.keys := fun h => hn (hkeys g h)
        have hnone := hget g
        rw [Dict.get_eq_none_iff.mpr hn, Dict.get_eq_none_iff.mpr hng] at hnone
        exact Dict.get_eq_none_iff.mp hnone.symm hg
      · exact hkeys g hg
  · rw [Dict.get_set_ne (by decide)] at hmerged
    exact ⟨_, hmerged, hserver⟩

/-! ## Ownership -/

/-- `inst.get("id") == instance_id`. -/
def idIs (instanceId : String) (inst : Json) : Option Bool :=
  inst.asObj.map fun d =>
    match d.get "id" with
    | some (.str s) => s = instanceId
    | _ => false

/-- `any(i.get("id") == instance_id for i in ...)`, up to the first match. -/
def anyWithId (instanceId : String) : List Json → Option Bool
  | [] => some false
  | i :: rest => do
    if ← idIs instanceId i then return true else anyWithId instanceId rest

/-- Whether a group's entry lists the instance. -/
def entryOwns (groups : Dict Json) (group instanceId : String) : Option Bool :=
  match groups.get group with
  | none => some false
  | some entry =>
    if entry.truthy then do
      let e ← entry.asObj
      anyWithId instanceId (← ((e.get "instances").getD (.arr [])).iter)
    else some false

/-- `overlay_owns`. -/
def overlayOwns (overlay : Dict Json) (group instanceId : String) : Option Bool := do
  entryOwns (← groupsOf overlay) group instanceId

/-- `config_owns`: the instance is defined in `config.yaml`. Nothing of the manager calls it. -/
def configOwns (yaml : Option Json) (group instanceId : String) : Option Bool :=
  match orEmpty yaml with
  | none => some false
  | some base => do
    entryOwns (← groupsOf (← base.asObj)) group instanceId

end Llmops.Config
