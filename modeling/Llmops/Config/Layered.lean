import Llmops.Config.Merged
import Llmops.Lib.Merge

/-!
# What layering the overlay does (`merge_into`)

Instances are overridden by id or appended, settings are updated key by key, `autoscale` and
`fallback` are replaced, and of the embedding server each model's parameters are updated. Each of
the four rules is stated in closed form here, for two sides of the configuration's shape whose
groups have each id once (`Shaped`), and each leaves as it is what it is applied to a second time.

The one thing that a second merge adds is an empty list of instances: `setdefault("instances", [])`
runs for every group that the base has, but not for one that is added whole.

* `mergeInstances_overridden`, `overridden_again`: the instances;
* `mergeGroup_formed`, `mergeGroup_absorbed`: a group that both sides have, and once more.
-/

namespace Llmops.Config

open Lib

/-! ## Instances -/

section Instances

/-- The base's instances with those of the overlay in their places, then the overlay's new ones. -/
def overridden (base overlay : List Json) : List Json :=
  base.map (fun i => (overlay.find? fun o => idOf o = idOf i).getD i) ++
    overlay.filter fun o => idOf o ∉ base.map idOf

variable {ids : List Scalar} {base overlay : List Json} {i o x : Json} {n : Nat}

/-- Of instances with different ids an id finds the one that has it. -/
theorem find_id_eq_some (hd : (overlay.map idOf).Nodup) {s : Option Scalar} :
    overlay.find? (fun o => idOf o = s) = some x ↔ x ∈ overlay ∧ idOf x = s := by
  constructor
  · intro h
    exact ⟨List.mem_of_find?_eq_some h, by simpa using List.find?_some h⟩
  · rintro ⟨hx, hs⟩
    have hsome : (overlay.find? fun o => idOf o = s).isSome :=
      List.find?_isSome.mpr ⟨x, hx, by simpa using hs⟩
    obtain ⟨y, hy⟩ := Option.isSome_iff_exists.mp hsome
    have hys : idOf y = s := by simpa using List.find?_some hy
    rw [hy, List.inj_on_of_nodup_map hd (List.mem_of_find?_eq_some hy) hx (hys.trans hs.symm)]

theorem lastIndex_isSome {iid : Scalar} : (lastIndex iid ids).isSome ↔ iid ∈ ids := by
  induction ids with
  | nil => simp [lastIndex]
  | cons x ids ih =>
    rw [List.mem_cons, ← ih, lastIndex]
    cases lastIndex iid ids with
    | some n => simp
    | none =>
      by_cases hx : x = iid
      · simp [hx]
      · simp [hx, Ne.symm hx]

/-- The places that the code looks up are those of the ids. -/
theorem placeOf_eq_some (hd : ids.Nodup) :
    placeOf ids o = some n ↔ ids[n]?.map some = some (idOf o) := by
  unfold placeOf
  cases hid : idOf o with
  | none => cases hn : ids[n]? <;> simp
  | some iid =>
    rw [Option.bind_some]
    constructor
    · intro h
      rw [lastIndex_eq_some h]
      rfl
    · intro h
      obtain ⟨s, hs, hsome⟩ := Option.map_eq_some_iff.mp h
      cases hsome
      obtain ⟨m, hm⟩ := Option.isSome_iff_exists.mp (lastIndex_isSome.mpr (List.mem_of_getElem? hs))
      obtain ⟨hlt, hval⟩ := List.getElem?_eq_some_iff.mp hs
      obtain ⟨hlt', hval'⟩ := List.getElem?_eq_some_iff.mp (lastIndex_eq_some hm)
      rw [hm, hd.getElem_inj_iff.mp (hval'.trans hval.symm)]

theorem placeOf_eq_none (hids : base.mapM idOf = some ids) (ho : (idOf o).isSome) :
    placeOf ids o = none ↔ idOf o ∉ base.map idOf := by
  obtain ⟨iid, hiid⟩ := Option.isSome_iff_exists.mp ho
  rw [placeOf, hiid, Option.bind_some, map_of_mapM hids, ← Option.not_isSome_iff_eq_none,
    lastIndex_isSome]
  simp

theorem lastFor_eq_find (hids : base.mapM idOf = some ids) (hd : (base.map idOf).Nodup)
    (hdo : (overlay.map idOf).Nodup) (hn : base[n]? = some i) :
    lastFor ids overlay n = overlay.find? fun o => idOf o = idOf i := by
  have hmap := map_of_mapM hids
  have hidsd : ids.Nodup := by
    rw [hmap] at hd
    exact hd.of_map some
  have hi : ids[n]?.map some = some (idOf i) := by
    rw [← List.getElem?_map, ← hmap, List.getElem?_map, hn]
    rfl
  refine Option.ext fun x => ?_
  rw [find_id_eq_some hdo]
  constructor
  · intro h
    obtain ⟨⟨hx, -⟩, hplace⟩ := standing_of_lastFor h
    refine ⟨hx, Option.some.inj ?_⟩
    rw [← hi, (placeOf_eq_some hidsd).mp hplace]
  · rintro ⟨hx, hid⟩
    have hplace : placeOf ids x = some n := by
      rw [placeOf_eq_some hidsd, hi, hid]
    cases hl : lastFor ids overlay n with
    | none =>
      have hnone := List.getLast?_eq_none_iff.mp hl
      exact absurd (by simpa using hplace) (List.filter_eq_nil_iff.mp hnone x hx)
    | some y =>
      obtain ⟨⟨hy, -⟩, hyplace⟩ := standing_of_lastFor hl
      have hyid : idOf y = idOf x := Option.some.inj <| by
        rw [← (placeOf_eq_some hidsd).mp hyplace, (placeOf_eq_some hidsd).mp hplace]
      rw [List.inj_on_of_nodup_map hdo hy hx hyid]

/-- **The merged instances**, of two sides that have each id once. -/
theorem mergeInstances_overridden (hb : ∀ i ∈ base, (idOf i).isSome)
    (ho : ∀ o ∈ overlay, (idOf o).isSome) (hd : (base.map idOf).Nodup)
    (hdo : (overlay.map idOf).Nodup) :
    mergeInstances (.arr base) overlay = some (.arr (overridden base overlay)) := by
  obtain ⟨ids, hids⟩ := Option.isSome_iff_exists.mp (mapM_isSome_iff.mpr hb)
  refine mergeInstances_eq_some.mpr ⟨ids, hids, ho, congrArg Json.arr ?_⟩
  unfold overridden mergedInstances
  congr 1
  · refine List.ext_getElem (by simp) fun n hn hn' => ?_
    rw [List.getElem_map, List.getElem_mapIdx, lastFor_eq_find hids hd hdo]
    exact List.getElem?_eq_getElem _
  · refine List.filter_congr fun o h => ?_
    simp only [placeOf_eq_none hids (ho o h)]

/-- An overridden instance keeps its id. -/
theorem idOf_override : idOf ((overlay.find? fun o => idOf o = idOf i).getD i) = idOf i := by
  cases h : overlay.find? fun o => idOf o = idOf i with
  | none => rfl
  | some o => simpa using List.find?_some h

theorem map_idOf_overridden : (overridden base overlay).map idOf =
    base.map idOf ++ (overlay.filter fun o => idOf o ∉ base.map idOf).map idOf := by
  rw [overridden, List.map_append, List.map_map]
  congr 1
  exact List.map_congr_left fun i _ => idOf_override

/-- No id is twice among the merged instances. -/
theorem nodup_overridden (hd : (base.map idOf).Nodup) (hdo : (overlay.map idOf).Nodup) :
    ((overridden base overlay).map idOf).Nodup := by
  rw [map_idOf_overridden, List.nodup_append]
  refine ⟨hd, hdo.sublist (List.filter_sublist.map idOf), fun s hs t ht heq => ?_⟩
  obtain ⟨o, ho, hid⟩ := List.mem_map.mp ht
  refine absurd hs (?_ : s ∉ base.map idOf)
  rw [heq, ← hid]
  simpa using (List.mem_filter.mp ho).2

theorem isSome_overridden (hb : ∀ i ∈ base, (idOf i).isSome) (ho : ∀ o ∈ overlay, (idOf o).isSome)
    (hx : x ∈ overridden base overlay) : (idOf x).isSome := by
  obtain hx | hx := List.mem_append.mp hx
  · obtain ⟨i, hi, rfl⟩ := List.mem_map.mp hx
    rw [idOf_override]
    exact hb i hi
  · exact ho x (List.mem_filter.mp hx).1

/-- Every instance of the overlay is among the merged ones. -/
theorem mem_overridden (hdo : (overlay.map idOf).Nodup) (ho : o ∈ overlay) :
    o ∈ overridden base overlay := by
  by_cases hid : idOf o ∈ base.map idOf
  · obtain ⟨i, hi, hio⟩ := List.mem_map.mp hid
    refine List.mem_append_left _ (List.mem_map.mpr ⟨i, hi, ?_⟩)
    rw [(find_id_eq_some hdo).mpr ⟨ho, hio.symm⟩]
    rfl
  · exact List.mem_append_right _ (List.mem_filter.mpr ⟨ho, by simpa using hid⟩)

/-- Instances among which the overlay's are already. -/
theorem overridden_of_subset (hd : (base.map idOf).Nodup) (hdo : (overlay.map idOf).Nodup)
    (h : ∀ o ∈ overlay, o ∈ base) : overridden base overlay = base := by
  have hsame : (base.map fun i => (overlay.find? fun o => idOf o = idOf i).getD i) = base := by
    refine (List.map_congr_left fun i hi => ?_).trans (List.map_id base)
    cases hf : overlay.find? fun o => idOf o = idOf i with
    | none => rfl
    | some o =>
      obtain ⟨ho, hid⟩ := (find_id_eq_some hdo).mp hf
      exact List.inj_on_of_nodup_map hd (h o ho) hi hid
  have hnone : (overlay.filter fun o => idOf o ∉ base.map idOf) = [] := by
    refine List.filter_eq_nil_iff.mpr fun o ho => ?_
    simpa using ⟨o, h o ho, rfl⟩
  rw [overridden, hsame, hnone, List.append_nil]

end Instances

/-! ## Groups -/

/-- `group.get("instances", [])`. -/
def instancesOf (g : Dict Json) : List Json := ((g.get "instances").bind Json.asArr).getD []

/-- `group.get("model_config", {})`. -/
def settingsOf (g : Dict Json) : Dict Json := ((g.get "model_config").bind Json.asObj).getD []

/-- A group of the configuration's shape, with each id once. -/
structure GroupShaped (g : Dict Json) : Prop where
  instances : ∀ v, g.get "instances" = some v → ∃ xs, v = .arr xs
  settings : ∀ v, g.get "model_config" = some v → ∃ d, v = .obj d ∧ Dict.Unique d
  named : ∀ i ∈ instancesOf g, (idOf i).isSome
  distinct : ((instancesOf g).map idOf).Nodup

/-- A group that both sides have, field by field. -/
structure Overridden (b e m : Dict Json) : Prop where
  instances : m.get "instances" = some (.arr (overridden (instancesOf b) (instancesOf e)))
  distinct : ((overridden (instancesOf b) (instancesOf e)).map idOf).Nodup
  settings : settingsOf e ≠ [] → ∃ cfg : Dict Json, m.get "model_config" = some (.obj cfg) ∧
    cfg.Unique ∧ ∀ k, cfg.get k = ((settingsOf e).get k).or ((settingsOf b).get k)
  settingsKept : settingsOf e = [] → m.get "model_config" = b.get "model_config"
  replaced : ∀ k ∈ backendFields, m.get k = (e.get k).or (b.get k)
  kept : ∀ k ∉ backendFields, k ≠ "model_config" → k ≠ "instances" → m.get k = b.get k

/-- A group in which the overlay's entry for it is already. -/
structure Absorbs (e m : Dict Json) : Prop where
  instances : overridden (instancesOf m) (instancesOf e) = instancesOf m
  settings : (settingsOf m).update (settingsOf e) = settingsOf m
  settingsObj : settingsOf e ≠ [] → m.get "model_config" = some (.obj (settingsOf m))
  replaced : ∀ k ∈ backendFields, ∀ v, e.get k = some v → m.get k = some v

section Groups

variable {b e m g : Dict Json}

theorem GroupShaped.getD_instances (h : GroupShaped g) :
    (g.get "instances").getD (.arr []) = .arr (instancesOf g) := by
  unfold instancesOf
  cases hv : g.get "instances" with
  | none => rfl
  | some v =>
    obtain ⟨xs, rfl⟩ := h.instances v hv
    rfl

theorem GroupShaped.getD_settings (h : GroupShaped g) :
    (g.get "model_config").getD (.obj []) = .obj (settingsOf g) := by
  unfold settingsOf
  cases hv : g.get "model_config" with
  | none => rfl
  | some v =>
    obtain ⟨d, rfl, -⟩ := h.settings v hv
    rfl

theorem GroupShaped.unique_settings (h : GroupShaped g) : (settingsOf g).Unique := by
  unfold settingsOf
  cases hv : g.get "model_config" with
  | none => exact List.nodup_nil
  | some v =>
    obtain ⟨d, rfl, hd⟩ := h.settings v hv
    exact hd

/-- The settings of a group, after the overlay's are put over them. -/
theorem mergeSettings_shaped (hb : GroupShaped b) (he : GroupShaped e) :
    mergeSettings b (e.get "model_config") = some (if settingsOf e = [] then b else
      b.set "model_config" (.obj ((settingsOf b).update (settingsOf e)))) := by
  have hsettings := he.getD_settings
  have hbase := hb.getD_settings
  unfold mergeSettings
  cases hv : e.get "model_config" with
  | none =>
    have hnil : settingsOf e = [] := by rw [settingsOf, hv]; rfl
    rw [if_pos hnil]
  | some v =>
    rw [hv, Option.getD_some] at hsettings
    rw [hsettings]
    by_cases hnil : settingsOf e = []
    · simp [hnil, Json.truthy]
    · simp [hnil, Json.truthy, hbase, Json.asObj, Json.pairs]

/-- **A group that both sides have**: it can be merged, and this is the merged one. -/
theorem mergeGroup_formed (hb : GroupShaped b) (he : GroupShaped e) :
    ∃ m, mergeGroup backendFields (.obj b) (.obj e) = some (.obj m) ∧ Overridden b e m := by
  have hmerge := mergeInstances_overridden hb.named he.named hb.distinct he.distinct
  have hsome : (mergeGroup backendFields (.obj b) (.obj e)).isSome := by
    refine @mergeGroup_isSome backendFields b e (by decide) (instancesOf e) ?_ ?_ ?_
    · rw [mergeSettings_shaped hb he]
      rfl
    · rw [he.getD_instances]
      rfl
    · rw [hb.getD_instances, hmerge]
      rfl
  obtain ⟨out, hout⟩ := Option.isSome_iff_exists.mp hsome
  obtain ⟨b', e', m, hb', he', rfl, hm⟩ := mergeGroup_eq_some (by decide) (by decide) hout
  cases hb'
  cases he'
  refine ⟨m, hout, ?_, nodup_overridden hb.distinct he.distinct, ?_, ?_, hm.replaced, hm.kept⟩
  · obtain ⟨ovs, insts, hovs, hinsts, hget⟩ := hm.instances
    rw [he.getD_instances, Json.iter, Option.some.injEq] at hovs
    rw [hb.getD_instances, ← hovs, hmerge, Option.some.injEq] at hinsts
    rw [hget, hinsts]
  · intro hne
    obtain ⟨g, hg, hget⟩ := hm.settings
    rw [mergeSettings_shaped hb he, if_neg hne, Option.some.injEq] at hg
    refine ⟨_, by rw [hget, ← hg, Dict.get_set_self], hb.unique_settings.update, fun k => ?_⟩
    exact Dict.get_update he.unique_settings
  · intro hnil
    obtain ⟨g, hg, hget⟩ := hm.settings
    rw [mergeSettings_shaped hb he, if_pos hnil, Option.some.injEq] at hg
    rw [hget, hg]

/-- Replacing fields by what they are. -/
theorem foldl_replaceField {fields : List String}
    (h : ∀ k ∈ fields, ∀ v, e.get k = some v → m.get k = some v) :
    fields.foldl (replaceField e) m = m := by
  induction fields with
  | nil => rfl
  | cons k fields ih =>
    have hk : replaceField e m k = m := by
      unfold replaceField
      cases hv : e.get k with
      | none => rfl
      | some v => exact Dict.set_eq_self (h k List.mem_cons_self v hv)
    rw [List.foldl_cons, hk]
    exact ih fun k' hk' => h k' (List.mem_cons_of_mem _ hk')

/-- The group with an empty list of instances, if it has none. -/
def withInstances : Json → Json
  | .obj d => .obj (Dict.setDefault d "instances" (.arr []))
  | v => v

theorem set_instancesOf (h : ∀ v, m.get "instances" = some v → ∃ xs, v = .arr xs) :
    m.set "instances" (.arr (instancesOf m)) = m.setDefault "instances" (.arr []) := by
  unfold instancesOf Dict.setDefault
  cases hv : m.get "instances" with
  | none =>
    rw [if_neg (by simp [Dict.has, hv])]
    rfl
  | some v =>
    obtain ⟨xs, rfl⟩ := h v hv
    rw [if_pos (by simp [Dict.has, hv])]
    exact Dict.set_eq_self hv

/-- **Merging an entry again** that the group has absorbed. -/
theorem mergeGroup_absorbed (hm : GroupShaped m) (he : GroupShaped e) (h : Absorbs e m) :
    mergeGroup backendFields (.obj m) (.obj e) = some (withInstances (.obj m)) := by
  have hsettings : mergeSettings m (e.get "model_config") = some m := by
    rw [mergeSettings_shaped hm he]
    split_ifs with hnil
    · rfl
    · rw [h.settings, Dict.set_eq_self (h.settingsObj hnil)]
  have hmerge := mergeInstances_overridden hm.named he.named hm.distinct he.distinct
  rw [h.instances] at hmerge
  simp only [mergeGroup, Json.asObj, Option.bind_eq_bind, Option.bind_some, hsettings,
    foldl_replaceField h.replaced, hm.getD_instances, he.getD_instances, Json.iter, hmerge,
    set_instancesOf hm.instances, withInstances, Option.pure_def]

/-- An entry absorbs itself. -/
theorem GroupShaped.absorbs_self (he : GroupShaped e) : Absorbs e e where
  instances := overridden_of_subset he.distinct he.distinct fun _ ho => ho
  settings := Dict.update_eq_self fun p hp => Dict.get_of_mem he.unique_settings hp
  settingsObj := by
    intro hne
    have hsettings := he.getD_settings
    cases hv : e.get "model_config" with
    | none =>
      refine absurd ?_ hne
      rw [settingsOf, hv]
      rfl
    | some v =>
      rw [hv] at hsettings
      exact congrArg some hsettings
  replaced := fun _ _ _ hv => hv

/-- **The merged group** is of the same shape, and the entry is in it. -/
theorem Overridden.absorbs (hb : GroupShaped b) (he : GroupShaped e) (h : Overridden b e m) :
    GroupShaped m ∧ Absorbs e m := by
  have hinsts : instancesOf m = overridden (instancesOf b) (instancesOf e) := by
    rw [instancesOf, h.instances]
    rfl
  refine ⟨⟨?_, ?_, ?_, ?_⟩, ?_, ?_, ?_, ?_⟩
  · intro v hv
    rw [h.instances] at hv
    exact ⟨_, (Option.some.inj hv).symm⟩
  · intro v hv
    by_cases hnil : settingsOf e = []
    · rw [h.settingsKept hnil] at hv
      exact hb.settings v hv
    · obtain ⟨cfg, hcfg, hu, -⟩ := h.settings hnil
      rw [hcfg] at hv
      exact ⟨cfg, (Option.some.inj hv).symm, hu⟩
  · intro i hi
    rw [hinsts] at hi
    exact isSome_overridden hb.named he.named hi
  · rw [hinsts]
    exact h.distinct
  · rw [hinsts]
    exact overridden_of_subset h.distinct he.distinct fun _ ho => mem_overridden he.distinct ho
  · by_cases hnil : settingsOf e = []
    · rw [hnil, Dict.update_nil]
    · obtain ⟨cfg, hcfg, -, hget⟩ := h.settings hnil
      have hm : settingsOf m = cfg := by
        rw [settingsOf, hcfg]
        rfl
      refine Dict.update_eq_self fun p hp => ?_
      rw [hm, hget, Dict.get_of_mem he.unique_settings hp]
      rfl
  · intro hne
    obtain ⟨cfg, hcfg, -⟩ := h.settings hne
    rw [settingsOf, hcfg]
    rfl
  · intro k hk v hv
    rw [h.replaced k hk, hv]
    rfl

end Groups

/-! ## Key by key -/

/-- A loop over entries that sets one key of an object at a time. -/
theorem foldlM_eq_mergeWith {F : String → Option Json → Json → Option Json}
    {step : Json → String × Json → Option Json}
    (h : ∀ (d : Dict Json) p, step (.obj d) p = (F p.1 (d.get p.1) p.2).map fun v => .obj (d.set p.1 v))
    {d entries : Dict Json} :
    entries.foldlM step (.obj d) = (Dict.mergeWith F d entries).map Json.obj := by
  unfold Dict.mergeWith
  induction entries generalizing d with
  | nil => rfl
  | cons p entries ih =>
    rw [List.foldlM_cons, List.foldlM_cons, h]
    cases F p.1 (d.get p.1) p.2 with
    | none => rfl
    | some v => exact ih

/-- The value of a group in the merged configuration. -/
def mergedEntry (_ : String) (base : Option Json) (entry : Json) : Option Json :=
  mergedAt backendFields base (some entry)

theorem mergeEngines_eq_mergeWith {b groups : Dict Json} :
    mergeEngines backendFields (.obj b) groups =
      (Dict.mergeWith mergedEntry b groups).map Json.obj := by
  refine foldlM_eq_mergeWith fun d p => ?_
  unfold mergeEntry mergedEntry
  cases hb : d.get p.1 with
  | none => simp [Json.asObj, hb, mergedAt]
  | some base => cases hm : mergeGroup backendFields base p.2 <;> simp [Json.asObj, hb, mergedAt, hm]

/-- The maps of models that the embedding server has. -/
def modelMaps : List String := ["embedding_models", "reranking_models"]

/-- The parameters of a model in the merged configuration. -/
def mergedModel (_ : String) (base : Option Json) (params : Json) : Option Json :=
  match base, params with
  | some (.obj old), .obj new => some (.obj (Dict.update old new))
  | _, _ => some params

theorem foldlM_mergeModel {d models : Dict Json} :
    models.foldlM mergeModel (.obj d) = (Dict.mergeWith mergedModel d models).map Json.obj := by
  refine foldlM_eq_mergeWith fun d p => ?_
  obtain ⟨name, params⟩ := p
  unfold mergeModel mergedModel
  cases hd : d.get name with
  | none => simp [Json.asObj, hd]
  | some base => cases base <;> cases params <;> simp [Json.asObj, hd]

/-- A field of the embedding server in the merged configuration. -/
def mergedField (key : String) (base : Option Json) (v : Json) : Option Json :=
  match v.asObj.filter fun _ => key ∈ modelMaps with
  | some models => models.foldlM mergeModel (base.getD (.obj []))
  | none => some v

theorem foldlM_mergeEmbeddingField {d fields : Dict Json} :
    fields.foldlM mergeEmbeddingField (.obj d) =
      (Dict.mergeWith mergedField d fields).map Json.obj := by
  refine foldlM_eq_mergeWith fun d p => ?_
  unfold mergeEmbeddingField mergedField modelMaps
  rw [Json.asObj, Option.bind_eq_bind, Option.bind_some]
  cases p.2.asObj.filter fun _ => p.1 ∈ ["embedding_models", "reranking_models"] with
  | none => rfl
  | some models => cases h : models.foldlM mergeModel ((d.get p.1).getD (.obj [])) <;> simp [h]

/-! ## All groups -/

/-- How a group of the merged configuration comes about. -/
inductive Layered : Option Json → Option Json → Option Json → Prop
  | kept (base : Option Json) : Layered base none base
  | added (entry : Json) : Layered none (some entry) (some entry)
  | overridden {b e m : Dict Json} (h : Overridden b e m) :
      Layered (some (.obj b)) (some (.obj e)) (some (.obj m))

section Engines

variable {b groups m : Dict Json}

/-- Groups of the configuration's shape. -/
def GroupsShaped (groups : Dict Json) : Prop :=
  groups.Unique ∧ ∀ g v, groups.get g = some v → ∃ d, v = .obj d ∧ GroupShaped d

/-- **The merged groups**: each is kept, added whole or overridden. -/
theorem mergeEngines_layered (hb : GroupsShaped b) (hg : GroupsShaped groups) :
    ∃ m : Dict Json, mergeEngines backendFields (.obj b) groups = some (.obj m) ∧
      ∀ g, Layered (b.get g) (groups.get g) (m.get g) := by
  have hsome : (mergeEngines backendFields (.obj b) groups).isSome := by
    refine mergeEngines_isSome hg.1 fun g base entry hbase hentry => ?_
    obtain ⟨d, rfl, hd⟩ := hb.2 g base hbase
    obtain ⟨e, rfl, he⟩ := hg.2 g entry hentry
    obtain ⟨m, hm, -⟩ := mergeGroup_formed hd he
    rw [hm]
    rfl
  obtain ⟨out, hout⟩ := Option.isSome_iff_exists.mp hsome
  obtain ⟨m, rfl, -, hget, -⟩ := get_mergeEngines hg.1 hout
  refine ⟨m, hout, fun g => ?_⟩
  rw [hget]
  cases hentry : groups.get g with
  | none => exact .kept _
  | some entry =>
    cases hbase : b.get g with
    | none => exact .added entry
    | some base =>
      obtain ⟨d, rfl, hd⟩ := hb.2 g base hbase
      obtain ⟨e, rfl, he⟩ := hg.2 g entry hentry
      obtain ⟨m, hm, hover⟩ := mergeGroup_formed hd he
      rw [mergedAt, hm]
      exact .overridden hover

/-- **Merging the groups again** gives the entries that were added whole a list of instances. -/
theorem mergeEngines_again (hb : GroupsShaped b) (hg : GroupsShaped groups)
    (h : mergeEngines backendFields (.obj b) groups = some (.obj m)) :
    mergeEngines backendFields (.obj m) groups =
      some (.obj (m.change groups.keys withInstances)) := by
  obtain ⟨m', hm', hu, hget, -⟩ := get_mergeEngines hg.1 h
  cases hm'
  rw [mergeEngines_eq_mergeWith, Dict.mergeWith_again hg.1 (hu hb.1)]
  · rfl
  · intro p hp
    have hentry := Dict.get_of_mem hg.1 hp
    obtain ⟨e, he, heshaped⟩ := hg.2 p.1 p.2 hentry
    have hmget := hget p.1
    rw [hentry] at hmget
    rw [hmget]
    cases hbase : b.get p.1 with
    | none =>
      refine ⟨p.2, rfl, ?_⟩
      rw [he]
      exact mergeGroup_absorbed heshaped heshaped heshaped.absorbs_self
    | some base =>
      obtain ⟨d, rfl, hd⟩ := hb.2 p.1 base hbase
      obtain ⟨m, hm, hover⟩ := mergeGroup_formed hd heshaped
      obtain ⟨hshaped, habsorbs⟩ := hover.absorbs hd heshaped
      rw [he]
      exact ⟨.obj m, hm, mergeGroup_absorbed hshaped heshaped habsorbs⟩

end Engines

/-! ## The embedding server -/

/-- An embedding server of the configuration's shape. -/
structure ServerShaped (s : Dict Json) : Prop where
  unique : s.Unique
  maps : ∀ k ∈ modelMaps, ∀ v, s.get k = some v → ∃ models, v = .obj models ∧ Dict.Unique models ∧
    ∀ name params, Dict.get models name = some (.obj params) → Dict.Unique params

/-- The models of one map. -/
def modelsAt (s : Dict Json) (key : String) : Dict Json := ((s.get key).bind Json.asObj).getD []

/-- How the parameters of a model in the merged configuration come about. -/
inductive LayeredModel : Option Json → Option Json → Option Json → Prop
  | kept (base : Option Json) : LayeredModel base none base
  | updated {old new m : Dict Json} (h : ∀ k, m.get k = (new.get k).or (old.get k)) :
      LayeredModel (some (.obj old)) (some (.obj new)) (some (.obj m))
  | replaced {base : Option Json} {params : Json}
      (h : ∀ old new, base = some (.obj old) → params ≠ .obj new) :
      LayeredModel base (some params) (some params)

/-- The merged embedding server: maps of models are merged, other fields are overridden. -/
structure LayeredServer (b o m : Dict Json) : Prop where
  models : ∀ k ∈ modelMaps, ∀ name,
    LayeredModel ((modelsAt b k).get name) ((modelsAt o k).get name) ((modelsAt m k).get name)
  fields : ∀ k ∉ modelMaps, m.get k = (o.get k).or (b.get k)

section Server

variable {b o m d models : Dict Json}

/-- Maps of models. -/
def ModelsShaped (models : Dict Json) : Prop :=
  models.Unique ∧ ∀ name params, models.get name = some (.obj params) → Dict.Unique params

theorem ServerShaped.modelsShaped (h : ServerShaped b) {k : String} (hk : k ∈ modelMaps) :
    ModelsShaped (modelsAt b k) ∧ (b.get k).getD (.obj []) = .obj (modelsAt b k) := by
  unfold modelsAt
  cases hv : b.get k with
  | none => exact ⟨⟨List.nodup_nil, fun name params h => by cases h⟩, rfl⟩
  | some v =>
    obtain ⟨models, rfl, hmodels⟩ := h.maps k hk v hv
    exact ⟨hmodels, rfl⟩

theorem layeredModel_merged {name : String} {base : Option Json} {params v : Json}
    (hu : ∀ new, params = .obj new → Dict.Unique new)
    (h : mergedModel name base params = some v) : LayeredModel base (some params) (some v) := by
  unfold mergedModel at h
  split at h
  · next old new =>
    cases h
    exact .updated fun k => Dict.get_update (hu new rfl)
  · next hne =>
    cases h
    exact .replaced fun old new hbase hparams => hne old new hbase hparams

theorem mergedModel_idem {name : String} {base : Option Json} {params v : Json}
    (hu : ∀ new, params = .obj new → Dict.Unique new)
    (h : mergedModel name base params = some v) : mergedModel name (some v) params = some v := by
  unfold mergedModel at h ⊢
  split at h
  · next old new =>
    cases h
    have hself : (Dict.update old new).update new = Dict.update old new := by
      refine Dict.update_eq_self fun p hp => ?_
      rw [Dict.get_update (hu new rfl), Dict.get_of_mem (hu new rfl) hp]
      rfl
    exact congrArg (fun d => some (Json.obj d)) hself
  · cases h
    cases params with
    | obj new =>
      have hself : Dict.update new new = new :=
        Dict.update_eq_self fun p hp => Dict.get_of_mem (hu new rfl) hp
      exact congrArg (fun d => some (Json.obj d)) hself
    | _ => rfl

/-- The merged models of one map, and once more. -/
theorem mergeModels_layered (hd : d.Unique) (hm : ModelsShaped models) :
    ∃ m : Dict Json, models.foldlM mergeModel (.obj d) = some (.obj m) ∧
      models.foldlM mergeModel (.obj m) = some (.obj m) ∧
      ∀ name, LayeredModel (d.get name) (models.get name) (m.get name) := by
  have hu (p) (hp : p ∈ models) : ∀ new, p.2 = .obj new → Dict.Unique new := by
    intro new hnew
    refine hm.2 p.1 new ?_
    rw [Dict.get_of_mem hm.1 hp, hnew]
  have hsome : (Dict.mergeWith mergedModel d models).isSome := by
    refine Dict.mergeWith_isSome hm.1 fun p hp => ?_
    unfold mergedModel
    split <;> rfl
  obtain ⟨m, hmerge⟩ := Option.isSome_iff_exists.mp hsome
  have hagain := Dict.mergeWith_idem (fun p hp v => mergedModel_idem (hu p hp)) hd hm.1 hmerge
  refine ⟨m, ?_, ?_, fun name => ?_⟩
  · rw [foldlM_mergeModel, hmerge]
    rfl
  · rw [foldlM_mergeModel, hagain]
    rfl
  · cases hname : models.get name with
    | none =>
      rw [Dict.get_mergeWith_of_notMem (Dict.get_eq_none_iff.mp hname) hmerge]
      exact .kept _
    | some params =>
      obtain ⟨v, hv, hget⟩ := Dict.get_mergeWith hm.1 hname hmerge
      rw [hget]
      exact layeredModel_merged (fun new hnew => hm.2 name new (hnew ▸ hname)) hv

/-- A field of the embedding server that is no map of models. -/
theorem mergedField_of_notMem {k : String} {base : Option Json} {v : Json} (hk : k ∉ modelMaps) :
    mergedField k base v = some v := by
  have hnone : (v.asObj.filter fun _ => k ∈ modelMaps) = none := by
    cases v.asObj <;> simp [hk]
  unfold mergedField
  rw [hnone]

theorem mergedField_obj {k : String} {base : Option Json} (hk : k ∈ modelMaps) :
    mergedField k base (.obj models) = models.foldlM mergeModel (base.getD (.obj [])) := by
  have hsome : ((Json.obj models).asObj.filter fun _ => k ∈ modelMaps) = some models := by
    simp [Json.asObj, Option.filter, hk]
  unfold mergedField
  rw [hsome]

/-- A map of models of two servers, and once more. -/
theorem mergedField_layered {k : String} {v : Json} (hb : ServerShaped b) (ho : ServerShaped o)
    (hk : k ∈ modelMaps) (hv : o.get k = some v) :
    ∃ m : Dict Json, mergedField k (b.get k) v = some (.obj m) ∧
      mergedField k (some (.obj m)) v = some (.obj m) ∧
      ∀ name, LayeredModel ((modelsAt b k).get name) ((modelsAt o k).get name) (m.get name) := by
  obtain ⟨hbm, hbase⟩ := hb.modelsShaped hk
  obtain ⟨hom, hmodels⟩ := ho.modelsShaped hk
  rw [hv, Option.getD_some] at hmodels
  obtain ⟨m, hm, hagain, hlayered⟩ := mergeModels_layered hbm.1 hom
  refine ⟨m, ?_, ?_, hlayered⟩
  · rw [hmodels, mergedField_obj hk, hbase, hm]
  · rw [hmodels, mergedField_obj hk, Option.getD_some, hagain]

/-- **The merged embedding server**, and once more. -/
theorem mergeServer_layered (hb : ServerShaped b) (ho : ServerShaped o) :
    ∃ m : Dict Json, o.foldlM mergeEmbeddingField (.obj b) = some (.obj m) ∧
      o.foldlM mergeEmbeddingField (.obj m) = some (.obj m) ∧ LayeredServer b o m := by
  have hsome : (Dict.mergeWith mergedField b o).isSome := by
    refine Dict.mergeWith_isSome ho.unique fun p hp => ?_
    by_cases hk : p.1 ∈ modelMaps
    · obtain ⟨m, hm, -⟩ := mergedField_layered hb ho hk (Dict.get_of_mem ho.unique hp)
      rw [hm]
      rfl
    · rw [mergedField_of_notMem hk]
      rfl
  obtain ⟨m, hmerge⟩ := Option.isSome_iff_exists.mp hsome
  have hagain : Dict.mergeWith mergedField m o = some m := by
    refine Dict.mergeWith_idem (fun p hp v hv => ?_) hb.unique ho.unique hmerge
    by_cases hk : p.1 ∈ modelMaps
    · obtain ⟨m, hm, hsame, -⟩ := mergedField_layered hb ho hk (Dict.get_of_mem ho.unique hp)
      rw [hm, Option.some.injEq] at hv
      rw [← hv]
      exact hsame
    · rw [mergedField_of_notMem hk] at hv ⊢
      exact hv
  refine ⟨m, ?_, ?_, fun k hk => ?_, fun k hk => ?_⟩
  · rw [foldlM_mergeEmbeddingField, hmerge]
    rfl
  · rw [foldlM_mergeEmbeddingField, hagain]
    rfl
  · cases hv : o.get k with
    | none =>
      have hnone : modelsAt o k = [] := by
        rw [modelsAt, hv]
        rfl
      have hsame : modelsAt m k = modelsAt b k := by
        unfold modelsAt
        rw [Dict.get_mergeWith_of_notMem (Dict.get_eq_none_iff.mp hv) hmerge]
      rw [hnone, hsame]
      exact fun name => .kept _
    | some v =>
      obtain ⟨models, hmodels, -, hlayered⟩ := mergedField_layered hb ho hk hv
      obtain ⟨w, hw, hget⟩ := Dict.get_mergeWith ho.unique hv hmerge
      rw [hmodels, Option.some.injEq] at hw
      have hsame : modelsAt m k = models := by
        rw [modelsAt, hget, ← hw]
        rfl
      rw [hsame]
      exact hlayered
  · cases hv : o.get k with
    | none => exact Dict.get_mergeWith_of_notMem (Dict.get_eq_none_iff.mp hv) hmerge
    | some v =>
      obtain ⟨w, hw, hget⟩ := Dict.get_mergeWith ho.unique hv hmerge
      rw [mergedField_of_notMem hk] at hw
      rw [hget, ← hw]
      rfl

end Server

/-! ## The merge -/

/-- A configuration or an overlay of the configuration's shape. -/
structure Shaped (c : Dict Json) : Prop where
  engines : ∀ v, c.get "LLM_engines" = some v → ∃ groups, v = .obj groups ∧ GroupsShaped groups
  server : ∀ v, c.get "embedding_server" = some v → v.truthy →
    ∃ s, v = .obj s ∧ ServerShaped s

/-- `config.get("LLM_engines", {})`. -/
def enginesOf (c : Dict Json) : Dict Json := ((c.get "LLM_engines").bind Json.asObj).getD []

/-- How the embedding server of the merged configuration comes about. -/
inductive ServerLayered : Option Json → Option Json → Option Json → Prop
  | kept {base overlay : Option Json} (h : ¬ (overlay.any Json.truthy ∧ base.any Json.truthy)) :
      ServerLayered base overlay base
  | layered {b o m : Dict Json} (h : LayeredServer b o m) :
      ServerLayered (some (.obj b)) (some (.obj o)) (some (.obj m))

section Merge

variable {base overlay : Dict Json}

theorem Shaped.groups (h : Shaped base) : GroupsShaped (enginesOf base) ∧
    (base.get "LLM_engines").getD (.obj []) = .obj (enginesOf base) := by
  unfold enginesOf
  cases hv : base.get "LLM_engines" with
  | none => exact ⟨⟨List.nodup_nil, fun g v h => by cases h⟩, rfl⟩
  | some v =>
    obtain ⟨groups, rfl, hgroups⟩ := h.engines v hv
    exact ⟨hgroups, rfl⟩

/-- Without something on both sides the embedding server stays. -/
theorem mergeEmbedding_skip {merged : Dict Json} {ovEmb : Option Json}
    (h : ¬ (ovEmb.any Json.truthy ∧ (merged.get "embedding_server").any Json.truthy)) :
    mergeEmbedding merged ovEmb = some merged := by
  unfold mergeEmbedding
  cases ovEmb with
  | none => rfl
  | some ov =>
    cases hv : merged.get "embedding_server" with
    | none => rfl
    | some v =>
      rw [hv] at h
      exact if_neg (by simpa using h)

/-- An embedding server that the overlay's entry leaves as it is. -/
theorem mergeEmbedding_fixed {merged o : Dict Json} {v : Json}
    (hv : merged.get "embedding_server" = some v) (h : o.foldlM mergeEmbeddingField v = some v) :
    mergeEmbedding merged (some (.obj o)) = some merged := by
  by_cases ht : (Json.obj o).truthy ∧ v.truthy
  · simp [mergeEmbedding, hv, ht, Json.asObj, h, Dict.set_eq_self hv]
  · refine mergeEmbedding_skip ?_
    rw [hv]
    exact ht

/-- **The embedding server** of the merged configuration, and once more. -/
theorem mergeEmbedding_layered (hb : Shaped base) (ho : Shaped overlay) {merged : Dict Json}
    (hm : merged.get "embedding_server" = base.get "embedding_server") :
    ∃ out : Dict Json, mergeEmbedding merged (overlay.get "embedding_server") = some out ∧
      (∀ k, k ≠ "embedding_server" → out.get k = merged.get k) ∧
      ServerLayered (base.get "embedding_server") (overlay.get "embedding_server")
        (out.get "embedding_server") ∧
      ∀ again : Dict Json, again.get "embedding_server" = out.get "embedding_server" →
        mergeEmbedding again (overlay.get "embedding_server") = some again := by
  by_cases ht : (overlay.get "embedding_server").any Json.truthy ∧
      (base.get "embedding_server").any Json.truthy
  · obtain ⟨hot, hbt⟩ := ht
    obtain ⟨v, hv, hvt⟩ := (Option.any_eq_true _ _).mp hbt
    obtain ⟨w, hw, hwt⟩ := (Option.any_eq_true _ _).mp hot
    obtain ⟨b, rfl, hbs⟩ := hb.server v hv hvt
    obtain ⟨o, rfl, hos⟩ := ho.server w hw hwt
    obtain ⟨m, hmerge, hagain, hlayered⟩ := mergeServer_layered hbs hos
    refine ⟨merged.set "embedding_server" (.obj m), ?_, fun k hk => Dict.get_set_ne hk, ?_, ?_⟩
    · rw [hw]
      simp [mergeEmbedding, hm, hv, hvt, hwt, Json.asObj, hmerge]
    · rw [hv, hw, Dict.get_set_self]
      exact .layered hlayered
    · intro again heq
      rw [Dict.get_set_self] at heq
      rw [hw]
      exact mergeEmbedding_fixed heq hagain
  · refine ⟨merged, mergeEmbedding_skip (by rw [hm]; exact ht), fun _ _ => rfl, ?_, ?_⟩
    · rw [hm]
      exact .kept ht
    · intro again heq
      refine mergeEmbedding_skip ?_
      rw [heq, hm]
      exact ht

/-- **What layering does**, and what it does once more. -/
theorem mergeInto_layered (hb : Shaped base) (ho : Shaped overlay) :
    ∃ out m : Dict Json, mergeInto (.obj base) overlay = some out ∧
      out.get "LLM_engines" = some (.obj m) ∧
      (∀ g, Layered ((enginesOf base).get g) ((enginesOf overlay).get g) (m.get g)) ∧
      ServerLayered (base.get "embedding_server") (overlay.get "embedding_server")
        (out.get "embedding_server") ∧
      (∀ k, k ≠ "LLM_engines" → k ≠ "embedding_server" → out.get k = base.get k) ∧
      mergeInto (.obj out) overlay = some
        (out.set "LLM_engines" (.obj (m.change (enginesOf overlay).keys withInstances))) := by
  obtain ⟨hbg, hbe⟩ := hb.groups
  obtain ⟨hog, hoe⟩ := ho.groups
  have hgroups : groupsOf overlay = some (enginesOf overlay) := by
    rw [groupsOf, hoe]
    rfl
  obtain ⟨m, hm, hlayered⟩ := mergeEngines_layered hbg hog
  have hkeep : (base.set "LLM_engines" (.obj m)).get "embedding_server" =
      base.get "embedding_server" := Dict.get_set_ne (by decide)
  obtain ⟨out, hout, hkept, hserver, hagain⟩ := mergeEmbedding_layered hb ho hkeep
  have hengines : out.get "LLM_engines" = some (.obj m) := by
    rw [hkept _ (by decide), Dict.get_set_self]
  refine ⟨out, m, ?_, hengines, hlayered, hserver, fun k hk hk' => ?_, ?_⟩
  · simp only [mergeInto, Json.asObj, Option.bind_eq_bind, Option.bind_some, hgroups, hbe, hm, hout]
  · rw [hkept k hk', Dict.get_set_ne hk]
  · simp only [mergeInto, Json.asObj, Option.bind_eq_bind, Option.bind_some, hgroups, hengines,
      Option.getD_some, mergeEngines_again hbg hog hm]
    exact hagain _ (Dict.get_set_ne (by decide))

end Merge

end Llmops.Config
