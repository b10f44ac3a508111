import Llmops.Config.Layered
import Llmops.Lib.Heap

/-!
# The merge as it is run: on objects

`merge_into` writes to dictionaries and lists, and the values of its two arguments are reached by
reference. Here it is once more, statement by statement, on a heap of objects. It writes to the copy
of the base and to copies of the overlay's values only, whatever the two arguments share
(`mergeInto_safe`): the objects that were there before are there after.
-/

namespace Llmops.Config.Mutation

open Lib Lib.Objects Lib.Objects.Op

/-- `inst.get("id")` as the key of a dictionary: objects are not hashable. -/
def idOf (inst : Val) : Op Scalar := do
  match ← getKey inst "id" with
  | none => return .null
  | some (.atom s) => return s
  | some (.ref _) => failure

/-- One overlay instance: it replaces the base instance with its id, else it is appended. -/
def mergeInstance (baseInstances : Val) (ids : List Scalar) (inst : Val) : Op PUnit := do
  let iid ← idOf inst
  let new ← deepcopy inst
  match lastIndex iid ids with
  | some n => setIndex baseInstances n new
  | none => append baseInstances new

/-- `v.get(key, [])`, to go through. -/
def elementsAt (v : Val) (key : String) : Op (List Val) := do
  match ← getKey v key with
  | none => return []
  | some xs => elements xs

/-- `v.get(key, {}).items()`. -/
def itemsAt (v : Val) (key : String) : Op (Dict Val) := do
  match ← getKey v key with
  | none => return []
  | some d => items d

/-- `base_group.setdefault("instances", [])` and the loop over the overlay's instances. -/
def mergeInstances (baseGroup entry : Val) : Op PUnit := do
  let baseInstances ← setDefault baseGroup "instances" (← alloc (.list []))
  let ids ← (← elements baseInstances).mapM idOf
  (← elementsAt entry "instances").forM (mergeInstance baseInstances ids)

/-- `base_group.setdefault("model_config", {}).update(ov_cfg)`, if there is something to update. -/
def mergeSettings (baseGroup entry : Val) : Op PUnit := do
  match ← getKey entry "model_config" with
  | none => return
  | some ovCfg => do
    if ← truthy ovCfg then
      let baseCfg ← setDefault baseGroup "model_config" (← alloc (.dict []))
      update baseCfg (← deepcopy ovCfg)
    else return

/-- `if key in entry: base_group[key] = entry[key]`. -/
def replaceField (baseGroup entry : Val) (key : String) : Op PUnit := do
  match ← getKey entry key with
  | none => return
  | some v => setKey baseGroup key (← deepcopy v)

/-- One group of the overlay: added whole if the base does not have it. -/
def mergeEntry (engines : Val) (p : String × Val) : Op PUnit := do
  match ← getKey engines p.1 with
  | none => setKey engines p.1 (← deepcopy p.2)
  | some baseGroup => do
    mergeSettings baseGroup p.2
    backendFields.forM (replaceField baseGroup p.2)
    mergeInstances baseGroup p.2

/-- `dest[name].update(params)` for two dictionaries, else `dest[name] = params`. -/
def mergeModel (dest : Val) (p : String × Val) : Op PUnit := do
  match ← getKey dest p.1 with
  | none => setKey dest p.1 (← deepcopy p.2)
  | some old => do
    if (← isDict old) && (← isDict p.2) then update old (← deepcopy p.2)
    else setKey dest p.1 (← deepcopy p.2)

/-- One field of the overlay's `embedding_server`: the two maps are merged, the rest overrides. -/
def mergeEmbeddingField (baseEmb : Val) (p : String × Val) : Op PUnit := do
  if p.1 ∈ modelMaps && (← isDict p.2) then
    let dest ← setDefault baseEmb p.1 (← alloc (.dict []))
    (← items p.2).forM (mergeModel dest)
  else setKey baseEmb p.1 (← deepcopy p.2)

def mergeEmbedding (merged overlay : Val) : Op PUnit := do
  match ← getKey overlay "embedding_server", ← getKey merged "embedding_server" with
  | some ov, some base => do
    if (← truthy ov) && (← truthy base) then (← items ov).forM (mergeEmbeddingField base)
    else return
  | _, _ => return

/-- `merge_into`. -/
def mergeInto (baseRaw overlay : Val) : Op Val := do
  let merged ← deepcopy baseRaw
  let engines ← setDefault merged "LLM_engines" (← alloc (.dict []))
  (← itemsAt overlay "LLM_engines").forM (mergeEntry engines)
  mergeEmbedding merged overlay
  return merged

/-! ## What it writes to -/

section Safety

variable {old : Heap} {v w : Val} {key : String}

theorem emptyDict_safe : Safe old (alloc (.dict [])) fun v => v.Fresh old.length :=
  .alloc fun _ hp => absurd hp List.not_mem_nil

theorem emptyList_safe : Safe old (alloc (.list [])) fun v => v.Fresh old.length :=
  .alloc fun _ hx => absurd hx List.not_mem_nil

theorem idOf_safe : Safe old (idOf v) fun _ => True := by
  refine .bind (.getKey v "id") fun found _ => ?_
  cases found with
  | none => exact .pure trivial
  | some x =>
    cases x with
    | atom s => exact .pure trivial
    | ref a => exact .failure

/-- `x[…] = deepcopy(v)` and the like, for a new `x`. -/
theorem copied_safe {f : Val → Op PUnit}
    (hf : ∀ x : Val, x.Fresh old.length → Safe old (f x) fun _ => True) :
    Safe old (deepcopy v >>= f) fun _ => True :=
  .bind (.deepcopy v) hf

theorem mergeInstance_safe {ids : List Scalar} (hv : v.Fresh old.length) :
    Safe old (mergeInstance v ids w) fun _ => True := by
  refine .bind idOf_safe fun iid _ => copied_safe fun x hx => ?_
  split
  · exact .setIndex hv hx
  · exact .append hv hx

theorem elementsAt_safe : Safe old (elementsAt v key) fun _ => True := by
  refine .bind (.getKey v key) fun found _ => ?_
  cases found with
  | none => exact .pure trivial
  | some x => exact .mono (.elements x) fun _ _ => trivial

theorem itemsAt_safe : Safe old (itemsAt v key) fun _ => True := by
  refine .bind (.getKey v key) fun found _ => ?_
  cases found with
  | none => exact .pure trivial
  | some x => exact .mono (.items x) fun _ _ => trivial

theorem mergeInstances_safe (hv : v.Fresh old.length) :
    Safe old (mergeInstances v w) fun _ => True := by
  refine .bind emptyList_safe fun x hx => .bind (.setDefault hv hx) fun xs hxs => ?_
  refine .bind (.elements xs) fun insts _ => .bind (.mapM fun _ _ => idOf_safe) fun ids _ => ?_
  exact .bind elementsAt_safe fun ovs _ => .forM fun _ _ => mergeInstance_safe hxs

theorem mergeSettings_safe (hv : v.Fresh old.length) :
    Safe old (mergeSettings v w) fun _ => True := by
  refine .bind (.getKey w "model_config") fun found _ => ?_
  cases found with
  | none => exact .pure trivial
  | some ovCfg =>
    refine .bind (.truthy ovCfg) fun t _ => ?_
    split
    · refine .bind emptyDict_safe fun x hx => .bind (.setDefault hv hx) fun cfg hcfg => ?_
      exact copied_safe fun y hy => .update hcfg hy
    · exact .pure trivial

theorem replaceField_safe (hv : v.Fresh old.length) :
    Safe old (replaceField v w key) fun _ => True := by
  refine .bind (.getKey w key) fun found _ => ?_
  cases found with
  | none => exact .pure trivial
  | some x => exact copied_safe fun y hy => .setKey hv hy

theorem mergeEntry_safe {p : String × Val} (hv : v.Fresh old.length) :
    Safe old (mergeEntry v p) fun _ => True := by
  refine .bind (.getKey v p.1) fun found hfound => ?_
  cases found with
  | none => exact copied_safe fun y hy => .setKey hv hy
  | some group =>
    have hgroup := hfound hv group rfl
    refine .bind (mergeSettings_safe hgroup) fun _ _ => ?_
    refine .bind (.forM fun _ _ => replaceField_safe hgroup) fun _ _ => ?_
    exact mergeInstances_safe hgroup

theorem mergeModel_safe {p : String × Val} (hv : v.Fresh old.length) :
    Safe old (mergeModel v p) fun _ => True := by
  refine .bind (.getKey v p.1) fun found hfound => ?_
  cases found with
  | none => exact copied_safe fun y hy => .setKey hv hy
  | some model =>
    refine .bind (.isDict model) fun t _ => .bind (.isDict p.2) fun t' _ => ?_
    split
    · exact copied_safe fun y hy => .update (hfound hv model rfl) hy
    · exact copied_safe fun y hy => .setKey hv hy

theorem mergeEmbeddingField_safe {p : String × Val} (hv : v.Fresh old.length) :
    Safe old (mergeEmbeddingField v p) fun _ => True := by
  refine .bind (.isDict p.2) fun t _ => ?_
  split
  · refine .bind emptyDict_safe fun x hx => .bind (.setDefault hv hx) fun dest hdest => ?_
    exact .bind (.items p.2) fun models _ => .forM fun _ _ => mergeModel_safe hdest
  · exact copied_safe fun y hy => .setKey hv hy

theorem mergeEmbedding_safe (hv : v.Fresh old.length) :
    Safe old (mergeEmbedding v w) fun _ => True := by
  refine .bind (.getKey w "embedding_server") fun ov _ => ?_
  refine .bind (.getKey v "embedding_server") fun found hfound => ?_
  cases ov with
  | none => exact .pure trivial
  | some ov =>
  cases found with
  | none => exact .pure trivial
  | some base =>
    refine .bind (.truthy ov) fun t _ => .bind (.truthy base) fun t' _ => ?_
    split
    · refine .bind (.items ov) fun fields _ => .forM fun _ _ => ?_
      exact mergeEmbeddingField_safe (hfound hv base rfl)
    · exact .pure trivial

/-- **The merge writes to new objects only**, and its result is new. -/
theorem mergeInto_safe (base overlay : Val) :
    Safe old (mergeInto base overlay) fun merged => merged.Fresh old.length := by
  refine .bind (.deepcopy base) fun merged hmerged => ?_
  refine .bind emptyDict_safe fun x hx => .bind (.setDefault hmerged hx) fun engines hengines => ?_
  refine .bind itemsAt_safe fun groups _ => ?_
  refine .bind (.forM fun _ _ => mergeEntry_safe hengines) fun _ _ => ?_
  exact .bind (mergeEmbedding_safe hmerged) fun _ _ => .pure hmerged

end Safety

/-! ## The overlay over the base -/

/-- **Layering an overlay**: every group is kept, added whole or overridden, the embedding server is
kept or merged, and the other fields stay. Once more it changes nothing but that a group that was
added whole without instances gets an empty list of them. The objects of the two sides stay as they
are. -/
theorem overlay_layers {base overlay : Dict Json} (hb : Shaped base) (ho : Shaped overlay) :
    (∃ out m : Dict Json, Config.mergeInto (.obj base) overlay = some out ∧
      out.get "LLM_engines" = some (.obj m) ∧
      (∀ g, Layered ((enginesOf base).get g) ((enginesOf overlay).get g) (m.get g)) ∧
      ServerLayered (base.get "embedding_server") (overlay.get "embedding_server")
        (out.get "embedding_server") ∧
      (∀ k, k ≠ "LLM_engines" → k ≠ "embedding_server" → out.get k = base.get k) ∧
      Config.mergeInto (.obj out) overlay = some
        (out.set "LLM_engines" (.obj (m.change (enginesOf overlay).keys withInstances)))) ∧
    ∀ (old heap : Heap) (b o merged : Val), mergeInto b o old = some (merged, heap) →
      old <+: heap ∧ merged.Fresh old.length := by
  refine ⟨mergeInto_layered hb ho, fun old heap b o merged hrun => ?_⟩
  have hsafe := @mergeInto_safe old b o
  refine ⟨hsafe.kept hrun, (hsafe old merged heap ⟨List.prefix_rfl, fun a x ha hx => ?_⟩ hrun).2⟩
  have hlt := (List.getElem?_eq_some_iff.mp hx).1
  omega

theorem groupsShaped_single {g : String} {d : Dict Json} (h : GroupShaped d) :
    GroupsShaped [(g, .obj d)] := by
  refine ⟨List.nodup_singleton g, fun k v hv => ⟨d, ?_, h⟩⟩
  rw [Dict.get_cons] at hv
  split_ifs at hv
  · exact (Option.some.inj hv).symm
  · cases hv

theorem shaped_groups {groups : Dict Json} (h : GroupsShaped groups) :
    Shaped [("LLM_engines", .obj groups)] where
  engines v hv := ⟨groups, (Option.some.inj hv).symm, h⟩
  server v hv := by cases hv

theorem groupShaped_instances {xs : List Json} (hnamed : ∀ i ∈ xs, (Config.idOf i).isSome)
    (hd : (xs.map Config.idOf).Nodup) : GroupShaped [("instances", .arr xs)] where
  instances v hv := ⟨xs, (Option.some.inj hv).symm⟩
  settings v hv := by cases hv
  named := hnamed
  distinct := hd

/-- One instance is overridden and another is added. -/
theorem overlay_layers_example : ∃ out m : Dict Json,
    Config.mergeInto (.obj [("LLM_engines", .obj [("Q", .obj [("instances",
      .arr [.obj [("id", .str "a"), ("port", .int 8002)]])])])])
      [("LLM_engines", .obj [("Q", .obj [("instances",
        .arr [.obj [("id", .str "a"), ("port", .int 9999)], .obj [("id", .str "b")]])])])] =
      some out ∧ out.get "LLM_engines" = some (.obj m) := by
  have hb := shaped_groups (groupsShaped_single (g := "Q") (@groupShaped_instances
    [.obj [("id", .str "a"), ("port", .int 8002)]] (by decide) (by decide)))
  have ho := shaped_groups (groupsShaped_single (g := "Q") (@groupShaped_instances
    [.obj [("id", .str "a"), ("port", .int 9999)], .obj [("id", .str "b")]] (by decide) (by decide)))
  obtain ⟨⟨out, m, hout, hm, -⟩, -⟩ := overlay_layers hb ho
  exact ⟨out, m, hout, hm⟩

/-- A group that the overlay adds without instances has a list of them after the second merge. -/
theorem second_merge_adds : ∃ base overlay out again : Dict Json, Shaped base ∧ Shaped overlay ∧
    Config.mergeInto (.obj base) overlay = some out ∧
    Config.mergeInto (.obj out) overlay = some again ∧ again ≠ out := by
  refine ⟨[("LLM_engines", .obj [])],
    [("LLM_engines", .obj [("Q", .obj [("autoscale", .obj [("enabled", .bool true)])])])],
    [("LLM_engines", .obj [("Q", .obj [("autoscale", .obj [("enabled", .bool true)])])])],
    [("LLM_engines", .obj [("Q", .obj [("autoscale", .obj [("enabled", .bool true)]),
      ("instances", .arr [])])])], ?_, ?_, by rfl, by rfl, by simp⟩
  · exact shaped_groups ⟨List.nodup_nil, fun g v hv => by cases hv⟩
  · exact shaped_groups (groupsShaped_single
      ⟨fun v hv => (by cases hv), fun v hv => (by cases hv), by decide, by decide⟩)

end Llmops.Config.Mutation
