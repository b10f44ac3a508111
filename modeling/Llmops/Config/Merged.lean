import Llmops.Config.Overlay

/-!
# What the merge of two groups is, and when there is one

`mergeInstances` replaces and appends one overlay instance after the other. In the end
(`mergeInstances_eq_some`) every base instance is where it was, unless the overlay has one for its
place: then the last of these is there. The others follow in the order of the overlay.

* `standing_iff`: the overlay's instances of the merged group are those that no later one displaces;
* `mergeGroup_isSome`, `mergeEngines_isSome`: what a merge of groups asks of its two sides.
-/

namespace Llmops.Config

open Lib

/-! ## The merged instances -/

section Instances

/-- The place of a base instance that the overlay's instance takes. -/
def placeOf (ids : List Scalar) (inst : Json) : Option Nat := (idOf inst).bind (lastIndex · ids)

/-- The overlay's last instance for a place. -/
def lastFor (ids : List Scalar) (overlay : List Json) (n : Nat) : Option Json :=
  (overlay.filter fun inst => placeOf ids inst = some n).getLast?

/-- The merged instances. -/
def mergedInstances (ids : List Scalar) (base overlay : List Json) : List Json :=
  base.mapIdx (fun n inst => (lastFor ids overlay n).getD inst) ++
    overlay.filter fun inst => placeOf ids inst = none

variable {ids : List Scalar} {base overlay : List Json} {inst : Json} {n : Nat}

theorem placeOf_lt (h : placeOf ids inst = some n) : n < ids.length := by
  obtain ⟨iid, -, h⟩ := Option.bind_eq_some_iff.mp h
  exact (List.getElem?_eq_some_iff.mp (lastIndex_eq_some h)).1

theorem lastFor_concat : lastFor ids (overlay ++ [inst]) n =
    if placeOf ids inst = some n then some inst else lastFor ids overlay n := by
  unfold lastFor
  rw [List.filter_append]
  split_ifs with h
  · simp [h]
  · simp [h]

/-- One more instance of the overlay. -/
theorem mergeInstance_mergedInstances (hlen : ids.length = base.length) (hid : (idOf inst).isSome) :
    mergeInstance ids (.arr (mergedInstances ids base overlay)) inst =
      some (.arr (mergedInstances ids base (overlay ++ [inst]))) := by
  obtain ⟨iid, hiid⟩ := Option.isSome_iff_exists.mp hid
  have hplace : placeOf ids inst = lastIndex iid ids := by rw [placeOf, hiid, Option.bind_some]
  simp only [mergeInstance, hiid, Json.asArr, Option.bind_eq_bind, Option.bind_some,
    Option.pure_def, ← hplace, mergedInstances, lastFor_concat, List.filter_append]
  cases hn : placeOf ids inst with
  | none => simp [hn]
  | some n =>
    have hlt : n < base.length := hlen ▸ placeOf_lt hn
    have hset : (base.mapIdx fun m x => (lastFor ids overlay m).getD x).set n inst =
        base.mapIdx fun m x => (if n = m then some inst else lastFor ids overlay m).getD x := by
      refine List.ext_getElem (by simp) fun m hm hm' => ?_
      rw [List.getElem_set]
      by_cases h : n = m <;> simp [h]
    simp [hn, hset, List.set_append_left, hlt]

/-- **The merged instances**: there are some if every instance of the two sides has an id that can
be compared. -/
theorem mergeInstances_eq_some {out : Json} : mergeInstances (.arr base) overlay = some out ↔
    ∃ ids, base.mapM idOf = some ids ∧ (∀ inst ∈ overlay, (idOf inst).isSome) ∧
      out = .arr (mergedInstances ids base overlay) := by
  simp only [mergeInstances, Json.iter, Option.bind_eq_bind, Option.bind_some,
    Option.bind_eq_some_iff]
  refine exists_congr fun ids => and_congr_right fun hids => ?_
  have hlen : ids.length = base.length := (mapM_eq_some_iff.mp hids).length_eq.symm
  induction overlay using List.reverseRecOn generalizing out with
  | nil =>
    have hnil : mergedInstances ids base [] = base :=
      List.ext_getElem (by simp [mergedInstances]) fun n hn hn' => by
        simp [mergedInstances, lastFor]
    rw [hnil]
    exact ⟨fun h => ⟨by simp, (Option.some.inj h).symm⟩, fun h => congrArg some h.2.symm⟩
  | append_singleton overlay inst ih =>
    have hlast : ∀ v, List.foldlM (mergeInstance ids) v [inst] = mergeInstance ids v inst := by
      simp
    rw [List.foldlM_append, Option.bind_eq_bind, Option.bind_eq_some_iff]
    simp only [ih, hlast, List.forall_mem_append, List.forall_mem_singleton]
    constructor
    · rintro ⟨_, ⟨hov, rfl⟩, h⟩
      have hid : (idOf inst).isSome := by
        obtain ⟨iid, hiid, -⟩ := Option.bind_eq_some_iff.mp h
        rw [hiid]
        rfl
      rw [mergeInstance_mergedInstances hlen hid] at h
      exact ⟨⟨hov, hid⟩, (Option.some.inj h).symm⟩
    · rintro ⟨⟨hov, hid⟩, rfl⟩
      exact ⟨_, ⟨hov, rfl⟩, mergeInstance_mergedInstances hlen hid⟩

/-- An instance of the overlay that no later one displaces. -/
def Standing (ids : List Scalar) (overlay : List Json) (inst : Json) : Prop :=
  inst ∈ overlay ∧ ∀ n, placeOf ids inst = some n → lastFor ids overlay n = some inst

/-- At each place of the merged instances there is a standing instance of the overlay, or the
base's. -/
theorem standing_of_lastFor (h : lastFor ids overlay n = some inst) :
    Standing ids overlay inst ∧ placeOf ids inst = some n := by
  have hmem := List.mem_filter.mp (List.mem_of_getLast? h)
  have hplace : placeOf ids inst = some n := by simpa using hmem.2
  refine ⟨⟨hmem.1, fun m hm => ?_⟩, hplace⟩
  rw [hplace] at hm
  cases hm
  exact h

end Instances

/-! ## When there is a merge -/

section Groups

variable {wholesale : List String} {b e : Dict Json} {groups : Dict Json}

/-- A group can be merged if its settings can be updated and its instances merged. -/
theorem mergeGroup_isSome (hinst : "instances" ∉ wholesale) {ovs : List Json}
    (hsettings : (mergeSettings b (e.get "model_config")).isSome)
    (hovs : ((e.get "instances").getD (.arr [])).iter = some ovs)
    (hmerge : (mergeInstances ((b.get "instances").getD (.arr [])) ovs).isSome) :
    (mergeGroup wholesale (.obj b) (.obj e)).isSome := by
  obtain ⟨g, hg⟩ := Option.isSome_iff_exists.mp hsettings
  obtain ⟨insts, hinsts⟩ := Option.isSome_iff_exists.mp hmerge
  have hget : (wholesale.foldl (replaceField e) g).get "instances" = b.get "instances" := by
    rw [get_replaceFields, if_neg hinst, get_mergeSettings hg (by decide)]
  simp [mergeGroup, Json.asObj, hg, hovs, hget, hinsts]

/-- The groups of an overlay can be merged if each that the base has can be. -/
theorem mergeEngines_isSome (hu : groups.Unique)
    (h : ∀ g base entry, b.get g = some base → groups.get g = some entry →
      (mergeGroup wholesale base entry).isSome) :
    (mergeEngines wholesale (.obj b) groups).isSome := by
  induction groups generalizing b with
  | nil => rfl
  | cons p groups ih =>
    obtain ⟨hp, hu⟩ := List.nodup_cons.mp hu
    have hrest (v : Json) : (mergeEngines wholesale (.obj (b.set p.1 v)) groups).isSome := by
      refine ih hu fun g base entry hbase hentry => ?_
      have hne : g ≠ p.1 := by
        rintro rfl
        rw [Dict.get_eq_none_iff.mpr hp] at hentry
        cases hentry
      rw [Dict.get_set_ne hne] at hbase
      refine h g base entry hbase ?_
      rw [Dict.get_cons_ne hne, hentry]
    unfold mergeEngines at hrest ⊢
    rw [List.foldlM_cons, mergeEntry, Json.asObj, Option.bind_eq_bind, Option.bind_eq_bind,
      Option.bind_some]
    cases hb : b.get p.1 with
    | none => exact hrest p.2
    | some base =>
      obtain ⟨v, hv⟩ := Option.isSome_iff_exists.mp (h p.1 base p.2 hb Dict.get_cons_self)
      simp only [hv, Option.bind_some, Option.pure_def]
      exact hrest v

/-- The names of merged groups: those of the base, then the overlay's own. -/
def mergedNames (base overlay : List String) : List String :=
  overlay.foldl (fun names g => if g ∈ names then names else names ++ [g]) base

theorem keys_mergeEngines {m : Dict Json} (h : mergeEngines wholesale (.obj b) groups = some (.obj m)) :
    m.keys = mergedNames b.keys groups.keys := by
  induction groups generalizing b with
  | nil =>
    cases h
    rfl
  | cons p groups ih =>
    rw [mergeEngines, List.foldlM_cons, Option.bind_eq_bind, Option.bind_eq_some_iff] at h
    obtain ⟨_, hentry, h⟩ := h
    obtain ⟨v, rfl, -⟩ := mergeEntry_eq_some hentry
    rw [ih h, Dict.keys_set]
    rfl

/-- The raw engines that a merged configuration was validated from. -/
theorem engines_of_merged {py : Pydantic} {yaml : Option Json} {overlay : Dict Json} {c : RootConfig}
    (h : buildMergedConfig py yaml overlay = some c) : ∃ base baseGroups groups m : Dict Json,
      orEmpty yaml = some (.obj base) ∧ groupsOf base = some baseGroups ∧
        groupsOf overlay = some groups ∧
        mergeEngines backendFields (.obj baseGroups) groups = some (.obj m) ∧
        Dict.mapValues (LLMEngine.validate py) m = some c.llmEngines := by
  simp only [buildMergedConfig, mergeInto, Option.bind_eq_bind, Option.bind_eq_some_iff,
    Json.asObj_eq_some] at h
  obtain ⟨_, hyaml, merged, ⟨base, rfl, groups, hgroups, engines, hengines, hemb⟩, h⟩ := h
  obtain ⟨_, hd, ⟨m, hm, hvalues⟩, -⟩ := RootConfig.source h
  cases hd
  rw [(mergeEmbedding_eq_some hemb).1 _ (by decide), Dict.get_set_self] at hm
  cases hm
  obtain ⟨b, hb⟩ := mergeEngines_eq_obj hengines
  rw [hb] at hengines
  exact ⟨base, b, groups, m, hyaml, by rw [groupsOf, hb]; rfl, hgroups, hengines, hvalues⟩

end Groups

end Llmops.Config
