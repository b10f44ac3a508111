import Llmops.Config.Layered
import Llmops.Config.Noop

/-!
# One port for each instance

`create_overlay_model` and `update_overlay_model` refuse a port that a record of the registry has.
`import_overlay` and `sync_overlay_from_store` take a whole overlay and bring the registry in line
with it; they look at no port.

* `find_new`: under a name that is given once, a merged group has the instance of the request;
* `apart_of_guarded`: along a run whose steps meet `PortGuard` no two records have one port;
* `imported_clash`: an import after which two records have one port.
-/

namespace Llmops.Config

open Lib

/-! ## The instance of the request in the merged group -/

section Merged

variable {s : String} {xs ys base overlay : List Json} {x new : Json} {ids : List Scalar}

/-- The id is given to one instance of the list at most. -/
def Once (s : String) (xs : List Json) : Prop :=
  xs.Pairwise fun x y => idOf x = some (.str s) → idOf y ≠ some (.str s)

instance : Decidable (Once s xs) :=
  inferInstanceAs (Decidable (xs.Pairwise fun x y => idOf x = some (.str s) → idOf y ≠ some (.str s)))

/-- The instances of the list that have the id are this one. -/
def Only (s : String) (new : Json) (xs : List Json) : Prop :=
  new ∈ xs ∧ ∀ x ∈ xs, idOf x = some (.str s) → x = new

theorem Once.eq_of_getElem? {i j : Nat} {y : Json} (h : Once s xs) (hi : xs[i]? = some x)
    (hj : xs[j]? = some y) (hx : idOf x = some (.str s)) (hy : idOf y = some (.str s)) : i = j := by
  obtain ⟨hilt, rfl⟩ := List.getElem?_eq_some_iff.mp hi
  obtain ⟨hjlt, rfl⟩ := List.getElem?_eq_some_iff.mp hj
  have hpair := List.pairwise_iff_getElem.mp h
  by_contra hne
  obtain hlt | hlt := Nat.lt_or_gt_of_ne hne
  · exact hpair i j hilt hjlt hlt hx hy
  · exact hpair j i hjlt hilt hlt hy hx

theorem only_append (hnone : ¬ HasId xs (.str s)) : Only s new (xs ++ [new]) := by
  refine ⟨List.mem_append_right _ List.mem_cons_self, fun x hx hid => ?_⟩
  obtain hx | hx := List.mem_append.mp hx
  · exact absurd ⟨x, hx, hid⟩ hnone
  · exact List.mem_singleton.mp hx

theorem only_replaceOrAppend (honce : Once s xs) (h : replaceOrAppend s new xs = some ys) :
    Only s new ys := by
  induction xs generalizing ys with
  | nil =>
    cases h
    exact ⟨List.mem_cons_self, fun x hx _ => List.mem_singleton.mp hx⟩
  | cons i xs ih =>
    obtain ⟨hi, honce⟩ := List.pairwise_cons.mp honce
    rw [replaceOrAppend] at h
    obtain ⟨same, hsame, h⟩ := Option.bind_eq_some_iff.mp h
    obtain ⟨_, rfl, hid⟩ := idIs_eq_some hsame
    cases same with
    | true =>
      cases h
      refine ⟨List.mem_cons_self, fun x hx hxid => ?_⟩
      obtain rfl | hx := List.mem_cons.mp hx
      · rfl
      · exact absurd hxid (hi x hx (hid.mp rfl))
    | false =>
      obtain ⟨ys', hys, h⟩ := Option.bind_eq_some_iff.mp h
      cases h
      obtain ⟨hmem, honly⟩ := ih honce hys
      refine ⟨List.mem_cons_of_mem _ hmem, fun x hx hxid => ?_⟩
      obtain rfl | hx := List.mem_cons.mp hx
      · exact absurd (hid.mpr hxid) Bool.false_ne_true
      · exact honly x hx hxid

/-- The ids of the base are those of its instances, place by place. -/
theorem getElem?_id (hids : base.mapM idOf = some ids) {n : Nat} {t : Scalar} :
    ids[n]? = some t ↔ ∃ y, base[n]? = some y ∧ idOf y = some t := by
  have hmap : (base.map idOf)[n]? = (ids.map some)[n]? := by rw [map_of_mapM hids]
  rw [List.getElem?_map, List.getElem?_map] at hmap
  constructor
  · intro h
    rw [h] at hmap
    exact Option.map_eq_some_iff.mp hmap
  · rintro ⟨y, hy, hid⟩
    rw [hy, Option.map_some, hid] at hmap
    obtain ⟨u, hu, hut⟩ := Option.map_eq_some_iff.mp hmap.symm
    rw [hu, Option.some.inj hut]

/-- The merged instances with the id are the overlay's one. -/
theorem only_merged (hids : base.mapM idOf = some ids) (hb : Once s base)
    (ho : Only s new overlay) (hnew : idOf new = some (.str s))
    (hx : x ∈ mergedInstances ids base overlay) (hid : idOf x = some (.str s)) : x = new := by
  obtain hx | hx := List.mem_append.mp hx
  · obtain ⟨n, hn, rfl⟩ := List.mem_mapIdx.mp hx
    cases hl : lastFor ids overlay n with
    | some o =>
      rw [hl] at hid
      exact ho.2 o (standing_of_lastFor hl).1.1 hid
    | none =>
      -- the base instance has the id, so that the overlay's instance would be at its place
      rw [hl, Option.getD_none] at hid
      have hidn : ids[n]? = some (.str s) :=
        (getElem?_id hids).mpr ⟨_, List.getElem?_eq_getElem hn, hid⟩
      obtain ⟨k, hk⟩ := Option.isSome_iff_exists.mp
        (lastIndex_isSome.mpr (List.mem_of_getElem? hidn))
      obtain ⟨y, hy, hyid⟩ := (getElem?_id hids).mp (lastIndex_eq_some hk)
      have hkn : k = n := hb.eq_of_getElem? hy (List.getElem?_eq_getElem hn) hyid hid
      have hplace : placeOf ids new = some n := by
        rw [placeOf, hnew, Option.bind_some, hk, hkn]
      have hnil := List.getLast?_eq_none_iff.mp hl
      exact absurd (by simpa using hplace) (List.filter_eq_nil_iff.mp hnil new ho.1)
  · exact ho.2 x (List.mem_filter.mp hx).1 hid

variable {py : Pydantic} {b e : Option Json} {v : Json}

/-- The instances of a merged group with the id are the overlay's one. -/
theorem only_mergedAt (hm : mergedAt backendFields b e = some v) (hb : Once s (listed b))
    (he : Only s new (listed e)) (hnew : idOf new = some (.str s)) (hx : x ∈ listed (some v))
    (hid : idOf x = some (.str s)) : x = new := by
  cases e with
  | none => cases he.1
  | some entry =>
    cases b with
    | none =>
      cases hm
      exact he.2 x hx hid
    | some base =>
      obtain ⟨b, e, m, rfl, rfl, rfl, hgroup⟩ := mergeGroup_eq_some (by decide) (by decide) hm
      obtain ⟨ovs, insts, hovs, hmerge, hget⟩ := hgroup.instances
      rw [listed_of_getD, hget, Option.getD_some] at hx
      cases insts with
      | arr out =>
        obtain ⟨bs, hbs⟩ := mergeInstances_arr hmerge
        rw [hbs] at hmerge
        obtain ⟨ids, hids, -, hout⟩ := mergeInstances_eq_some.mp hmerge
        cases hout
        rw [listed_of_getD, hbs] at hb
        have hov : listed (some (.obj e)) = ovs := by
          have hmem := he.1
          rw [listed_of_getD] at hmem ⊢
          cases hi : (Dict.get e "instances").getD (.arr []) with
          | arr ys =>
            rw [hi] at hovs
            exact Option.some.inj hovs
          | _ =>
            rw [hi] at hmem
            cases hmem
        rw [hov] at he
        exact only_merged hids hb he hnew hx hid
      | _ => cases hx

/-- **The instance of the request**: a launcher that looks the id up finds it, with its port. -/
theorem find_new {d : Dict Json} {engine : LLMEngine} {inst : InstanceConfig} {n : Int}
    (hm : mergedAt backendFields b e = some v) (hv : LLMEngine.validate py v = some engine)
    (hb : Once s (listed b)) (he : Only s (.obj d) (listed e))
    (hnew : idOf (.obj d) = some (.str s)) (hport : d.get "port" = some (.int n))
    (hfind : engine.instances.find? (·.id = s) = some inst) : inst.port = n := by
  obtain ⟨g, rfl, ⟨xs, hxs, hinsts⟩, -⟩ := LLMEngine.source hv
  have hmem := List.mem_of_find?_eq_some hfind
  have hs : inst.id = s := by simpa using List.find?_some hfind
  obtain ⟨x, hx, hvalid⟩ : ∃ x ∈ xs, InstanceConfig.validate py x = some inst := by
    have hmap := map_of_mapM hinsts
    have hsome : some inst ∈ xs.map (InstanceConfig.validate py) := by
      rw [hmap]
      exact List.mem_map_of_mem hmem
    exact List.mem_map.mp hsome
  have hlisted : x ∈ listed (some (.obj g)) := by
    rw [listed_of_getD, hxs]
    exact hx
  have hxd := only_mergedAt hm hb he hnew hlisted (by rw [idOf_validated hvalid, hs])
  rw [hxd] at hvalid
  obtain ⟨_, hd, -, -, p, hp, hint⟩ := InstanceConfig.source hvalid
  cases hd
  rw [hport, Option.some.injEq] at hp
  rw [← hp, py.int_int] at hint
  exact (Option.some.inj hint).symm

end Merged

/-! ## The records -/

/-- No two records have one port. -/
def PortsApart (reg : Registry) : Prop := (reg.map fun p => p.2.port).Nodup

instance (reg : Registry) : Decidable (PortsApart reg) :=
  inferInstanceAs (Decidable (reg.map fun p => p.2.port).Nodup)

/-- Every record has the port of its launch spec. -/
def Placed (reg : Registry) : Prop := ∀ p ∈ reg, p.2.port = p.2.spec.port

instance (reg : Registry) : Decidable (Placed reg) :=
  inferInstanceAs (Decidable (∀ p ∈ reg, p.2.port = p.2.spec.port))

section Records

variable {reg : Registry} {key : String} {inst : ModelInstance} {desired : Dict LaunchSpec}

/-- Records whose ports tell their keys. -/
theorem PortsApart.of_keys (hu : reg.Unique)
    (h : ∀ p ∈ reg, ∀ q ∈ reg, p.2.port = q.2.port → p.1 = q.1) : PortsApart reg := by
  refine List.Nodup.map_on (fun p hp q hq heq => ?_) (List.Nodup.of_map _ hu)
  exact List.inj_on_of_nodup_map hu hp hq (h p hp q hq heq)

/-- A record under its key, with a port that no other record has. -/
theorem PortsApart.set (hu : reg.Unique) (h : PortsApart reg)
    (hport : ∀ p ∈ reg, p.1 ≠ key → p.2.port ≠ inst.port) : PortsApart (Dict.set reg key inst) := by
  refine .of_keys hu.set fun p hp q hq heq => ?_
  by_contra hne
  obtain hp | rfl := Dict.mem_of_mem_set hp
  · obtain hq | rfl := Dict.mem_of_mem_set hq
    · exact hne (congrArg Prod.fst (List.inj_on_of_nodup_map h hp hq heq))
    · exact hport p hp hne heq
  · obtain hq | rfl := Dict.mem_of_mem_set hq
    · exact hport q hq (Ne.symm hne) heq.symm
    · exact hne rfl

theorem PortsApart.pop (h : PortsApart reg) : PortsApart (Dict.pop reg key) :=
  h.sublist (List.filter_sublist.map _)

/-- After a resync each record has the port of its key's spec. -/
theorem port_resync (hp : Placed reg) {p : String × ModelInstance}
    (h : p ∈ (resync reg desired).1) :
    ∃ spec, desired.get p.1 = some spec ∧ p.2.port = spec.port := by
  unfold resync at h
  dsimp only at h
  obtain h | h := List.mem_append.mp h
  · obtain ⟨q, hq, rfl⟩ := List.mem_map.mp h
    obtain ⟨hq, hhas⟩ := List.mem_filter.mp hq
    obtain ⟨spec, hspec⟩ := Option.isSome_iff_exists.mp hhas
    refine ⟨spec, hspec, ?_⟩
    unfold refresh
    rw [hspec]
    dsimp only
    split_ifs with hsame
    · rw [← hsame]
      exact hp q hq
    · rfl
  · obtain ⟨k, -, hk⟩ := List.mem_filterMap.mp h
    obtain ⟨spec, hspec, rfl⟩ := Option.map_eq_some_iff.mp hk
    exact ⟨spec, hspec, rfl⟩

theorem Placed.stopBusy (hp : Placed reg) {x : Surround} {busy : List String} :
    Placed (stopBusy x busy reg) := by
  intro p h
  obtain ⟨q, hq, rfl⟩ := List.mem_map.mp h
  split_ifs
  · cases x.stopped q.1 <;> exact hp q hq
  · exact hp q hq

theorem PortsApart.stopBusy (h : PortsApart reg) {x : Surround} {busy : List String} :
    PortsApart (stopBusy x busy reg) := by
  have hsame : (Config.stopBusy x busy reg).map (fun p => p.2.port) = reg.map fun p => p.2.port := by
    unfold Config.stopBusy
    rw [List.map_map]
    refine List.map_congr_left fun p _ => ?_
    rw [Function.comp_apply]
    split_ifs
    · cases x.stopped p.1 <;> rfl
    · rfl
  unfold PortsApart
  rw [hsame]
  exact h

end Records

/-! ## The ports of a configuration -/

/-- The ports that the configuration gives to a key: that of the instance it resolves to, and for the
embedding server its own. -/
def portsAt (c : RootConfig) (key : String) : List Int :=
  ((resolve c key).toOption.map fun p => p.2.port).toList ++
    if key = embeddingKey then ((servedEmbedding c).map (·.port)).toList else []

/-- No two keys that the launchers find have one port. -/
def DistinctPorts (c : RootConfig) : Prop :=
  ∀ k ∈ definedKeys c, ∀ k' ∈ definedKeys c, ∀ n ∈ portsAt c k, n ∈ portsAt c k' → k = k'

instance (c : RootConfig) : Decidable (DistinctPorts c) :=
  inferInstanceAs (Decidable (∀ k ∈ definedKeys c, ∀ k' ∈ definedKeys c, ∀ n ∈ portsAt c k,
    n ∈ portsAt c k' → k = k'))

section Resync

variable {env : LaunchEnv} {c : RootConfig} {desired : Dict LaunchSpec} {reg : Registry}

theorem port_of_spec (h : resolveSpecs env c = .ok desired) {key : String} {spec : LaunchSpec}
    (hget : desired.get key = some spec) : key ∈ definedKeys c ∧ spec.port ∈ portsAt c key := by
  refine ⟨(mem_keys_collect h).mp (List.mem_map_of_mem (Dict.mem_of_get hget)), ?_⟩
  obtain ⟨l, spec', hl, hkey, hspec, hv⟩ := collect_spec h hget
  rw [show spec = spec' from hv, portsAt, List.mem_append]
  obtain ⟨r, rfl, -⟩ | rfl := mem_launchers hl
  · obtain ⟨engine, inst, hresolve, -, -, -, -, -, hport, -⟩ := LlmLauncher.buildSpec_eq_ok hspec
    left
    rw [hresolve, hport]
    exact List.mem_singleton_self _
  · obtain ⟨hserved, rfl⟩ := mem_embeddingKeys.mp hkey
    obtain ⟨emb, hemb⟩ := Option.isSome_iff_exists.mp hserved
    obtain ⟨spec', hspec', -, -, -, -, hport⟩ := buildEmbeddingSpec_of_served hemb
    rw [show (embeddingLauncher env).buildSpec = buildEmbeddingSpec env from rfl, hspec'] at hspec
    cases hspec
    right
    rw [if_pos rfl, hemb, hport]
    exact List.mem_singleton_self _

/-- **A resync** to a configuration with distinct ports. -/
theorem apart_resync (hu : reg.Unique) (hp : Placed reg) (h : resolveSpecs env c = .ok desired)
    (hd : DistinctPorts c) : PortsApart (resync reg desired).1 := by
  refine .of_keys (unique_resync hu (unique_collect h)) fun p hpm q hqm heq => ?_
  obtain ⟨spec, hspec, hport⟩ := port_resync hp hpm
  obtain ⟨spec', hspec', hport'⟩ := port_resync hp hqm
  obtain ⟨hkey, hmem⟩ := port_of_spec h hspec
  obtain ⟨hkey', hmem'⟩ := port_of_spec h hspec'
  refine hd _ hkey _ hkey' _ hmem ?_
  rw [← hport, heq, hport']
  exact hmem'

end Resync

/-! ## The condition -/

/-- The request gives a port, as a number. -/
def GivesPort (instance_ : Dict Json) : Prop := ∃ n, instance_.get "port" = some (.int n)

/-- An overlay that a resync is given: a parsed one, whose merge gives each key a port of its own. -/
structure Takes (w : Setup) (m : Manager) (x : Surround) (overlay : Json) : Prop where
  parsed : Parsed (some overlay)
  brings : ∀ file, x.hydrated = some file → Parsed (some file)
  placed : Placed m.registry
  distinct : ∀ c, mergedFile w (some overlay) = some c → DistinctPorts c

/-- The condition on a step. The id of the request is given once: in `config.yaml` at most once, and
in the overlay only if the request replaces it. -/
def PortGuard (w : Setup) (m : Manager) : Event → Prop
  | .call x op =>
    match op with
    | .create group instance_ _ _ => Splits group ∧ GivesPort instance_ ∧
        ∀ s, instance_.get "id" = some (.str s) →
          Once s (listed (w.baseGroup group)) ∧ ¬ HasId (fileListed m.file group) (.str s)
    | .update key instance_ _ => GivesPort instance_ ∧
        Once (partition key "::").2 (listed (w.baseGroup (partition key "::").1)) ∧
        Once (partition key "::").2 (fileListed m.file (partition key "::").1)
    | .delete _ | .setAutoscale .. | .updateEmbedding .. => True
    | .setFallback .. => ∀ file, x.hydrated = some file → Parsed (some file)
    | .importOverlay overlay _ => Takes w m x overlay
  | .sync x overlay => x.saves → Takes w m x overlay
  | .start .. | .runtime .. => True

/-! ## Each operation -/

/-- The invariant of the runs: parsed files, a dictionary of records, distinct ports. -/
structure Apart (m : Manager) : Prop where
  parsed : Parsed m.file
  unique : m.registry.Unique
  ports : PortsApart m.registry

section Operations

variable {w : Setup} {x : Surround} {m m' : Manager} {reply : Reply} {group key : String}
  {instance_ modelConfig overlay : Dict Json} {config : RootConfig}

/-- The group that an edit of the overlay makes. -/
theorem group_of_edit {f : Dict Json → Option (Dict Json)} (hf : Touches group f)
    (hparsed : Parsed m.file) (hedit : editGroups m.file f = some overlay)
    (hmerged : w.merged overlay = .ok config) :
    Parsed (some (.obj overlay)) ∧ ∃ engines engines',
      fileListed m.file group = listed (engines.get group) ∧ f engines = some engines' ∧
      config.llmEngines.get group = (mergedAt backendFields (w.baseGroup group)
        (engines'.get group)).bind (LLMEngine.validate w.py) := by
  obtain ⟨ov, engines, engines', hov, hengines, hf', rfl⟩ := editGroups_eq_some.mp hedit
  have hu : engines'.Unique := (hf _ _ hf').2 (hparsed _ _ hov hengines)
  obtain ⟨base, baseGroups, groups, hyaml, hm⟩ := buildMergedConfig_eq_some
    (fun groups hg => by
      rw [groupsOf_saved] at hg
      exact Option.some.inj hg ▸ hu) (merged_eq_ok.mp hmerged)
  have hgroups : groups = engines' := by
    have heq := hm.overlayEq
    rw [groupsOf_saved] at heq
    exact (Option.some.inj heq).symm
  refine ⟨?_, engines, engines', ?_, hf', ?_⟩
  · intro ov' groups' hov' hgroups'
    rw [load_saved] at hov'
    cases hov'
    rw [groupsOf_saved] at hgroups'
    exact Option.some.inj hgroups' ▸ hu
  · rw [fileListed, hov, Option.bind_some, hengines, Option.bind_some]
  · have hbase : w.baseGroup group = baseGroups.get group := by
      simp [Setup.baseGroup, hyaml, Json.asObj, hm.baseEq]
    rw [hbase, ← hgroups]
    exact hm.get group

theorem get_id_of_idOf {s : String} (h : idOf (.obj instance_) = some (.str s)) :
    instance_.get "id" = some (.str s) := by
  rw [idOf, Json.asObj, Option.bind_some] at h
  cases hget : instance_.get "id" with
  | none =>
    rw [hget] at h
    cases h
  | some v =>
    rw [hget] at h
    cases v with
    | str t =>
      cases h
      rfl
    | _ => cases h

theorem portTaken_false {ports : List Int} {n : Int} (hport : instance_.get "port" = some (.int n))
    (h : portTaken instance_ ports = some false) : n ∉ ports := by
  intro hn
  rw [portTaken, hport, Option.getD_some, Json.scalar, Option.map_some, Option.some.injEq,
    decide_eq_false_iff_not] at h
  exact h (List.mem_map.mpr ⟨n, hn, rfl⟩)

/-- The spec of the request's key has the request's port. -/
theorem port_of_launch {entry : Option Json} {s : String} {n : Int} {spec : LaunchSpec}
    (hkey : partition key "::" = (group, s))
    (hgroup : config.llmEngines.get group = (mergedAt backendFields (w.baseGroup group)
      entry).bind (LLMEngine.validate w.py))
    (hb : Once s (listed (w.baseGroup group))) (he : Only s (.obj instance_) (listed entry))
    (hid : idOf (.obj instance_) = some (.str s)) (hport : instance_.get "port" = some (.int n))
    (hlaunch : launch w.env config group key = .ok spec) : spec.port = n := by
  obtain ⟨declared, r, -, -, hspec⟩ := launch_eq_ok.mp hlaunch
  obtain ⟨engine, inst, hresolve, -, -, -, -, -, hspecPort, -⟩ := LlmLauncher.buildSpec_eq_ok hspec
  obtain ⟨hget, hfind⟩ := resolve_eq_ok.mp hresolve
  rw [hkey] at hget hfind
  rw [hget] at hgroup
  obtain ⟨v, hv, hval⟩ := Option.bind_eq_some_iff.mp hgroup.symm
  rw [hspecPort]
  exact find_new hv hval hb he hid hport hfind

theorem mem_usedPorts {p : String × ModelInstance} (h : p ∈ m.registry) : p.2.port ∈ m.usedPorts :=
  List.mem_map.mpr ⟨p, h, rfl⟩

theorem apart_create {autoscale : Option (Dict Json)} (hi : Apart m)
    (hguard : PortGuard w m (.call x (.create group instance_ modelConfig autoscale)))
    (h : createOverlayModel w x group instance_ modelConfig autoscale m = (m', .ok reply)) :
    Apart m' := by
  obtain ⟨hsplits, ⟨n, hport⟩, hid⟩ := hguard
  obtain ⟨key, overlay, config, spec, hplan, hlaunch, rfl⟩ := createOverlayModel_eq_ok h
  obtain ⟨hkey, hhas, hedit, hmerged⟩ := planCreate_eq_ok hplan
  have hfree : n ∉ m.usedPorts := by
    simp only [planCreate, bind_eq_ok, refuseIf_eq_ok, orRaise_eq_ok] at hplan
    obtain ⟨_, -, _, -, taken, htaken, _, rfl, -⟩ := hplan
    exact portTaken_false hport htaken
  obtain ⟨hparsed, engines, engines', hfile, hf, hgroup⟩ :=
    group_of_edit touches_appendInstance hi.parsed hedit hmerged
  obtain ⟨-, hlisted, -⟩ := appendInstance_eq_some hf
  obtain ⟨declared, hdeclared, -⟩ := launches_of_launch hlaunch
  -- the request has a string for an id: the merged group is validated
  obtain ⟨s, hs⟩ : ∃ s, idOf (.obj instance_) = some (.str s) := by
    rw [hdeclared] at hgroup
    obtain ⟨v, hv, hval⟩ := Option.bind_eq_some_iff.mp hgroup.symm
    refine idOf_listed hv hval ?_
    rw [hlisted]
    exact List.mem_append_right _ List.mem_cons_self
  have hget := get_id_of_idOf hs
  obtain ⟨honce, hnone⟩ := hid s hget
  rw [hget] at hkey
  have hsplit : partition key "::" = (group, s) := by
    rw [hkey]
    exact partition_glue.mpr hsplits
  have honly : Only s (.obj instance_) (listed (engines'.get group)) := by
    rw [hlisted, ← hfile]
    exact only_append hnone
  have hspec := port_of_launch hsplit hgroup honce honly hs hport hlaunch
  refine ⟨hparsed, hi.unique.set, hi.ports.set hi.unique fun p hp _ heq => hfree ?_⟩
  rw [← hspec, show spec.port = p.2.port from heq.symm]
  exact mem_usedPorts hp

theorem apart_update (hi : Apart m)
    (hguard : PortGuard w m (.call x (.update key instance_ modelConfig)))
    (h : updateOverlayModel w x key instance_ modelConfig m = (m', .ok reply)) : Apart m' := by
  obtain ⟨⟨n, hport⟩, honce, hfileOnce⟩ := hguard
  obtain ⟨inst, overlay, config, spec, hplan, hlaunch, rfl⟩ := updateOverlayModel_eq_ok h
  obtain ⟨hget, -, hedit, hmerged⟩ := planUpdate_eq_ok hplan
  have hport' : (instance_.set "id" (.str (partition key "::").2)).get "port" = some (.int n) := by
    rw [Dict.get_set_ne (by decide), hport]
  have hfree : n ∉ m.usedPorts.filter (· ≠ inst.port) := by
    simp only [planUpdate, Manager.require, bind_eq_ok, refuseIf_eq_ok, orRaise_eq_ok, hget,
      Option.some.injEq, exists_eq_left'] at hplan
    obtain ⟨_, -, _, -, _, -, taken, htaken, _, rfl, -⟩ := hplan
    exact portTaken_false hport' htaken
  obtain ⟨hparsed, engines, engines', hfile, hf, hgroup⟩ :=
    group_of_edit touches_replaceInstance hi.parsed hedit hmerged
  obtain ⟨entry, ys, rfl, hys, hlisted⟩ := replaceInstance_eq_some hf
  have hid : idOf (.obj (instance_.set "id" (.str (partition key "::").2))) =
      some (.str (partition key "::").2) := by
    rw [idOf, Json.asObj, Option.bind_some, Dict.get_set_self]
    rfl
  rw [← hfile] at hys
  have honly := only_replaceOrAppend hfileOnce hys
  rw [Dict.get_set_self] at hgroup
  rw [← hlisted] at honly
  have hspec := port_of_launch rfl hgroup honce honly hid hport' hlaunch
  refine ⟨hparsed, hi.unique.set, hi.ports.set hi.unique fun p hp hne heq => hfree ?_⟩
  -- the port of another record is in use, and it is not the port of this record
  have hother : p.2.port ≠ inst.port := fun hsame => hne <|
    congrArg Prod.fst (List.inj_on_of_nodup_map hi.ports hp (Dict.mem_of_get hget) hsame)
  rw [← hspec, show spec.port = p.2.port from heq.symm]
  exact List.mem_filter.mpr ⟨mem_usedPorts hp, by simpa using hother⟩

theorem apart_import {overlay : Json} {force : Bool} (hi : Apart m) (hguard : Takes w m x overlay)
    (h : importOverlay w x overlay force m = (m', .ok reply)) : Apart m' := by
  obtain ⟨ov, config, desired, hplan, rfl, -⟩ := importOverlay_eq_ok h
  obtain ⟨⟨d, rfl, rfl⟩, hconfig, hdesired, -⟩ := planImport_eq_ok hplan
  have hfile : mergedFile w (some (.obj d)) = some config := by
    rw [mergedFile]
    exact hconfig
  have hunique : (stopBusy x (busyKeys m.registry desired) m.registry).Unique := by
    unfold Dict.Unique
    rw [keys_stopBusy]
    exact hi.unique
  have hports := apart_resync hunique hguard.placed.stopBusy hdesired (hguard.distinct config hfile)
  have hresync := @unique_resync _ desired hunique (unique_collect hdesired)
  unfold Manager.reload
  cases hx : x.hydrated with
  | none => exact ⟨hguard.parsed.setDefault, hresync, hports⟩
  | some file => exact ⟨hguard.brings file hx, hresync, hports⟩

/-- A sync, also one that does not get to its end. -/
theorem apart_sync {overlay : Json} (hi : Apart m) (hguard : PortGuard w m (.sync x overlay)) :
    Apart (syncOverlay w x overlay m).1 := by
  unfold syncOverlay
  cases hsaves : x.saves with
  | false => exact hi
  | true =>
    have htakes := hguard hsaves
    simp only [Bool.not_true, Bool.false_eq_true, if_false]
    cases hmerged : (loadOverlay (some overlay)).bind (buildMergedConfig w.py w.yaml) with
    | none => exact ⟨htakes.parsed, hi.unique, hi.ports⟩
    | some config =>
      dsimp only
      cases hdesired : resolveSpecs w.env config with
      | error e => exact ⟨htakes.parsed, hi.unique, hi.ports⟩
      | ok desired =>
        have hports := apart_resync hi.unique htakes.placed hdesired (htakes.distinct config hmerged)
        have hresync := unique_resync hi.unique (unique_collect hdesired)
        dsimp only
        split
        · exact ⟨htakes.parsed, hresync, hports⟩
        · unfold Manager.reload
          cases hx : x.hydrated with
          | none => exact ⟨htakes.parsed, hresync, hports⟩
          | some file => exact ⟨htakes.brings file hx, hresync, hports⟩

/-- An edit of the embedding models leaves the groups. -/
theorem parsed_editModel {field name : String} {settings : Dict Json} (hparsed : Parsed m.file)
    (h : editModel field name settings m.file = some overlay) : Parsed (some (.obj overlay)) := by
  simp only [editModel, Option.bind_eq_bind, Option.bind_eq_some_iff, Option.pure_def,
    Option.some.injEq] at h
  obtain ⟨ov, hov, server, -, models, -, params, -, rfl⟩ := h
  have hhas : ov.has "LLM_engines" = true := by
    unfold loadOverlay at hov
    cases hfile : m.file with
    | none =>
      rw [hfile] at hov
      cases hov
      rfl
    | some v =>
      rw [hfile] at hov
      obtain ⟨d, -, rfl⟩ := Option.map_eq_some_iff.mp hov
      rw [Dict.has, Dict.get_setDefault_self]
      rfl
  intro ov' groups hov' hgroups
  have hsame (v : Json) : Dict.setDefault (ov.set "embedding_server" v) "LLM_engines" (.obj []) =
      ov.set "embedding_server" v := by
    refine if_pos ?_
    rw [Dict.has, Dict.get_set_ne (by decide)]
    exact hhas
  rw [loadOverlay, Json.asObj, Option.map_some, hsame, Option.some.injEq] at hov'
  rw [← hov', groupsOf, Dict.get_set_ne (by decide)] at hgroups
  exact hparsed ov groups hov hgroups

theorem apart_reload (hi : Apart m) (h : ∀ file, x.hydrated = some file → Parsed (some file)) :
    Apart (m.reload x) := by
  unfold Manager.reload
  cases hx : x.hydrated with
  | none => exact hi
  | some file => exact ⟨h file hx, hi.unique, hi.ports⟩

/-- **One operation.** -/
theorem apart_call {op : Op} (hi : Apart m) (hguard : PortGuard w m (.call x op))
    (h : apply w x op m = (m', .ok reply)) : Apart m' := by
  cases op with
  | create => exact apart_create hi hguard h
  | update => exact apart_update hi hguard h
  | delete key =>
    obtain ⟨overlay, config, hplan, hmerged, rfl⟩ := deleteOverlayModel_eq_ok h
    obtain ⟨-, -, hedit⟩ := planDelete_eq_ok hplan
    obtain ⟨hparsed, -⟩ := group_of_edit touches_removeInstance hi.parsed hedit hmerged
    exact ⟨hparsed, hi.unique.pop, hi.ports.pop⟩
  | setAutoscale group autoscale =>
    obtain ⟨policy, overlay, config, -, hedit, hmerged, rfl⟩ := setAutoscale_eq_ok h
    exact ⟨(group_of_edit touches_setField hi.parsed hedit hmerged).1, hi.unique, hi.ports⟩
  | setFallback group fallback =>
    obtain ⟨chain, overlay, config, -, -, hedit, hmerged, rfl⟩ := setFallback_eq_ok h
    have hparsed := (group_of_edit touches_setField hi.parsed hedit hmerged).1
    exact apart_reload ⟨hparsed, hi.unique, hi.ports⟩ hguard
  | updateEmbedding modelType name settings =>
    obtain ⟨field, _, overlay, config, -, -, -, hedit, -, rfl⟩ := updateEmbeddingModel_eq_ok h
    exact ⟨parsed_editModel hi.parsed hedit, hi.unique, hi.ports⟩
  | importOverlay => exact apart_import hi hguard h

end Operations

/-! ## Runs -/

/-- **One step.** -/
theorem apart_step {w : Setup} {m m' : Manager} {e : Event} (hi : Apart m)
    (hguard : PortGuard w m e) (h : step w m e = some m') : Apart m' := by
  cases e with
  | call x op =>
    unfold step at h
    dsimp only at h
    split at h
    next _ reply happ =>
      cases h
      exact apart_call hi hguard happ
    next => cases h
  | sync x overlay =>
    cases h
    exact apart_sync hi hguard
  | start key gpu now =>
    simp only [step, Option.bind_eq_bind, Option.bind_eq_some_iff, Option.pure_def,
      Option.some.injEq] at h
    obtain ⟨inst, hget, spec, -, inst', hstart, rfl⟩ := h
    have hport : inst'.port = inst.port := by
      rw [toOption_eq_some, startSection] at hstart
      split_ifs at hstart
      all_goals
        cases hstart
        rfl
    refine ⟨hi.parsed, hi.unique.set, hi.ports.set hi.unique fun p hp hne heq => hne ?_⟩
    rw [hport] at heq
    exact congrArg Prod.fst (List.inj_on_of_nodup_map hi.ports hp (Dict.mem_of_get hget) heq)
  | runtime x keys =>
    cases h
    refine ⟨hi.parsed, ?_, hi.ports.stopBusy⟩
    unfold Dict.Unique
    rw [keys_stopBusy]
    exact hi.unique

/-- **No two records have one port** in any state that a guarded run reaches from one where that is
so. -/
theorem apart_of_guarded {w : Setup} {m₀ m : Manager} (hparsed : Parsed m₀.file)
    (hunique : m₀.registry.Unique) (hports : PortsApart m₀.registry)
    (h : Reach (step w) (PortGuard w) m₀ m) : PortsApart m.registry :=
  (h.invariant (I := Apart) ⟨hparsed, hunique, hports⟩
    (fun ha hG he => apart_step ha hG he)).ports

/-- The backend after boot, which has one record and no overlay, and a run from there. -/
theorem exists_booted {P : Manager → Bool} {es : List Event}
    (h : (boot oneGroup none).any (fun m => m.file.isNone && decide m.registry.Unique &&
      decide (PortsApart m.registry) && (run (step oneGroup) m es).any P) = true) :
    ∃ m₀ m, boot oneGroup none = some m₀ ∧ m₀.file = none ∧ m₀.registry.Unique ∧
      PortsApart m₀.registry ∧ run (step oneGroup) m₀ es = some m ∧ P m = true := by
  obtain ⟨m₀, hboot, hall⟩ := (Option.any_eq_true _ _).mp h
  simp only [Bool.and_eq_true, Option.isNone_iff_eq_none, decide_eq_true_eq] at hall
  obtain ⟨⟨⟨hfile, hunique⟩, hports⟩, hany⟩ := hall
  obtain ⟨m, hrun, hP⟩ := (Option.any_eq_true _ _).mp hany
  exact ⟨m₀, m, hboot, hfile, hunique, hports, hrun, hP⟩

/-- A second instance of the group, on the next port, and moved to another one; then an overlay with
a second group is imported. -/
def movedAndReplaced : List Event :=
  [.call {} (.create "chat" [("id", .str "b"), ("port", .int 8002)] [] none),
    .call {} (.update "chat::b" [("port", .int 8003)] [("model_tag", .str "Qwen/Qwen3")]),
    .call {} (.importOverlay (codeOn 8004) false)]

theorem along_movedAndReplaced {m₀ : Manager} (hboot : boot oneGroup none = some m₀)
    (hfile : m₀.file = none) : Along (step oneGroup) (PortGuard oneGroup) m₀ movedAndReplaced := by
  refine ⟨⟨by decide, ⟨8002, rfl⟩, fun s hs => ?_⟩, fun m₁ h₁ => ⟨⟨⟨8003, rfl⟩, ?_, ?_⟩, fun m₂ h₂ =>
    ⟨⟨parsed_codeOn _, fun _ h => (by cases h), ?_, fun c hc => ?_⟩, fun _ _ => trivial⟩⟩⟩
  · obtain rfl : "b" = s := by simpa [Dict.get] using hs
    refine ⟨by decide +kernel, ?_⟩
    rw [hfile]
    rintro ⟨x, hx, -⟩
    cases hx
  · decide +kernel
  · have hcreated : run (step oneGroup) m₀ (movedAndReplaced.take 1) = some m₁ := by
      rw [movedAndReplaced, List.take_succ_cons, run, h₁]
      rfl
    have honce := @holds_oneGroup (fun m => decide
      (Once (partition "chat::b" "::").2 (fileListed m.file (partition "chat::b" "::").1)))
      _ _ _ hboot hcreated (by decide +kernel)
    exact of_decide_eq_true honce
  · have hmoved : run (step oneGroup) m₀ (movedAndReplaced.take 2) = some m₂ := by
      rw [movedAndReplaced, List.take_succ_cons, run, h₁, Option.bind_some, List.take_succ_cons, run,
        h₂]
      rfl
    have hplaced := @holds_oneGroup (fun m => decide (Placed m.registry)) _ _ _ hboot hmoved
      (by decide +kernel)
    exact of_decide_eq_true hplaced
  · have hdistinct : (mergedFile oneGroup (some (codeOn 8004))).all
        (fun c => decide (DistinctPorts c)) = true := by decide +kernel
    rw [hc] at hdistinct
    exact of_decide_eq_true hdistinct

theorem apart_movedAndReplaced : ∃ m₀ m, boot oneGroup none = some m₀ ∧
    run (step oneGroup) m₀ movedAndReplaced = some m ∧
      (m.registry.map fun p => (p.1, p.2.port)) = [("chat::a", 8001), ("code::b", 8004)] ∧
      PortsApart m.registry := by
  obtain ⟨m₀, m, hboot, hfile, hunique, hports, hrun, hkeys⟩ := @exists_booted
    (fun m => (m.registry.map fun p => (p.1, p.2.port)) = [("chat::a", 8001), ("code::b", 8004)])
    movedAndReplaced (by decide +kernel)
  refine ⟨m₀, m, hboot, hrun, by simpa using hkeys, ?_⟩
  exact apart_of_guarded (hfile ▸ parsed_none) hunique hports
    (Reach.of_guarded_run hrun (along_movedAndReplaced hboot hfile))

/-- An overlay with a second group, the instance of which has the port of the first. -/
def clashing : Json := codeOn 8001

/-- **Two instances on one port**: an import is not refused. -/
theorem imported_clash : ∃ m₀ m, boot oneGroup none = some m₀ ∧ m₀.registry.Unique ∧
    PortsApart m₀.registry ∧ Reach (step oneGroup) anyEvent m₀ m ∧ ¬ PortsApart m.registry := by
  obtain ⟨m₀, m, hboot, -, hunique, hports, hrun, hclash⟩ := @exists_booted
    (fun m => ¬ PortsApart m.registry) [.call {} (.importOverlay clashing false)] (by decide +kernel)
  exact ⟨m₀, m, hboot, hunique, hports, Reach.of_run hrun, by simpa using hclash⟩

end Llmops.Config
