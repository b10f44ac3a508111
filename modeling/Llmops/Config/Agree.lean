import Llmops.Lib.Run
import Llmops.Config.Atomic
import Llmops.Config.Groups

/-!
# The registry and the configuration over whole runs

The file, the typed configuration and the registry are one state held three times, and each operation
brings them in line by hand. A run is any sequence of operations that succeed, of syncs from the store,
of starts and of whatever else happens to the processes.

* `agrees_of_guarded`: along a run whose steps meet `AgreeGuard` the configuration is the merge of
  the files and the registry has the keys that the launchers find in it;
* `deleted_override`: an instance of `config.yaml` that was edited is deleted from the registry and
  stays in the configuration.

What a reload of the router brings (`Brings`) matters where the router shares the overlay file and
takes it from the database: `set_fallback` asks for a reload before its overlay is stored there.
-/

namespace Llmops.Config

open Lib Node

/-! ## Runs -/

/-- The spec that `start` resolves: by the launcher of the record's own engine. -/
def startSpec (w : Setup) (m : Manager) (key : String) : Except Raised LaunchSpec := do
  let inst ← m.require key
  let launcher ← orRaise (.keyError inst.engine) (launcherFor w.env inst.kind inst.engine)
  launcher.buildSpec m.config key

/-- A successful operation, a pass of `sync_overlay_from_store` with the overlay of the store, a start
up to its spawn, or a change of what runs. -/
inductive Event where
  | call (x : Surround) (op : Op)
  | sync (x : Surround) (overlay : Json)
  | start (key : String) (gpu : Option String) (now : Time)
  | runtime (x : Surround) (keys : List String)

def step (w : Setup) (m : Manager) : Event → Option Manager
  | .call x op =>
    match apply w x op m with
    | (m', .ok _) => some m'
    | (_, .error _) => none
  | .sync x overlay => some (syncOverlay w x overlay m).1
  | .start key gpu now => do
    let inst ← m.registry.get key
    let spec ← (startSpec w m key).toOption
    let inst ← (startSection inst (spec.autoPlace gpu) true now).toOption
    return { m with registry := m.registry.set key inst }
  | .runtime x keys => some { m with registry := stopBusy x keys m.registry }

/-- The configuration is the merge of the files, and the registry has its keys. -/
structure Agrees (w : Setup) (m : Manager) : Prop where
  file : mergedFile w m.file = some m.config
  keys : ∀ key, key ∈ m.registry.keys ↔ key ∈ definedKeys m.config

/-! ## The condition -/

/-- What the router's reload writes into the file merges to what is there. -/
def Brings (w : Setup) (x : Surround) (file : Option Json) : Prop :=
  ∀ overlay, x.hydrated = some overlay →
    Parsed (some overlay) ∧ mergedFile w (some overlay) = mergedFile w file

/-- The instance is defined in the overlay only: not in `config.yaml`, and no other group and no
embedding server has its key. If it is the last of its entry, the group that `config.yaml` may have
goes back to its own settings, and these are for an engine with a launcher. -/
structure OverlayOnly (w : Setup) (m : Manager) (key : String) : Prop where
  config : configOwns w.yaml (partition key "::").1 (partition key "::").2 = some false
  sole : ∀ group, Lists m.config group key → group = (partition key "::").1
  embedding : key ∉ embeddingKeys m.config
  base : dropInstance (partition key "::").2 (fileListed m.file (partition key "::").1) = some [] →
    ∀ engine, (w.baseGroup (partition key "::").1).bind (LLMEngine.validate w.py) = some engine →
      engine.settings.engine.launcher.isSome ∨ engine.instances = []

/-- The condition on a step. `update_embedding_model` is not one of the operations. -/
def AgreeGuard (w : Setup) (m : Manager) : Event → Prop
  | .call x op =>
    match op with
    | .create .. | .setAutoscale .. => True
    | .update key _ _ => ∀ engine, m.config.llmEngines.get (partition key "::").1 = some engine →
        engine.settings.engine.launcher.isSome ∨
          ∀ inst ∈ engine.instances, inst.id = (partition key "::").2
    | .delete key => OverlayOnly w m key
    | .setFallback group fallback => ∀ chain overlay,
        fallbackChain m.config group (fallback.getD []) = .ok chain →
        editGroups m.file (setField group "fallback" (.arr chain)) = some overlay →
          Brings w x (some (.obj overlay))
    | .importOverlay overlay _ => Parsed (some overlay) ∧ Brings w x (some overlay)
    | .updateEmbedding .. => False
  | .sync x overlay => x.saves → Parsed (some overlay) ∧ Brings w x (some overlay) ∧
      ∃ config, mergedFile w (some overlay) = some config ∧
        (config = m.config ∨ ∃ desired, resolveSpecs w.env config = .ok desired)
  | .start .. | .runtime .. => True

/-! ## The registry after a step -/

theorem keys_stopBusy (x : Surround) (busy : List String) (reg : Registry) :
    (stopBusy x busy reg).keys = reg.keys := by
  rw [Dict.keys, stopBusy, List.map_map, Dict.keys]
  refine List.map_congr_left fun p _ => ?_
  simp only [Function.comp_apply]
  split_ifs <;> rfl

theorem keys_set_of_get {reg : Registry} {key : String} {inst new : ModelInstance}
    (h : reg.get key = some inst) : (Dict.set reg key new).keys = reg.keys := by
  rw [Dict.keys_set, if_pos]
  exact Dict.has_iff.mp (by rw [Dict.has, h]; rfl)

theorem mem_sorted {keys : List String} {key : String} : key ∈ sorted keys ↔ key ∈ keys :=
  List.mem_mergeSort

/-- **A resync** leaves the keys that are desired. -/
theorem mem_keys_resync {reg : Registry} {desired : Dict LaunchSpec} {key : String} :
    key ∈ (resync reg desired).1.keys ↔ key ∈ desired.keys := by
  have hadded : key ∈ Dict.keys ((sorted (desired.keys.filter fun key => !reg.has key)).filterMap
      fun key => (desired.get key).map fun spec => (key, ModelInstance.ofSpec spec)) ↔
        key ∈ desired.keys ∧ ¬ key ∈ reg.keys := by
    simp only [Dict.keys, List.mem_map, List.mem_filterMap, mem_sorted, List.mem_filter,
      Option.map_eq_some_iff]
    constructor
    · rintro ⟨_, ⟨k, ⟨hk, hnot⟩, spec, -, rfl⟩, rfl⟩
      refine ⟨hk, fun hreg => ?_⟩
      have hhas : reg.has k = true := Dict.has_iff.mpr (List.mem_map.mpr hreg)
      simp [hhas] at hnot
    · rintro ⟨hk, hnot⟩
      have hget : ∃ spec, desired.get key = some spec :=
        Option.isSome_iff_exists.mp (Dict.has_iff.mpr (List.mem_map.mpr hk))
      obtain ⟨spec, hspec⟩ := hget
      have hhas : reg.has key = false := by
        rw [← Bool.not_eq_true]
        exact fun h => hnot (List.mem_map.mp (Dict.has_iff.mp h))
      exact ⟨_, ⟨key, ⟨hk, by simp [hhas]⟩, spec, hspec, rfl⟩, rfl⟩
  have hkept : key ∈ Dict.keys ((reg.filter fun p => desired.has p.1).map
      fun p => (p.1, refresh desired p.1 p.2)) ↔ key ∈ reg.keys ∧ key ∈ desired.keys := by
    rw [← Dict.has_iff (d := desired)]
    simp only [Dict.keys, List.map_map, List.mem_map, List.mem_filter, Function.comp_apply]
    constructor
    · rintro ⟨p, ⟨hp, hhas⟩, rfl⟩
      exact ⟨⟨p, hp, rfl⟩, hhas⟩
    · rintro ⟨⟨p, hp, rfl⟩, hhas⟩
      exact ⟨p, ⟨hp, hhas⟩, rfl⟩
  rw [resync, Dict.keys, List.map_append, List.mem_append, ← Dict.keys, ← Dict.keys, hadded, hkept]
  tauto

/-! ## What a successful operation has done -/

section Inversion

variable {w : Setup} {x : Surround} {m m' : Manager} {reply : Reply} {group key : String}
  {instance_ modelConfig : Dict Json}

theorem createOverlayModel_eq_ok {autoscale : Option (Dict Json)}
    (h : createOverlayModel w x group instance_ modelConfig autoscale m = (m', .ok reply)) :
    ∃ key overlay config spec,
      planCreate w m group instance_ modelConfig autoscale = .ok (key, overlay, config) ∧
      launch w.env config group key = .ok spec ∧
      m' = { m.commit overlay config with registry := m.registry.set key (.ofSpec spec) } := by
  unfold createOverlayModel at h
  split at h
  next => cases h
  next key overlay config hplan =>
    split_ifs at h
    · cases h
    · dsimp only at h
      split at h
      next => cases h
      next spec hspec =>
        cases h
        exact ⟨key, overlay, config, spec, hplan, hspec, rfl⟩

theorem updateOverlayModel_eq_ok
    (h : updateOverlayModel w x key instance_ modelConfig m = (m', .ok reply)) :
    ∃ inst overlay config spec,
      planUpdate w m key instance_ modelConfig = .ok (inst, overlay, config) ∧
      launch w.env config (partition key "::").1 key = .ok spec ∧
      m' = { m.commit overlay config with
        registry := m.registry.set key (Registry.respec inst spec) } := by
  unfold updateOverlayModel at h
  split at h
  next => cases h
  next inst overlay config hplan =>
    split_ifs at h
    · cases h
    · dsimp only at h
      split at h
      next => cases h
      next spec hspec =>
        cases h
        exact ⟨inst, overlay, config, spec, hplan, hspec, rfl⟩

theorem deleteOverlayModel_eq_ok (h : deleteOverlayModel w x key m = (m', .ok reply)) :
    ∃ overlay config, planDelete m key = .ok overlay ∧ w.merged overlay = .ok config ∧
      m' = { m.commit overlay config with registry := m.registry.pop key } := by
  unfold deleteOverlayModel at h
  split at h
  next => cases h
  next overlay hplan =>
    split_ifs at h
    · cases h
    · split at h
      next => cases h
      next config hconfig =>
        cases h
        exact ⟨overlay, config, hplan, hconfig, rfl⟩

theorem setAutoscale_eq_ok {autoscale : Option (Dict Json)}
    (h : setAutoscale w x group autoscale m = (m', .ok reply)) :
    ∃ policy overlay config, m.config.llmEngines.has group = true ∧
      editGroups m.file (setField group "autoscale" (.obj policy)) = some overlay ∧
      w.merged overlay = .ok config ∧ m' = m.commit overlay config := by
  unfold setAutoscale at h
  dsimp only at h
  split at h
  next => cases h
  next overlay config hplan =>
    split_ifs at h
    · cases h
    · cases h
      simp only [bind_eq_ok, raiseIf_eq_ok, orRaise_eq_ok, pure, Except.pure, Except.ok.injEq,
        Prod.mk.injEq] at hplan
      obtain ⟨_, hhas, ov, hov, c, hc, rfl, rfl⟩ := hplan
      exact ⟨_, ov, c, by simpa using hhas, hov, hc, rfl⟩

theorem setFallback_eq_ok {fallback : Option (List Json)}
    (h : setFallback w x group fallback m = (m', .ok reply)) :
    ∃ chain overlay config, m.config.llmEngines.has group = true ∧
      fallbackChain m.config group (fallback.getD []) = .ok chain ∧
      editGroups m.file (setField group "fallback" (.arr chain)) = some overlay ∧
      w.merged overlay = .ok config ∧ m' = (m.commit overlay config).reload x := by
  unfold setFallback at h
  dsimp only at h
  split at h
  next => cases h
  next overlay config hplan =>
    split_ifs at h
    · cases h
    · cases h
      simp only [bind_eq_ok, raiseIf_eq_ok, orRaise_eq_ok, pure, Except.pure, Except.ok.injEq,
        Prod.mk.injEq] at hplan
      obtain ⟨_, hhas, chain, hchain, ov, hov, c, hc, rfl, rfl⟩ := hplan
      exact ⟨chain, ov, c, by simpa using hhas, hchain, hov, hc, rfl⟩

theorem planImport_eq_ok {overlay : Json} {force : Bool} {ov : Dict Json} {config : RootConfig}
    {desired : Dict LaunchSpec}
    (h : planImport w m overlay force = .ok (ov, config, desired)) :
    (∃ d : Dict Json, overlay = .obj d ∧ ov = d.setDefault "LLM_engines" (.obj [])) ∧
      buildMergedConfig w.py w.yaml ov = some config ∧ resolveSpecs w.env config = .ok desired ∧
      (force = true ∨ busyKeys m.registry desired = []) := by
  simp only [planImport, bind_eq_ok, orRaise_eq_ok, refuseIf_eq_ok, pure, Except.pure,
    Except.ok.injEq, Prod.mk.injEq, Json.asObj_eq_some] at h
  obtain ⟨d, rfl, c, hc, s, hs, _, hbusy, rfl, rfl, rfl⟩ := h
  refine ⟨⟨d, rfl, rfl⟩, hc, hs, ?_⟩
  cases force with
  | true => exact .inl rfl
  | false =>
    have hempty : sorted (busyKeys m.registry s) = [] := by simpa using hbusy
    have hperm := List.mergeSort_perm (busyKeys m.registry s) (· ≤ ·)
    rw [show (busyKeys m.registry s).mergeSort (· ≤ ·) = [] from hempty] at hperm
    exact .inr hperm.nil_eq.symm

theorem importOverlay_eq_ok {overlay : Json} {force : Bool}
    (h : importOverlay w x overlay force m = (m', .ok reply)) :
    ∃ ov config desired, planImport w m overlay force = .ok (ov, config, desired) ∧
      m' = ({ m.commit ov config with registry :=
        (resync (stopBusy x (busyKeys m.registry desired) m.registry) desired).1 }).reload x ∧
      reply = (resync (stopBusy x (busyKeys m.registry desired) m.registry) desired).2 := by
  unfold importOverlay at h
  split at h
  next => cases h
  next ov config desired hplan =>
    dsimp only at h
    split_ifs at h
    · cases h
    · cases h
      exact ⟨ov, config, desired, hplan, rfl, rfl⟩

end Inversion

/-! ## Each operation -/

/-- The invariant of the runs. -/
structure Kept (w : Setup) (m : Manager) : Prop where
  parsed : Parsed m.file
  agrees : Agrees w m

section Operations

variable {w : Setup} {x : Surround} {m m' : Manager} {reply : Reply} {group key : String}
  {instance_ modelConfig : Dict Json} {config : RootConfig} {spec : LaunchSpec}

theorem Kept.of {file : Option Json} {registry : Registry} (hparsed : Parsed file)
    (hfile : mergedFile w file = some config)
    (hkeys : ∀ key, key ∈ registry.keys ↔ key ∈ definedKeys config) :
    Kept w { file, config, registry } :=
  ⟨hparsed, hfile, hkeys⟩

theorem launches_of_launch (h : launch w.env config group key = .ok spec) :
    Launches config group := by
  obtain ⟨declared, r, hget, hr, -⟩ := launch_eq_ok.mp h
  exact ⟨declared, hget, by rw [hr]; rfl⟩

/-- A group of the configuration before an edit that keeps its settings has the same engine. -/
theorem EditOf.launches_iff {entry entry' : Option Json} {c c' : RootConfig}
    (h : EditOf w group entry entry' c c') {engine engine' : LLMEngine}
    (hget : c.llmEngines.get group = some engine) (hget' : c'.llmEngines.get group = some engine')
    (hmodel : fieldOf entry' "model_config" = fieldOf entry "model_config")
    (hsettings : fieldOf entry' "settings" = fieldOf entry "settings") :
    Launches c' group ↔ Launches c group := by
  have heq := h.settings_eq hget hget' hmodel hsettings
  simp only [Launches, hget, hget', Option.some.injEq, exists_eq_left', heq]

/-- The id of a new instance is a string, and its key is glued of it. -/
theorem EditOf.created {entry entry' : Option Json} {xs : List Json} {c c' : RootConfig}
    (h : EditOf w group entry entry' c c') (hlaunches : Launches c' group)
    (hlisted : listed entry' = xs ++ [.obj instance_]) :
    ∃ s, idOf (.obj instance_) = some (.str s) ∧
      glue group (w.env.str ((instance_.get "id").getD .null)) = glue group s := by
  obtain ⟨engine, hengine, -⟩ := hlaunches
  rw [h.after] at hengine
  obtain ⟨v, hv, hval⟩ := Option.bind_eq_some_iff.mp hengine
  have hmem : Json.obj instance_ ∈ listed entry' := by
    rw [hlisted]
    exact List.mem_append_right _ List.mem_cons_self
  obtain ⟨s, hid⟩ := idOf_listed hv hval hmem
  refine ⟨s, hid, ?_⟩
  rw [idOf, Json.asObj, Option.bind_some] at hid
  cases hget : instance_.get "id" with
  | none =>
    rw [hget] at hid
    cases hid
  | some v =>
    rw [hget] at hid
    cases v with
    | str t =>
      cases hid
      rfl
    | _ => cases hid

theorem kept_create {autoscale : Option (Dict Json)} (hk : Kept w m)
    (h : createOverlayModel w x group instance_ modelConfig autoscale m = (m', .ok reply)) :
    Kept w m' := by
  obtain ⟨key, overlay, config, spec, hplan, hlaunch, rfl⟩ := createOverlayModel_eq_ok h
  obtain ⟨hkey, -, hedit, hmerged⟩ := planCreate_eq_ok hplan
  obtain ⟨hparsed, hfile, engines, engines', -, hf, hof⟩ :=
    editOf touches_appendInstance hk.parsed hk.agrees.file hedit hmerged
  obtain ⟨-, hlisted, hsame, -⟩ := appendInstance_eq_some hf
  refine @Kept.of w config _ _ hparsed hfile fun k => ?_
  have hlaunches := launches_of_launch hlaunch
  obtain ⟨s, hid, hglue⟩ := hof.created hlaunches hlisted
  rw [← hkey] at hglue
  have hafter : Lists config group k ↔ ∃ t, (HasId (listed (w.baseGroup group)) (.str t) ∨
      HasId (listed (engines.get group)) (.str t) ∨ t = s) ∧ glue group t = k := by
    rw [lists_iff hof.after, hlisted]
    simp only [hlaunches, true_and, hasId_append, hasId_singleton, hid, Option.some.injEq,
      Scalar.str.injEq, eq_comm]
  have hbefore : Lists m.config group k ↔ ∃ t, (HasId (listed (w.baseGroup group)) (.str t) ∨
      HasId (listed (engines.get group)) (.str t)) ∧ glue group t = k := by
    rw [lists_iff hof.before]
    cases hget : m.config.llmEngines.get group with
    | none =>
      obtain ⟨hb, he⟩ := hof.absent hget
      simp [hb, he, listed, HasId, Launches, hget]
    | some engine =>
      obtain ⟨engine', hget', -⟩ := id hlaunches
      have hdeclared : (m.config.llmEngines.has group || engines.has group) = true := by
        rw [Dict.has, hget]
        rfl
      rw [hof.launches_iff hget hget' (hsame hdeclared _ (by decide) (by decide))
        (hsame hdeclared _ (by decide) (by decide))] at hlaunches
      simp only [hlaunches, true_and]
  rw [Dict.mem_keys_set, hk.agrees.keys, hof.mem_definedKeys, EditOf.mem_definedKeys_before, hafter,
    hbefore, hglue]
  constructor
  · rintro (rfl | h | ⟨t, ht, rfl⟩ | h)
    · exact .inr (.inl ⟨s, .inr (.inr rfl), rfl⟩)
    · exact .inl h
    · exact .inr (.inl ⟨t, ht.imp_right .inl, rfl⟩)
    · exact .inr (.inr h)
  · rintro (h | ⟨t, hb | he | rfl, rfl⟩ | h)
    · exact .inr (.inl h)
    · exact .inr (.inr (.inl ⟨t, .inl hb, rfl⟩))
    · exact .inr (.inr (.inl ⟨t, .inr he, rfl⟩))
    · exact .inl rfl
    · exact .inr (.inr (.inr h))

theorem glue_of_defined {c : RootConfig} (h : key ∈ definedKeys c) :
    glue (partition key "::").1 (partition key "::").2 = key := by
  obtain ⟨g, engine, inst, -, -, -, rfl⟩ | h := mem_definedKeys.mp h
  · exact glue_partition _ _
  · obtain ⟨-, rfl⟩ := mem_embeddingKeys.mp h
    decide

/-- An update writes the id that the key names into the instance. -/
theorem kept_update (hk : Kept w m)
    (hguard : AgreeGuard w m (.call x (.update key instance_ modelConfig)))
    (h : updateOverlayModel w x key instance_ modelConfig m = (m', .ok reply)) : Kept w m' := by
  obtain ⟨inst, overlay, config, spec, hplan, hlaunch, rfl⟩ := updateOverlayModel_eq_ok h
  obtain ⟨hget, -, hedit, hmerged⟩ := planUpdate_eq_ok hplan
  obtain ⟨hparsed, hfile, engines, engines', -, hf, hof⟩ :=
    editOf touches_replaceInstance hk.parsed hk.agrees.file hedit hmerged
  obtain ⟨entry, ys, rfl, hys, hlisted⟩ := replaceInstance_eq_some hf
  have hkey : key ∈ definedKeys m.config := by
    rw [← hk.agrees.keys, ← Dict.has_iff, Dict.has, hget]
    rfl
  refine @Kept.of w config _ _ hparsed hfile fun k => ?_
  rw [keys_set_of_get hget, hk.agrees.keys, hof.mem_definedKeys, EditOf.mem_definedKeys_before]
  have hnew : idOf (.obj (instance_.set "id" (.str (partition key "::").2))) =
      some (.str (partition key "::").2) := by
    rw [idOf, Json.asObj, Option.bind_some, Dict.get_set_self]
    rfl
  have hids (s : String) := replaceOrAppend_eq_some hnew hys (.str s)
  have hafter : Lists config (partition key "::").1 k ↔
      ∃ s, (HasId (listed (w.baseGroup (partition key "::").1)) (.str s) ∨
        HasId (listed (engines.get (partition key "::").1)) (.str s) ∨
          s = (partition key "::").2) ∧ glue (partition key "::").1 s = k := by
    rw [lists_iff hof.after, Dict.get_set_self, hlisted]
    simp only [launches_of_launch hlaunch, true_and, hids, Scalar.str.injEq]
  have hbefore := @lists_iff _ _ _ k _ _ hof.before
  constructor
  · rintro (hother | hlists | hemb)
    · exact .inl hother
    · obtain ⟨-, s, hs, rfl⟩ := hbefore.mp hlists
      exact .inr (.inl (hafter.mpr ⟨s, hs.imp_right .inl, rfl⟩))
    · exact .inr (.inr hemb)
  · rintro (hother | hlists | hemb)
    · exact .inl hother
    · obtain ⟨s, hs, rfl⟩ := hafter.mp hlists
      by_cases hi : s = (partition key "::").2
      · rw [hi, glue_of_defined hkey]
        exact EditOf.mem_definedKeys_before.mp hkey
      · -- another instance of the group: it is defined before, or the guard leaves no such
        have hold : HasId (listed (w.baseGroup (partition key "::").1)) (.str s) ∨
            HasId (listed (engines.get (partition key "::").1)) (.str s) := by
          rw [← or_assoc] at hs
          exact hs.resolve_right hi
        cases hengine : m.config.llmEngines.get (partition key "::").1 with
        | none =>
          obtain ⟨hb, he⟩ := hof.absent hengine
          rw [hb, he] at hold
          simp [listed, HasId] at hold
        | some engine =>
          obtain hlaunch | hall := hguard engine hengine
          · exact .inr (.inl (hbefore.mpr ⟨⟨engine, hengine, hlaunch⟩, s, hold, rfl⟩))
          · obtain ⟨inst, hinst, rfl⟩ := (mem_ids hof.before hengine).mpr hold
            exact absurd (hall inst hinst) hi
    · exact .inr (.inr hemb)

/-- Where the group has no launcher afterwards, it has gone back to a base group without instances. -/
theorem gone_of_unlaunched {group : String} {engines engines' e : Dict Json} {ys : List Json}
    {c c' : RootConfig} (hof : EditOf w group (engines.get group) (engines'.get group) c c')
    (he : engines.get group = some (.obj e))
    (hengines' : engines' = if ys.isEmpty then engines.pop group
      else engines.set group (.obj (e.set "instances" (.arr ys))))
    (hlaunches : Launches c group)
    (hbase : ys = [] → ∀ engine, (w.baseGroup group).bind (LLMEngine.validate w.py) = some engine →
      engine.settings.engine.launcher.isSome ∨ engine.instances = [])
    (hno : ¬ Launches c' group) :
    ys = [] ∧ ∀ s, ¬ HasId (listed (w.baseGroup group)) (.str s) := by
  by_cases hnil : ys = []
  · refine ⟨hnil, fun s => ?_⟩
    have hentry : engines'.get group = none := by
      rw [hengines', hnil, List.isEmpty_nil, if_pos rfl, Dict.get_pop_self]
    cases hb : w.baseGroup group with
    | none => simp [listed, HasId]
    | some base =>
      have hafter := hof.after
      rw [hentry, hb, show mergedAt backendFields (some base) none = some base from rfl] at hafter
      cases hget' : c'.llmEngines.get group with
      | none =>
        rw [(hof.present hget').1] at hb
        cases hb
      | some engine =>
        obtain hlaunch | hempty := hbase hnil engine (by rw [hb, ← hget', hafter])
        · exact absurd ⟨engine, hget', hlaunch⟩ hno
        · intro hid
          rw [← hb] at hid
          obtain ⟨i, hmem, -⟩ := (mem_ids hof.after hget').mpr (.inl hid)
          rw [hempty] at hmem
          cases hmem
  · have hentry : engines'.get group = some (.obj (Dict.set e "instances" (.arr ys))) := by
      rw [hengines', if_neg (by simpa using hnil), Dict.get_set_self]
    refine absurd ?_ hno
    obtain ⟨engine, hengine, -⟩ := id hlaunches
    cases hget' : c'.llmEngines.get group with
    | none =>
      rw [(hof.present hget').2] at hentry
      cases hentry
    | some engine' =>
      refine (hof.launches_iff hengine hget' ?_ ?_).mpr hlaunches
      · rw [hentry, he, fieldOf_obj, fieldOf_obj, Dict.get_set_ne (by decide)]
      · rw [hentry, he, fieldOf_obj, fieldOf_obj, Dict.get_set_ne (by decide)]

/-- A deletion takes the instance out of the overlay. -/
theorem kept_delete (hk : Kept w m) (hguard : OverlayOnly w m key)
    (h : deleteOverlayModel w x key m = (m', .ok reply)) : Kept w m' := by
  obtain ⟨overlay, config, hplan, hmerged, rfl⟩ := deleteOverlayModel_eq_ok h
  obtain ⟨⟨inst, hget⟩, ⟨ov, hov, howned⟩, hedit⟩ := planDelete_eq_ok hplan
  obtain ⟨hparsed, hfile, engines, engines', hengines, hf, hof⟩ :=
    editOf touches_removeInstance hk.parsed hk.agrees.file hedit hmerged
  obtain ⟨engines₀, hengines₀, howned⟩ := Option.bind_eq_some_iff.mp howned
  have hsame : engines₀ = engines := by
    rw [hov, Option.bind_some, hengines₀] at hengines
    exact Option.some.inj hengines
  rw [hsame] at howned
  obtain ⟨e, xs, he, hi, -⟩ := listed_of_owned howned
  obtain ⟨ys, hys, hengines'⟩ := removeInstance_eq_some he hi hf
  have hxs : listed (engines.get (partition key "::").1) = xs := by
    rw [he, listed_obj, hi]
    rfl
  obtain ⟨hids, -, -⟩ := dropInstance_eq_some hys
  have hbase := not_hasId_of_configOwns hguard.config
  have hkey : Lists m.config (partition key "::").1 key := by
    have hdefined : key ∈ definedKeys m.config := by
      rw [← hk.agrees.keys, ← Dict.has_iff, Dict.has, hget]
      rfl
    obtain ⟨g, hg⟩ | hemb := mem_definedKeys.mp hdefined
    · exact hguard.sole g hg ▸ hg
    · exact absurd hemb hguard.embedding
  have hglue : glue (partition key "::").1 (partition key "::").2 = key :=
    glue_of_defined (mem_definedKeys.mpr (.inl ⟨_, hkey⟩))
  have hbefore (k : String) := @lists_iff _ _ _ k _ _ hof.before
  rw [hxs] at hbefore
  have hlaunches : Launches m.config (partition key "::").1 := ((hbefore key).mp hkey).1
  have hlisted : listed (engines'.get (partition key "::").1) = ys := by
    rw [hengines']
    split_ifs with hnil
    · rw [Dict.get_pop_self, List.isEmpty_iff.mp hnil]
      rfl
    · rw [Dict.get_set_self, listed_obj, Dict.get_set_self]
      rfl
  have hgone : ¬ Launches config (partition key "::").1 →
      ys = [] ∧ ∀ s, ¬ HasId (listed (w.baseGroup (partition key "::").1)) (.str s) := by
    refine gone_of_unlaunched hof he hengines' hlaunches fun hnil => hguard.base ?_
    rw [fileListed, hengines, Option.bind_some, hxs, hys, hnil]
  have hgroup (k : String) : Lists config (partition key "::").1 k ↔
      Lists m.config (partition key "::").1 k ∧ k ≠ key := by
    rw [lists_iff hof.after, hbefore, hlisted]
    simp only [hlaunches, true_and, hids, ne_eq, Scalar.str.injEq]
    constructor
    · rintro ⟨-, s, hb | ⟨hx, hne⟩, rfl⟩
      · refine ⟨⟨s, .inl hb, rfl⟩, fun heq => hbase ?_⟩
        rwa [← glue_right_injective (heq.trans hglue.symm)]
      · exact ⟨⟨s, .inr hx, rfl⟩, fun heq => hne (glue_right_injective (heq.trans hglue.symm))⟩
    · rintro ⟨⟨s, hs, rfl⟩, hne⟩
      have hne : s ≠ (partition key "::").2 := fun h => hne (by rw [h, hglue])
      refine ⟨?_, s, hs.imp_right fun hx => ⟨hx, hne⟩, rfl⟩
      by_contra hno
      obtain ⟨rfl, hnone⟩ := hgone hno
      obtain hb | hx := hs
      · exact hnone s hb
      · have hys : HasId [] (.str s) := (hids (.str s)).mpr ⟨hx, fun h => hne (Scalar.str.inj h)⟩
        simp [HasId] at hys
  refine @Kept.of w config _ _ hparsed hfile fun k => ?_
  rw [Dict.mem_keys_pop, hk.agrees.keys, hof.mem_definedKeys, EditOf.mem_definedKeys_before, hgroup]
  constructor
  · rintro ⟨hother | hlists | hemb, hne⟩
    · exact .inl hother
    · exact .inr (.inl ⟨hlists, hne⟩)
    · exact .inr (.inr hemb)
  · rintro (⟨g, hg, hlists⟩ | ⟨hlists, hne⟩ | hemb)
    · exact ⟨.inl ⟨g, hg, hlists⟩, fun h => hg (hguard.sole g (h ▸ hlists))⟩
    · exact ⟨.inr (.inl hlists), hne⟩
    · exact ⟨.inr (.inr hemb), fun h => hguard.embedding (h ▸ hemb)⟩

/-- An edit of a group that is there and keeps its settings and its instances. -/
theorem kept_field {key : String} {value : Json} {overlay : Dict Json} (hk : Kept w m)
    (hhas : m.config.llmEngines.has group = true) (hinstances : key ≠ "instances")
    (hmodel : key ≠ "model_config") (hsettings : key ≠ "settings")
    (hedit : editGroups m.file (setField group key value) = some overlay)
    (hmerged : w.merged overlay = .ok config) : Kept w (m.commit overlay config) := by
  obtain ⟨hparsed, hfile, engines, engines', -, hf, hof⟩ :=
    editOf touches_setField hk.parsed hk.agrees.file hedit hmerged
  refine @Kept.of w config _ _ hparsed hfile fun k => ?_
  rw [hk.agrees.keys, hof.mem_definedKeys, EditOf.mem_definedKeys_before, lists_iff hof.after,
    lists_iff hof.before, listed_setField hf hinstances]
  obtain ⟨engine, hget⟩ := Option.isSome_iff_exists.mp hhas
  cases hget' : config.llmEngines.get group with
  | none =>
    obtain ⟨entry, rfl, -⟩ := setField_eq_some hf
    have hentry := (hof.present hget').2
    rw [Dict.get_set_self] at hentry
    cases hentry
  | some engine' =>
    rw [hof.launches_iff hget hget' (fieldOf_setField hf hmodel.symm)
      (fieldOf_setField hf hsettings.symm)]

/-- A reload that brings what is there. -/
theorem kept_reload (hk : Kept w m) (hb : Brings w x m.file) : Kept w (m.reload x) := by
  unfold Manager.reload
  cases hx : x.hydrated with
  | none => exact hk
  | some overlay =>
    obtain ⟨hparsed, hsame⟩ := hb overlay hx
    exact ⟨hparsed, by rw [hsame]; exact hk.agrees.file, hk.agrees.keys⟩

theorem loadOverlay_setDefault (d : Dict Json) :
    loadOverlay (some (.obj (d.setDefault "LLM_engines" (.obj [])))) =
      loadOverlay (some (.obj d)) := by
  simp only [loadOverlay, Json.asObj, Option.map_some]
  have hhas : Dict.has (d.setDefault "LLM_engines" (.obj [])) "LLM_engines" = true := by
    rw [Dict.has, Dict.get_setDefault_self]
    rfl
  rw [show Dict.setDefault (d.setDefault "LLM_engines" (.obj [])) "LLM_engines" (.obj []) =
    d.setDefault "LLM_engines" (.obj []) from if_pos hhas]

/-- The registry after a resync has the keys of the configuration whose specs it is given. -/
theorem mem_keys_resync_specs {reg : Registry} {desired : Dict LaunchSpec}
    (h : resolveSpecs w.env config = .ok desired) (key : String) :
    key ∈ (resync reg desired).1.keys ↔ key ∈ definedKeys config := by
  rw [mem_keys_resync, mem_keys_collect h]

/-- What an import writes reads as what it was given. -/
theorem mergedFile_setDefault (d : Dict Json) :
    mergedFile w (some (.obj (d.setDefault "LLM_engines" (.obj [])))) =
      mergedFile w (some (.obj d)) := by
  rw [mergedFile, loadOverlay_setDefault, mergedFile]

theorem Parsed.setDefault {d : Dict Json} (h : Parsed (some (.obj d))) :
    Parsed (some (.obj (d.setDefault "LLM_engines" (.obj [])))) := by
  unfold Parsed
  rw [loadOverlay_setDefault]
  exact h

theorem Brings.setDefault {d : Dict Json} (h : Brings w x (some (.obj d))) :
    Brings w x (some (.obj (d.setDefault "LLM_engines" (.obj [])))) := by
  unfold Brings
  rw [mergedFile_setDefault]
  exact h

theorem kept_import {overlay : Json} {force : Bool} (hparsed : Parsed (some overlay))
    (hb : Brings w x (some overlay)) (h : importOverlay w x overlay force m = (m', .ok reply)) :
    Kept w m' := by
  obtain ⟨ov, config, desired, hplan, rfl, -⟩ := importOverlay_eq_ok h
  obtain ⟨⟨d, rfl, rfl⟩, hconfig, hdesired, -⟩ := planImport_eq_ok hplan
  have hfile : mergedFile w (some (.obj d)) = some config := by
    rw [mergedFile]
    exact hconfig
  exact kept_reload (@Kept.of w config _ _ hparsed.setDefault
    ((mergedFile_setDefault d).trans hfile) (mem_keys_resync_specs hdesired)) hb.setDefault

/-- A sync, also one that does not get to its end. -/
theorem kept_sync {overlay : Json} (hk : Kept w m)
    (hguard : AgreeGuard w m (.sync x overlay)) : Kept w (syncOverlay w x overlay m).1 := by
  unfold syncOverlay
  cases hsaves : x.saves with
  | false => exact hk
  | true =>
    obtain ⟨hparsed, hb, config, hconfig, hresolves⟩ := hguard hsaves
    have hmerged : (loadOverlay (some overlay)).bind (buildMergedConfig w.py w.yaml) = some config :=
      hconfig
    simp only [Bool.not_true, Bool.false_eq_true, if_false, hmerged]
    cases hdesired : resolveSpecs w.env config with
    | error e =>
      obtain rfl | ⟨desired, hok⟩ := hresolves
      · exact ⟨hparsed, hconfig, hk.agrees.keys⟩
      · rw [hdesired] at hok
        cases hok
    | ok desired =>
      have hkept : Kept w
          { file := some overlay, config := config, registry := (resync m.registry desired).1 } :=
        @Kept.of w config _ _ hparsed hconfig (mem_keys_resync_specs hdesired)
      dsimp only
      split
      · exact hkept
      · exact kept_reload hkept hb

end Operations

/-! ## Runs -/

/-- **One step.** -/
theorem kept_step {w : Setup} {m m' : Manager} {e : Event} (hk : Kept w m)
    (hguard : AgreeGuard w m e) (h : step w m e = some m') : Kept w m' := by
  cases e with
  | call x op =>
    unfold step at h
    dsimp only at h
    split at h
    next _ reply happ =>
      cases h
      cases op with
      | create => exact kept_create hk happ
      | update => exact kept_update hk hguard happ
      | delete => exact kept_delete hk hguard happ
      | setAutoscale group autoscale =>
        obtain ⟨policy, overlay, config, hhas, hedit, hmerged, rfl⟩ := setAutoscale_eq_ok happ
        exact kept_field hk hhas (by decide) (by decide) (by decide) hedit hmerged
      | setFallback group fallback =>
        obtain ⟨chain, overlay, config, hhas, hchain, hedit, hmerged, rfl⟩ := setFallback_eq_ok happ
        have hkept := kept_field hk hhas (by decide) (by decide) (by decide) hedit hmerged
        exact kept_reload hkept (hguard chain overlay hchain hedit)
      | updateEmbedding => exact hguard.elim
      | importOverlay => exact kept_import hguard.1 hguard.2 happ
    next => cases h
  | sync x overlay =>
    cases h
    exact kept_sync hk hguard
  | start key gpu now =>
    simp only [step, Option.bind_eq_bind, Option.bind_eq_some_iff, Option.pure_def,
      Option.some.injEq] at h
    obtain ⟨inst, hget, spec, -, inst', -, rfl⟩ := h
    refine ⟨hk.parsed, hk.agrees.file, fun k => ?_⟩
    rw [← hk.agrees.keys, keys_set_of_get hget]
  | runtime x keys =>
    cases h
    refine ⟨hk.parsed, hk.agrees.file, fun k => ?_⟩
    rw [← hk.agrees.keys, keys_stopBusy]

theorem kept_boot {w : Setup} {file : Option Json} {m : Manager} (hparsed : Parsed file)
    (h : boot w file = some m) : Kept w m := by
  simp only [boot, Option.bind_eq_bind, Option.bind_eq_some_iff, Option.pure_def,
    Option.some.injEq] at h
  obtain ⟨overlay, hov, config, hconfig, registry, hreg, rfl⟩ := h
  refine ⟨hparsed, ?_, fun k => ?_⟩
  · rw [mergedFile, hov]
    exact hconfig
  · cases hbuild : buildRegistry w.env config with
    | error e =>
      rw [hbuild] at hreg
      cases hreg
    | ok reg =>
      rw [hbuild] at hreg
      cases hreg
      exact mem_keys_collect hbuild

theorem parsed_none : Parsed none := by
  intro overlay groups hov hgroups
  cases hov
  cases hgroups
  exact List.nodup_nil

/-- The backend on `oneGroupYaml`, without an overlay. -/
def oneGroup : Setup := { py := .strict, yaml := some oneGroupYaml }

/-- A run from the boot of `oneGroup`, evaluated. -/
theorem exists_oneGroup {P : Manager → Bool} {es : List Event}
    (h : ((boot oneGroup none).bind fun m => run (step oneGroup) m es).any P = true) :
    ∃ m₀ m, boot oneGroup none = some m₀ ∧ run (step oneGroup) m₀ es = some m ∧ P m = true := by
  obtain ⟨m, hm, hP⟩ := (Option.any_eq_true _ _).mp h
  obtain ⟨m₀, hboot, hrun⟩ := Option.bind_eq_some_iff.mp hm
  exact ⟨m₀, m, hboot, hrun, hP⟩

/-- What holds after a run from the boot of `oneGroup`, evaluated. -/
theorem holds_oneGroup {P : Manager → Bool} {es : List Event} {m₀ m : Manager}
    (hboot : boot oneGroup none = some m₀) (hrun : run (step oneGroup) m₀ es = some m)
    (h : ((boot oneGroup none).bind fun m => run (step oneGroup) m es).any P = true) :
    P m = true := by
  rw [hboot, Option.bind_some, hrun] at h
  exact h

/-- A second instance of the group, then a policy for it. -/
def grown : List Event :=
  [.call {} (.create "chat" [("id", .str "b"), ("port", .int 8002)] [] none),
    .call {} (.setAutoscale "chat" (some [("enabled", .bool true)]))]

/-- An overlay with a second group. -/
def codeOn (port : Int) : Json :=
  .obj [("LLM_engines", .obj [("code", .obj [
    ("instances", .arr [.obj [("id", .str "b"), ("port", .int port)]]),
    ("model_config", .obj [("model_tag", .str "Qwen/Coder")])])])]

theorem parsed_codeOn (port : Int) : Parsed (some (codeOn port)) := by
  intro overlay groups hov hgroups
  cases hov
  cases hgroups
  exact List.nodup_singleton _

end Llmops.Config
