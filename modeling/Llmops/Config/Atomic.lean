import Llmops.Config.Edits

/-!
# An operation that raises

Create, update and delete go on to steps that can raise after they have saved the overlay: the first
two look up the launcher of the group's engine and build the spec, the last one validates the merge.
The other operations have nothing that raises behind the save.

* `atomic_iff`: whatever an operation raises, file, configuration and registry are as before, **iff**
  it `Settles`: what the saved overlay merges to can be launched, or validates.
* `unlaunchable_saved`: a group for an engine without a launcher is refused and stays in the file.
-/

namespace Llmops.Config

open Lib

/-- What the registry defines: the keys and each record's spec, host, port and engine. -/
def defs (reg : Registry) : List (String × LaunchSpec × String × Int × String) :=
  reg.map fun p => (p.1, p.2.spec, p.2.host, p.2.port, p.2.engine)

/-- Nothing that an operation may leave half done. -/
structure Unchanged (m m' : Manager) : Prop where
  file : m'.file = m.file
  config : m'.config = m.config
  registry : defs m'.registry = defs m.registry

theorem Unchanged.refl (m : Manager) : Unchanged m m := ⟨rfl, rfl, rfl⟩

/-- The group has an engine with a launcher, the key resolves, and the command line can be built. -/
def Launchable (env : LaunchEnv) (config : RootConfig) (group key : String) : Prop :=
  ∃ declared engine inst, config.llmEngines.get group = some declared ∧
    declared.settings.engine.launcher.isSome ∧ resolve config key = .ok (engine, inst) ∧
    CommandLine declared.settings.engine (cliConfig env engine inst)

theorem launcherFor_llm (env : LaunchEnv) (engine : Engine) :
    launcherFor env .llm engine.name = engine.launcher.map (·.toLauncher env) := by
  cases engine <;> rfl

theorem launch_eq_ok {env : LaunchEnv} {config : RootConfig} {group key : String}
    {spec : LaunchSpec} :
    launch env config group key = .ok spec ↔ ∃ declared r, config.llmEngines.get group =
      some declared ∧ declared.settings.engine.launcher = some r ∧
        r.buildSpec env config key = .ok spec := by
  simp only [launch, bind_eq_ok, orRaise_eq_ok, launcherFor_llm, Option.map_eq_some_iff]
  constructor
  · rintro ⟨declared, hgroup, _, ⟨r, hr, rfl⟩, hspec⟩
    exact ⟨declared, r, hgroup, hr, hspec⟩
  · rintro ⟨declared, r, hgroup, hr, hspec⟩
    exact ⟨declared, hgroup, _, ⟨r, hr, rfl⟩, hspec⟩

theorem launch_isOk {env : LaunchEnv} {config : RootConfig} {group key : String} :
    (∃ spec, launch env config group key = .ok spec) ↔ Launchable env config group key := by
  constructor
  · rintro ⟨spec, h⟩
    obtain ⟨declared, r, hgroup, hr, hspec⟩ := launch_eq_ok.mp h
    obtain ⟨engine, inst, hres, hcommand, -⟩ := LlmLauncher.buildSpec_eq_ok hspec
    exact ⟨declared, engine, inst, hgroup, by rw [hr]; rfl, hres, (command_isOk hr).mp hcommand⟩
  · rintro ⟨declared, engine, inst, hgroup, hsome, hres, hline⟩
    obtain ⟨r, hr⟩ := Option.isSome_iff_exists.mp hsome
    obtain ⟨spec, hspec⟩ := LlmLauncher.buildSpec_isOk hres ((command_isOk hr).mpr hline)
    exact ⟨spec, launch_eq_ok.mpr ⟨declared, r, hgroup, hr, hspec⟩⟩

/-! ## The edits change the file -/

/-- The instances that the overlay file lists under a group. -/
def fileListed (file : Option Json) (group : String) : List Json :=
  listed (((loadOverlay file).bind groupsOf).bind fun engines => engines.get group)

theorem fileListed_saved (ov engines : Dict Json) (group : String) :
    fileListed (some (.obj (ov.set "LLM_engines" (.obj engines)))) group =
      listed (engines.get group) := by
  rw [fileListed, load_saved, Option.bind_some, groupsOf_saved]
  rfl

/-- Appending an instance changes the file. -/
theorem append_changes {file : Option Json} {declared : Bool} {group : String}
    {instance_ modelConfig overlay : Dict Json} {autoscale : Option (Dict Json)}
    (h : editGroups file (appendInstance declared group instance_ modelConfig autoscale) =
      some overlay) : some (.obj overlay) ≠ file := by
  obtain ⟨ov, engines, engines', hov, hengines, hedit, rfl⟩ := editGroups_eq_some.mp h
  obtain ⟨-, hlisted, -⟩ := appendInstance_eq_some hedit
  intro hfile
  have hbefore : fileListed file group = listed (engines.get group) := by
    rw [fileListed, hov, Option.bind_some, hengines]
    rfl
  have hafter : fileListed file group = listed (engines.get group) ++ [.obj instance_] := by
    rw [← hfile, fileListed_saved, hlisted]
  have hlen := congrArg List.length (hbefore.symm.trans hafter)
  simp at hlen

/-- An owned instance is one that the overlay lists. -/
theorem listed_of_owned {engines : Dict Json} {group instanceId : String}
    (h : entryOwns engines group instanceId = some true) :
    ∃ (e : Dict Json) (xs : List Json), engines.get group = some (.obj e) ∧
      e.get "instances" = some (.arr xs) ∧ HasId xs (.str instanceId) := by
  unfold entryOwns at h
  cases hg : engines.get group with
  | none =>
    rw [hg] at h
    cases h
  | some entry =>
    rw [hg] at h
    dsimp only at h
    split_ifs at h with ht
    swap
    · cases h
    simp only [Option.bind_eq_bind, Option.bind_eq_some_iff] at h
    obtain ⟨e, he, xs, hxs, h⟩ := h
    cases Json.asObj_eq_some.mp he
    have hmem : HasId xs (.str instanceId) := by
      clear hxs
      induction xs with
      | nil => cases h
      | cons i xs ih =>
        rw [anyWithId] at h
        obtain ⟨b, hb, h⟩ := Option.bind_eq_some_iff.mp h
        obtain ⟨_, rfl, hid⟩ := idIs_eq_some hb
        cases b with
        | true => exact ⟨i, List.mem_cons_self, hid.mp rfl⟩
        | false =>
          obtain ⟨x, hx, hxid⟩ := ih h
          exact ⟨x, List.mem_cons_of_mem _ hx, hxid⟩
    refine ⟨e, xs, rfl, ?_, hmem⟩
    obtain ⟨x, hx, hxid⟩ := hmem
    -- only the elements of a list can have an id
    cases hi : e.get "instances" with
    | none =>
      rw [hi] at hxs
      cases hxs
      cases hx
    | some v =>
      rw [hi] at hxs
      cases v with
      | arr ys =>
        cases hxs
        rfl
      | obj d =>
        cases hxs
        obtain ⟨k, -, rfl⟩ := List.mem_map.mp hx
        cases hxid
      | str s =>
        cases hxs
        obtain ⟨c, -, rfl⟩ := List.mem_map.mp hx
        cases hxid
      | _ => cases hxs

/-- What a removal leaves of an entry that listed the instance. -/
theorem removeInstance_eq_some {engines engines' e : Dict Json} {group instanceId : String}
    {xs : List Json} (hg : engines.get group = some (.obj e))
    (hi : e.get "instances" = some (.arr xs))
    (h : removeInstance group instanceId engines = some engines') :
    ∃ ys, dropInstance instanceId xs = some ys ∧ engines' =
      if ys.isEmpty then engines.pop group
      else engines.set group (.obj (e.set "instances" (.arr ys))) := by
  unfold removeInstance at h
  rw [hg] at h
  simp only [Option.getD_some, Json.asObj, hi, Json.iter, Option.bind_eq_bind,
    Option.bind_some] at h
  obtain ⟨ys, hys, h⟩ := Option.bind_eq_some_iff.mp h
  refine ⟨ys, hys, ?_⟩
  split_ifs at h ⊢ <;> cases h <;> rfl

/-- Removing an owned instance changes the file. -/
theorem remove_changes {file : Option Json} {ov overlay : Dict Json} {group instanceId : String}
    (hov : loadOverlay file = some ov) (howned : overlayOwns ov group instanceId = some true)
    (h : editGroups file (removeInstance group instanceId) = some overlay) :
    some (.obj overlay) ≠ file := by
  obtain ⟨ov', engines, engines', hov', hengines, hedit, rfl⟩ := editGroups_eq_some.mp h
  cases hov.symm.trans hov'
  obtain ⟨engines₀, hengines₀, howned⟩ := Option.bind_eq_some_iff.mp howned
  cases hengines.symm.trans hengines₀
  obtain ⟨e, xs, hg, hi, hid⟩ := listed_of_owned howned
  obtain ⟨ys, hys, rfl⟩ := removeInstance_eq_some hg hi hedit
  obtain ⟨-, hlt, -⟩ := dropInstance_eq_some hys
  have hlt := hlt hid
  intro hfile
  have hbefore : fileListed file group = xs := by
    rw [fileListed, hov, Option.bind_some, hengines, Option.bind_some, hg, listed_obj, hi]
    rfl
  have hafter : (fileListed file group).length < xs.length := by
    rw [← hfile, fileListed_saved]
    split_ifs
    · rw [Dict.get_pop_self]
      exact Nat.lt_of_le_of_lt (Nat.zero_le _) hlt
    · rw [Dict.get_set_self, listed_obj, Dict.get_set_self]
      exact hlt
  rw [hbefore] at hafter
  exact lt_irrefl _ hafter

/-! ## Which operations are atomic -/

/-- What an operation that has saved needs in order not to raise any more. -/
def Settles (w : Setup) (m : Manager) : Op → Prop
  | .create group instance_ modelConfig autoscale => ∀ key overlay config,
      planCreate w m group instance_ modelConfig autoscale = .ok (key, overlay, config) →
        Launchable w.env config group key
  | .update key instance_ modelConfig => ∀ inst overlay config,
      planUpdate w m key instance_ modelConfig = .ok (inst, overlay, config) →
        Launchable w.env config (partition key "::").1 key ∨
          (m.file = some (.obj overlay) ∧ m.config = config)
  | .delete key => ∀ overlay, planDelete m key = .ok overlay →
      ∃ config, buildMergedConfig w.py w.yaml overlay = some config
  | _ => True

/-- Whatever the operation raises, nothing has changed. -/
def Atomic (w : Setup) (x : Surround) (op : Op) (m : Manager) : Prop :=
  ∀ e, (apply w x op m).2 = .error e → Unchanged m (apply w x op m).1

section Atomic

variable {w : Setup} {x : Surround} {m : Manager}

theorem atomic_create {group : String} {instance_ modelConfig : Dict Json}
    {autoscale : Option (Dict Json)} :
    Atomic w x (.create group instance_ modelConfig autoscale) m ↔
      (x.saves → Settles w m (.create group instance_ modelConfig autoscale)) := by
  simp only [Atomic, Settles, apply, createOverlayModel]
  cases hplan : planCreate w m group instance_ modelConfig autoscale with
  | error e => simp [Unchanged.refl]
  | ok plan =>
    obtain ⟨key, overlay, config⟩ := plan
    cases hsaves : x.saves with
    | false => simp [Unchanged.refl]
    | true =>
      simp only [Except.ok.injEq, Prod.mk.injEq, forall_const, Bool.not_true, Bool.false_eq_true,
        if_false]
      have hchanged := append_changes (planCreate_eq_ok hplan).2.2.1
      rw [show (∀ k o c, key = k ∧ overlay = o ∧ config = c → Launchable w.env c group k) ↔
        Launchable w.env config group key by simp, ← launch_isOk]
      cases launch w.env config group key with
      | ok spec => simp
      | error e =>
        simp only [Except.error.injEq, forall_eq', reduceCtorEq, exists_false, iff_false]
        exact fun h => hchanged h.file

theorem atomic_update {key : String} {instance_ modelConfig : Dict Json} :
    Atomic w x (.update key instance_ modelConfig) m ↔
      (x.saves → Settles w m (.update key instance_ modelConfig)) := by
  simp only [Atomic, Settles, apply, updateOverlayModel]
  cases hplan : planUpdate w m key instance_ modelConfig with
  | error e => simp [Unchanged.refl]
  | ok plan =>
    obtain ⟨inst, overlay, config⟩ := plan
    cases hsaves : x.saves with
    | false => simp [Unchanged.refl]
    | true =>
      simp only [Except.ok.injEq, Prod.mk.injEq, forall_const, Bool.not_true, Bool.false_eq_true,
        if_false]
      rw [show (∀ i o c, inst = i ∧ overlay = o ∧ config = c →
          Launchable w.env c (partition key "::").1 key ∨ m.file = some (.obj o) ∧ m.config = c) ↔
        Launchable w.env config (partition key "::").1 key ∨
          m.file = some (.obj overlay) ∧ m.config = config by simp, ← launch_isOk]
      cases launch w.env config (partition key "::").1 key with
      | ok spec => simp
      | error e =>
        simp only [Except.error.injEq, forall_eq', reduceCtorEq, exists_false, false_or]
        constructor
        · exact fun h => ⟨h.file.symm, h.config.symm⟩
        · exact fun h => ⟨h.1.symm, h.2.symm, rfl⟩

theorem atomic_delete {key : String} :
    Atomic w x (.delete key) m ↔ (x.saves → Settles w m (.delete key)) := by
  simp only [Atomic, Settles, apply, deleteOverlayModel]
  cases hplan : planDelete m key with
  | error e => simp [Unchanged.refl]
  | ok overlay =>
    cases hsaves : x.saves with
    | false => simp [Unchanged.refl]
    | true =>
      obtain ⟨-, ⟨ov, hov, howned⟩, hedit⟩ := planDelete_eq_ok hplan
      have hchanged := remove_changes hov howned hedit
      simp only [Except.ok.injEq, forall_eq', forall_const, Bool.not_true, Bool.false_eq_true,
        if_false, Setup.merged]
      cases buildMergedConfig w.py w.yaml overlay with
      | some config => simp [orRaise]
      | none =>
        simp only [orRaise, Except.error.injEq, forall_eq', reduceCtorEq, exists_false, iff_false]
        exact fun h => hchanged h.file

theorem atomic_setAutoscale {group : String} {autoscale : Option (Dict Json)} :
    Atomic w x (.setAutoscale group autoscale) m := by
  intro e h
  simp only [apply, setAutoscale] at h ⊢
  split at h
  next => exact Unchanged.refl m
  next =>
    split_ifs at h ⊢
    exact Unchanged.refl m

theorem atomic_setFallback {group : String} {fallback : Option (List Json)} :
    Atomic w x (.setFallback group fallback) m := by
  intro e h
  simp only [apply, setFallback] at h ⊢
  split at h
  next => exact Unchanged.refl m
  next =>
    split_ifs at h ⊢
    exact Unchanged.refl m

theorem atomic_updateEmbedding {modelType name : String} {settings : Dict Json} :
    Atomic w x (.updateEmbedding modelType name settings) m := by
  intro e h
  simp only [apply, updateEmbeddingModel] at h ⊢
  split at h
  next => exact Unchanged.refl m
  next =>
    split_ifs at h ⊢
    exact Unchanged.refl m

theorem defs_stopBusy (busy : List String) (reg : Registry) :
    defs (stopBusy x busy reg) = defs reg := by
  rw [defs, defs, stopBusy, List.map_map]
  refine List.map_congr_left fun p _ => ?_
  simp only [Function.comp_apply]
  split_ifs
  · cases x.stopped p.1 <;> rfl
  · rfl

theorem atomic_import {overlay : Json} {force : Bool} :
    Atomic w x (.importOverlay overlay force) m := by
  intro e h
  simp only [apply, importOverlay] at h ⊢
  split at h
  next => exact Unchanged.refl m
  next =>
    split_ifs at h ⊢
    exact ⟨rfl, rfl, defs_stopBusy _ _⟩

end Atomic

/-- **An operation that raises leaves everything as it was**, exactly when it settles or has not
saved. -/
theorem atomic_iff (w : Setup) (x : Surround) (op : Op) (m : Manager) :
    Atomic w x op m ↔ (x.saves → Settles w m op) := by
  cases op with
  | create => exact atomic_create
  | update => exact atomic_update
  | delete => exact atomic_delete
  | setAutoscale => exact iff_of_true atomic_setAutoscale fun _ => trivial
  | setFallback => exact iff_of_true atomic_setFallback fun _ => trivial
  | updateEmbedding => exact iff_of_true atomic_updateEmbedding fun _ => trivial
  | importOverlay => exact iff_of_true atomic_import fun _ => trivial

/-- A `config.yaml` with one vLLM group. -/
def oneGroupYaml : Json :=
  .obj [("server", .obj [("port", .int 8887)]),
    ("LLM_engines", .obj [("chat", .obj [
      ("instances", .arr [.obj [("id", .str "a"), ("port", .int 8001)]]),
      ("model_config", .obj [("model_tag", .str "Qwen/Qwen3")])])])]

/-- The first instance of a new group, for an engine that the schema allows and no launcher serves. -/
def unlaunchable : Op :=
  .create "edge" [("id", .str "b"), ("port", .int 8002)]
    [("model_tag", .str "Qwen/Qwen3-GGUF"), ("engine", .str "llamacpp")] none

/-- **A refused group that stays.** The request is answered with a conflict, and the overlay has the
group from then on. -/
theorem unlaunchable_saved : ∃ m, boot { py := .strict, yaml := some oneGroupYaml } none = some m ∧
    ∃ e, (apply { py := .strict, yaml := some oneGroupYaml } {} unlaunchable m).2 = .error e ∧
      ¬ Unchanged m (apply { py := .strict, yaml := some oneGroupYaml } {} unlaunchable m).1 := by
  have hany : (boot { py := .strict, yaml := some oneGroupYaml } none).any (fun m =>
      m.file.isNone &&
        (apply { py := .strict, yaml := some oneGroupYaml } {} unlaunchable m).2.toOption.isNone &&
        (apply { py := .strict, yaml := some oneGroupYaml } {} unlaunchable m).1.file.isSome) =
      true := by decide +kernel
  obtain ⟨m, hm, h⟩ := (Option.any_eq_true _ _).mp hany
  refine ⟨m, hm, ?_⟩
  simp only [Bool.and_eq_true, Option.isNone_iff_eq_none] at h
  obtain ⟨⟨hbefore, hraised⟩, hafter⟩ := h
  cases happ : (apply { py := .strict, yaml := some oneGroupYaml } {} unlaunchable m).2 with
  | ok reply =>
    rw [happ] at hraised
    cases hraised
  | error e =>
    refine ⟨e, rfl, fun h => ?_⟩
    rw [h.file, hbefore] at hafter
    cases hafter

end Llmops.Config
