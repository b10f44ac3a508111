import Llmops.Config.Lora
import Llmops.Config.Server

/-!
# Importing the current export over whole runs

Change detection compares the spec of a record with a fresh one, and a record's spec also changes
elsewhere: the VRAM preflight of `start` writes the chosen GPU into it. The other way round, an edit of
the settings of a group refreshes the one record it is about, and `_persist_lora` none.

* `merged_instances`: the instances of a merged group are a merge of those that its two sources list,
  so that an appended one changes what is found under its own id only (`find?_appended`);
* `noOp_of_guarded`: in every state that a run reaches without an automatic placement and without an
  edit that leaves a stale record behind, importing the export is a no-op;
* `autoPlaced_conflicts`: one start that is placed automatically, and the import is refused.
-/

namespace Llmops.Config

open Lib Node

/-! ## The instances of a merged group, one by one -/

section Instances

variable {py : Pydantic} {b e : Option Json} {v : Json} {engine : LLMEngine}

theorem find?_validated {xs : List Json} {insts : List InstanceConfig} {id : String}
    (h : xs.mapM (InstanceConfig.validate py) = some insts) :
    insts.find? (·.id = id) =
      (xs.find? fun x => idOf x = some (.str id)).bind (InstanceConfig.validate py) := by
  induction mapM_eq_some_iff.mp h with
  | nil => rfl
  | @cons x inst xs insts hx htail ih =>
    have ih := ih (mapM_eq_some_iff.mpr htail)
    rw [List.find?_cons, List.find?_cons, ih]
    by_cases hid : inst.id = id
    · simp [idOf_validated hx, hid, hx]
    · simp [idOf_validated hx, hid]

/-- Instances without a base are appended as they are. -/
theorem mergeInstances_of_nil {xs : List Json} (h : ∀ x ∈ xs, ∃ s, idOf x = some s) :
    mergeInstances (.arr []) xs = some (.arr xs) := by
  have hfold (acc : List Json) : xs.foldlM (mergeInstance []) (.arr acc) = some (.arr (acc ++ xs)) := by
    induction xs generalizing acc with
    | nil => simp
    | cons x xs ih =>
      obtain ⟨⟨s, hs⟩, hxs⟩ := List.forall_mem_cons.mp h
      rw [List.foldlM_cons, mergeInstance, hs]
      simpa [lastIndex, Json.asArr] using ih hxs (acc ++ [x])
  simpa [mergeInstances, Json.iter] using hfold []

theorem iter_eq_listed {xs : List Json} (h : v.iter = some xs)
    (hid : ∀ x ∈ xs, ∃ s, idOf x = some s) : xs = v.asArr.getD [] := by
  -- what is iterated over an object or a text are texts, and these have no id
  have hempty : (∀ x ∈ xs, ∃ s, x = .str s) → xs = [] := by
    intro hstr
    refine List.eq_nil_iff_forall_not_mem.mpr fun x hx => ?_
    obtain ⟨s, rfl⟩ := hstr x hx
    obtain ⟨_, hs⟩ := hid _ hx
    cases hs
  cases v with
  | arr => exact (Option.some.inj h).symm
  | obj | str =>
    refine hempty fun x hx => ?_
    cases h
    obtain ⟨k, -, rfl⟩ := List.mem_map.mp hx
    exact ⟨_, rfl⟩
  | _ => cases h

/-- **The instances of a merged group** are a merge of the instances that its two sources list. -/
theorem merged_instances (h : mergedAt backendFields b e = some v)
    (hv : LLMEngine.validate py v = some engine) :
    ∃ xs, mergeInstances (.arr (listed b)) (listed e) = some (.arr xs) ∧
      xs.mapM (InstanceConfig.validate py) = some engine.instances := by
  obtain ⟨d, rfl, ⟨xs, hxs, hinsts⟩, -⟩ := LLMEngine.source hv
  have hids : ∀ x ∈ xs, ∃ s, idOf x = some s := by
    intro x hx
    obtain ⟨inst, hinst⟩ := Option.isSome_iff_exists.mp
      (mapM_isSome_iff.mp (Option.isSome_iff_exists.mpr ⟨_, hinsts⟩) x hx)
    exact ⟨_, idOf_validated hinst⟩
  have hlisted : listed (some (.obj d)) = xs := by
    rw [listed_of_getD, hxs]
    rfl
  cases e with
  | none =>
    have hb : b = some (.obj d) := by cases b <;> exact h
    refine ⟨xs, ?_, hinsts⟩
    obtain ⟨ids, hmap⟩ := Option.isSome_iff_exists.mp
      (mapM_isSome_iff.mpr fun x hx => Option.isSome_iff_exists.mpr (hids x hx))
    rw [hb, hlisted, mergeInstances, Json.iter]
    simp [hmap, listed]
  | some entry =>
    cases b with
    | none =>
      cases h
      refine ⟨xs, ?_, hinsts⟩
      rw [hlisted]
      exact mergeInstances_of_nil hids
    | some base =>
      obtain ⟨b, e, m, rfl, rfl, hm, hmerged⟩ := mergeGroup_eq_some (by decide) (by decide) h
      cases hm
      obtain ⟨ovs, insts, hovs, hmerge, hget⟩ := hmerged.instances
      rw [hget] at hxs
      cases hxs
      obtain ⟨bs, hbs⟩ := mergeInstances_arr hmerge
      rw [hbs] at hmerge
      refine ⟨xs, ?_, hinsts⟩
      rw [listed_of_getD, listed_of_getD, hbs, ← iter_eq_listed hovs (idOf_of_mergeInstances hmerge)]
      exact hmerge

/-- The base's ids stay where they are while instances are merged. -/
theorem led_foldlM {ids : List Scalar} {xs ys overlay : List Json} (hled : Led ids xs)
    (h : overlay.foldlM (mergeInstance ids) (.arr xs) = some (.arr ys)) : Led ids ys := by
  induction overlay generalizing xs with
  | nil =>
    cases h
    exact hled
  | cons inst overlay ih =>
    rw [List.foldlM_cons, Option.bind_eq_bind, Option.bind_eq_some_iff] at h
    obtain ⟨_, hinst, h⟩ := h
    obtain ⟨zs, rfl, hzs, -⟩ := mergeInstance_eq_some hled hinst
    exact ih hzs h

theorem find?_set {xs : List Json} {n : Nat} {p : Json → Bool} {new : Json}
    (hold : ∀ x, xs[n]? = some x → p x = false) (hnew : p new = false) :
    (xs.set n new).find? p = xs.find? p := by
  induction xs generalizing n with
  | nil => rfl
  | cons x xs ih =>
    cases n with
    | zero =>
      rw [List.set_cons_zero, List.find?_cons, List.find?_cons, hnew, hold x rfl]
    | succ n =>
      rw [List.set_cons_succ, List.find?_cons, List.find?_cons, ih hold]

/-- An instance that the overlay lists last changes what is found under its own id only. -/
theorem find?_appended {b e e' : Option Json} {v v' : Json} {engine engine' : LLMEngine}
    {new : Json} {s id : String} (h : mergedAt backendFields b e = some v)
    (hv : LLMEngine.validate py v = some engine) (h' : mergedAt backendFields b e' = some v')
    (hv' : LLMEngine.validate py v' = some engine') (hlisted : listed e' = listed e ++ [new])
    (hnew : idOf new = some (.str s)) (hid : id ≠ s) :
    engine'.instances.find? (·.id = id) = engine.instances.find? (·.id = id) := by
  obtain ⟨xs, hxs, hinsts⟩ := merged_instances h hv
  obtain ⟨xs', hxs', hinsts'⟩ := merged_instances h' hv'
  rw [find?_validated hinsts, find?_validated hinsts']
  congr 1
  simp only [mergeInstances, Json.iter, Option.bind_eq_bind, Option.bind_some,
    Option.bind_eq_some_iff, hlisted, List.foldlM_append] at hxs hxs'
  obtain ⟨ids, hids, hxs⟩ := hxs
  obtain ⟨_, hids', _, hxs₀, hlast⟩ := hxs'
  cases hids.symm.trans hids'
  cases hxs.symm.trans hxs₀
  have hled : Led ids xs := led_foldlM (by rw [Led, map_of_mapM hids]) hxs
  have hother : decide (idOf new = some (.str id)) = false := by
    rw [hnew]
    simpa [eq_comm] using hid
  simp only [List.foldlM_cons, List.foldlM_nil, mergeInstance, hnew, Json.asArr, Option.bind_eq_bind,
    Option.bind_some, Option.pure_def, Option.some.injEq, Json.arr.injEq] at hlast
  cases hn : lastIndex (.str s) ids with
  | none =>
    rw [hn] at hlast
    rw [← hlast, List.find?_append, List.find?_singleton, hother]
    simp
  | some n =>
    rw [hn] at hlast
    rw [← hlast]
    refine find?_set (fun x hx => ?_) hother
    have hold := hled.getElem? (lastIndex_eq_some hn)
    rw [List.getElem?_map, hx, Option.map_some, Option.some.injEq] at hold
    rw [hold, ← hnew]
    exact hother

/-- An entry that lists the same instances leaves those of the group. -/
theorem instances_same {b e e' : Option Json} {v v' : Json} {engine engine' : LLMEngine}
    (h : mergedAt backendFields b e = some v) (hv : LLMEngine.validate py v = some engine)
    (h' : mergedAt backendFields b e' = some v') (hv' : LLMEngine.validate py v' = some engine')
    (hlisted : listed e' = listed e) : engine'.instances = engine.instances := by
  obtain ⟨xs, hxs, hinsts⟩ := merged_instances h hv
  obtain ⟨xs', hxs', hinsts'⟩ := merged_instances h' hv'
  rw [hlisted, hxs] at hxs'
  cases hxs'
  exact Option.some.inj (hinsts'.symm.trans hinsts)

end Instances

/-! ## What an edit of one group leaves -/

/-- The key is of the group: by its name, or because the group lists it before the edit or after. -/
def OfGroup (c c' : RootConfig) (group key : String) : Prop :=
  (partition key "::").1 = group ∨ Lists c group key ∨ Lists c' group key

section Groups

variable {w : Setup} {group k : String} {entry entry' : Option Json} {c c' : RootConfig}
  {engine engine' : LLMEngine}

theorem Finds.lists {r : LlmLauncher} (hr : r.engine.launcher = some r) (h : Finds r c group k) :
    Lists c group k := by
  obtain ⟨engine, inst, hget, he, hinst⟩ := h
  exact ⟨engine, inst, hget, by rw [he, hr]; rfl, hinst⟩

/-- A spec depends on the settings of the group and the instance of the key. -/
theorem buildSpec_congr {r : LlmLauncher} {env : LaunchEnv} {inst : InstanceConfig}
    (h : resolve c k = .ok (engine, inst)) (h' : resolve c' k = .ok (engine', inst))
    (hs : engine'.settings = engine.settings) :
    r.buildSpec env c' k = r.buildSpec env c k := by
  simp only [LlmLauncher.buildSpec, h, h', cliConfig, overlaid, hs, bind, Except.bind]

/-- To have the same specs is to be found in the same groups and to resolve to the same. -/
theorem EditOf.sameSpecs (h : EditOf w group entry entry' c c')
    (hfinds : ∀ r : LlmLauncher, r.engine.launcher = some r →
      (Finds r c' group k ↔ Finds r c group k))
    (hbuild : ∀ r : LlmLauncher, r.engine.launcher = some r → k ∈ r.keys c →
      (partition k "::").1 = group → r.buildSpec w.env c' k = r.buildSpec w.env c k) :
    SameSpecs w.env c c' k := by
  intro l hl
  obtain ⟨r, rfl, hr⟩ | rfl := mem_launchers hl
  · have hkeys : k ∈ r.keys c' ↔ k ∈ r.keys c := by
      rw [mem_keys_iff, mem_keys_iff]
      refine exists_congr fun g => ?_
      by_cases hg : g = group
      · rw [hg]
        exact hfinds r hr
      · unfold Finds
        rw [h.other g hg]
    refine ⟨hkeys, fun hk => ?_⟩
    by_cases hg : (partition k "::").1 = group
    · exact hbuild r hr hk hg
    · show r.buildSpec w.env c' k = r.buildSpec w.env c k
      rw [LlmLauncher.buildSpec, LlmLauncher.buildSpec, resolve_congr (h.other _ hg)]
  · refine ⟨by rw [show (embeddingLauncher w.env).keys = embeddingKeys from rfl, h.embeddingKeys_eq],
      fun _ => ?_⟩
    show buildEmbeddingSpec w.env c' k = buildEmbeddingSpec w.env c k
    rw [buildEmbeddingSpec, buildEmbeddingSpec, servedEmbedding, servedEmbedding, h.embedding]

/-- The keys that are not of the group. -/
theorem EditOf.sameSpecs_of_not (h : EditOf w group entry entry' c c')
    (hnot : ¬ OfGroup c c' group k) : SameSpecs w.env c c' k := by
  obtain ⟨hname, hbefore, hafter⟩ : (partition k "::").1 ≠ group ∧ ¬ Lists c group k ∧
      ¬ Lists c' group k := by simpa [OfGroup, not_or] using hnot
  refine h.sameSpecs (fun r hr => iff_of_false ?_ ?_) fun r hr hk hg => absurd hg hname
  · exact fun hf => hafter (hf.lists hr)
  · exact fun hf => hbefore (hf.lists hr)

/-- A key of the group, where the group keeps its settings and finds the same under the id. -/
theorem EditOf.sameSpecs_of_found (h : EditOf w group entry entry' c c')
    (hget : c.llmEngines.get group = some engine) (hget' : c'.llmEngines.get group = some engine')
    (hs : engine'.settings = engine.settings)
    (hfind : ∀ id, glue group id = k →
      engine'.instances.find? (·.id = id) = engine.instances.find? (·.id = id)) :
    SameSpecs w.env c c' k := by
  have hmem (id : String) (hid : glue group id = k) :
      (∃ inst ∈ engine'.instances, inst.id = id) ↔ ∃ inst ∈ engine.instances, inst.id = id := by
    have hsome := congrArg Option.isSome (hfind id hid)
    rw [Bool.eq_iff_iff, List.find?_isSome, List.find?_isSome] at hsome
    simpa using hsome
  have hfinds (c : RootConfig) (e : LLMEngine) (r : LlmLauncher)
      (hget : c.llmEngines.get group = some e) : Finds r c group k ↔
        e.settings.engine = r.engine ∧
          ∃ id, glue group id = k ∧ ∃ inst ∈ e.instances, inst.id = id := by
    unfold Finds
    rw [hget]
    constructor
    · rintro ⟨_, inst, heq, he, hinst, hk⟩
      cases heq
      exact ⟨he, inst.id, hk, inst, hinst, rfl⟩
    · rintro ⟨he, _, hk, inst, hinst, rfl⟩
      exact ⟨e, inst, rfl, he, hinst, hk⟩
  refine h.sameSpecs (fun r _ => ?_) fun r hr hk hg => ?_
  · rw [hfinds c engine r hget, hfinds c' engine' r hget', hs]
    refine and_congr_right fun _ => exists_congr fun id => and_congr_right fun hid => hmem id hid
  · have hglue : glue group (partition k "::").2 = k := by
      rw [← hg]
      refine glue_of_defined (c := c) ?_
      obtain ⟨g, hf⟩ := mem_keys_iff.mp hk
      exact Config.mem_definedKeys.mpr (.inl ⟨g, hf.lists hr⟩)
    have hfound := hfind _ hglue
    cases hf : engine.instances.find? (·.id = (partition k "::").2) with
    | some inst =>
      have hres : resolve c k = .ok (engine, inst) :=
        resolve_eq_ok.mpr ⟨by rw [hg]; exact hget, hf⟩
      have hres' : resolve c' k = .ok (engine', inst) :=
        resolve_eq_ok.mpr ⟨by rw [hg]; exact hget', hfound.trans hf⟩
      exact buildSpec_congr hres hres' hs
    | none =>
      have hres (c : RootConfig) (e : LLMEngine) (hget : c.llmEngines.get group = some e)
          (hnone : e.instances.find? (·.id = (partition k "::").2) = none) :
          resolve c k = .error (.keyError ("instance '" ++ (partition k "::").2 ++
            "' not in group '" ++ (partition k "::").1 ++ "'")) := by
        unfold resolve
        dsimp only
        rw [hg, hget]
        dsimp only
        rw [hnone]
      rw [LlmLauncher.buildSpec, LlmLauncher.buildSpec, hres c engine hget hf,
        hres c' engine' hget' (hfound.trans hf)]

end Groups

/-! ## The condition -/

/-- A step of the runs: an event of the manager, or an operation on adapters that succeeds. -/
inductive Turn where
  | event (e : Event)
  | lora (x : Surround) (answers : String → Posted) (op : LoraOp)

def turn (w : Setup) (m : Manager) : Turn → Option Manager
  | .event e => step w m e
  | .lora x answers op => (applyLora w x answers op m).toOption.map Prod.fst

/-- The keys of the group, except the one that is edited, resolve to the specs that they had. -/
def Leaves (w : Setup) (c c' : RootConfig) (group : String) (edited : Option String) : Prop :=
  ∀ k, some k ≠ edited → OfGroup c c' group k → SameSpecs w.env c c' k

/-- No other group and no embedding server has the key. -/
def Sole (c : RootConfig) (group key : String) : Prop :=
  (∀ g, Lists c g key → g = group) ∧ key ∉ embeddingKeys c

/-- The condition on a step: a start places nothing automatically, and an edit leaves the specs of the
keys that it does not refresh. An overlay that is brought in is one that a parser has read. -/
def NoOpGuard (w : Setup) (m : Manager) : Turn → Prop
  | .event (.start _ gpu _) => gpu = none
  | .event (.runtime ..) => True
  | .event (.sync x overlay) => AgreeGuard w m (.sync x overlay)
  | .event (.call x op) =>
    match op with
    | .create .. | .setAutoscale .. | .updateEmbedding .. => True
    | .setFallback .. | .importOverlay .. => AgreeGuard w m (.call x op)
    | .update key instance_ modelConfig =>
      AgreeGuard w m (.call x op) ∧ Sole m.config (partition key "::").1 key ∧
        ∀ inst overlay config, planUpdate w m key instance_ modelConfig = .ok (inst, overlay, config) →
          Leaves w m.config config (partition key "::").1 (some key)
    | .delete key =>
      AgreeGuard w m (.call x op) ∧ ∀ overlay config, planDelete m key = .ok overlay →
        w.merged overlay = .ok config → Leaves w m.config config (partition key "::").1 (some key)
  | .lora _ _ op => ∀ overlay config, op.plan w m = .ok (overlay, config) →
      Leaves w m.config config op.group none

/-- The invariant of the runs. -/
structure Synced (w : Setup) (m : Manager) : Prop where
  kept : Kept w m
  specs : UpToDate w m.config m.registry

/-! ## Each operation -/

section Operations

variable {w : Setup} {x : Surround} {m m' : Manager} {reply : Reply} {group key : String}
  {instance_ modelConfig : Dict Json} {c c' config : RootConfig} {spec : LaunchSpec}
  {entry entry' : Option Json}

theorem launcher_ext {l l' : Launcher} (hl : l ∈ launchers w.env) (hl' : l' ∈ launchers w.env)
    (h : l.engine = l'.engine) : l = l' := by
  simp only [launchers, List.mem_cons, List.not_mem_nil, or_false] at hl hl'
  obtain rfl | rfl | rfl := hl <;> obtain rfl | rfl | rfl := hl'
  all_goals first
    | rfl
    | simp [LlmLauncher.toLauncher, embeddingLauncher, vllmLauncher, sglangLauncher,
        Engine.name] at h

/-- Where an edit leaves the specs of its group, it leaves them all, but for the edited key. -/
theorem EditOf.leaves {edited : Option String} (h : EditOf w group entry entry' c c')
    (hleaves : Leaves w c c' group edited) (k : String) (hk : some k ≠ edited) :
    SameSpecs w.env c c' k := by
  by_cases hof : OfGroup c c' group k
  · exact hleaves k hk hof
  · exact h.sameSpecs_of_not hof

theorem EditOf.sole (h : EditOf w group entry entry' c c') (hsole : Sole c group key) :
    Sole c' group key := by
  constructor
  · intro g hg
    by_contra hne
    obtain ⟨engine, inst, hget, hrest⟩ := hg
    rw [h.other g hne] at hget
    exact hne (hsole.1 g ⟨engine, inst, hget, hrest⟩)
  · rw [h.embeddingKeys_eq]
    exact hsole.2

/-- The launcher that a launch takes is the only one that finds the key. -/
theorem owner_of_launch (hlaunch : launch w.env c group key = .ok spec) (hsole : Sole c group key)
    (hkey : key ∈ definedKeys c) :
    ∃ l, owner w.env c key = some l ∧ l.buildSpec c key = .ok spec ∧ spec.engine = l.engine ∧
      ∀ l' ∈ launchers w.env, key ∈ l'.keys c → l' = l := by
  obtain ⟨declared, r, hget, hr, hspec⟩ := launch_eq_ok.mp hlaunch
  have hmem : r.toLauncher w.env ∈ launchers w.env := launcher_mem hr
  have hfound : key ∈ (r.toLauncher w.env).keys c := by
    obtain ⟨g, hg⟩ | hemb := Config.mem_definedKeys.mp hkey
    · obtain rfl := hsole.1 g hg
      obtain ⟨engine, inst, hget', -, hinst, hglue⟩ := hg
      cases hget.symm.trans hget'
      exact mem_keys_iff.mpr ⟨g, declared, inst, hget, (launcher_engine hr).symm, hinst, hglue⟩
    · exact absurd hemb hsole.2
  have halone : ∀ l' ∈ launchers w.env, key ∈ l'.keys c → l' = r.toLauncher w.env := by
    intro l' hl' hkey'
    obtain ⟨r', rfl, hr'⟩ | rfl := mem_launchers hl'
    · obtain ⟨g, hf⟩ := mem_keys_iff.mp hkey'
      obtain rfl := hsole.1 g (hf.lists hr')
      obtain ⟨engine, inst, hget', he, -⟩ := hf
      cases hget.symm.trans hget'
      rw [← he, hr] at hr'
      rw [Option.some.inj hr']
    · exact absurd hkey' hsole.2
  exact ⟨_, owner_of_sole hmem hfound halone, hspec, buildSpec_engine hmem hspec, halone⟩

/-- A record that an edit has built anew, beside records that it leaves. -/
theorem UpToDate.launched {reg : Registry} {inst : ModelInstance} (h : UpToDate w c reg)
    (hsame : ∀ k, k ≠ key → SameSpecs w.env c c' k)
    (hlaunch : launch w.env c' group key = .ok spec) (hsole : Sole c' group key)
    (hkey : key ∈ definedKeys c') (hspec : inst.spec = spec) (hengine : inst.engine = spec.engine) :
    UpToDate w c' (reg.set key inst) := by
  obtain ⟨l, howner, hbuild, hl, halone⟩ := owner_of_launch hlaunch hsole hkey
  refine h.edited h.unique.set hsame (fun k hk => Dict.get_set_ne hk) ?_ ?_
  · intro l' hl' hkey'
    rw [halone l' hl' hkey']
    exact ⟨spec, hbuild⟩
  · intro inst' hget
    rw [Dict.get_set_self] at hget
    cases hget
    exact ⟨l, howner, hspec ▸ hbuild, hengine.trans hl⟩

theorem synced_create {autoscale : Option (Dict Json)} (hi : Synced w m)
    (h : createOverlayModel w x group instance_ modelConfig autoscale m = (m', .ok reply)) :
    Synced w m' := by
  have hkept := kept_create hi.kept h
  obtain ⟨key, overlay, config, spec, hplan, hlaunch, rfl⟩ := createOverlayModel_eq_ok h
  obtain ⟨hkey, hnew, hedit, hmerged⟩ := planCreate_eq_ok hplan
  obtain ⟨-, -, engines, engines', -, hf, hof⟩ :=
    editOf touches_appendInstance hi.kept.parsed hi.kept.agrees.file hedit hmerged
  obtain ⟨-, hlisted, hsettings, -⟩ := appendInstance_eq_some hf
  obtain ⟨s, hid, hglue⟩ := hof.created (launches_of_launch hlaunch) hlisted
  rw [← hkey] at hglue
  obtain ⟨engine', -, hget', -⟩ := launch_eq_ok.mp hlaunch
  have hundefined : key ∉ definedKeys m.config := by
    rw [← hi.kept.agrees.keys, ← Dict.has_iff, hnew]
    exact Bool.false_ne_true
  have hsole : Sole config group key := by
    refine hof.sole ⟨fun g hg => ?_, fun hemb => ?_⟩
    · exact absurd (Config.mem_definedKeys.mpr (.inl ⟨g, hg⟩)) hundefined
    · exact absurd (Config.mem_definedKeys.mpr (.inr hemb)) hundefined
  have hdefined : key ∈ definedKeys config :=
    (hkept.agrees.keys key).mp (Dict.mem_keys_set.mpr (.inl rfl))
  refine ⟨hkept, hi.specs.launched (fun k hk => ?_) hlaunch hsole hdefined rfl rfl⟩
  have hne (id : String) (h : glue group id = k) : id ≠ s := by
    rintro rfl
    exact hk (h.symm.trans hglue.symm)
  have hafter := hof.after
  rw [hget'] at hafter
  obtain ⟨v', hv', hval'⟩ := Option.bind_eq_some_iff.mp hafter.symm
  cases hget : m.config.llmEngines.get group with
  | none =>
    -- the group is new: its one key is the edited one
    obtain ⟨hb, he⟩ := hof.absent hget
    have hnone (r : LlmLauncher) : ¬ Finds r m.config group k := by
      rintro ⟨engine, -, h, -⟩
      rw [hget] at h
      cases h
    refine hof.sameSpecs (fun r _ => iff_of_false ?_ (hnone r)) fun r hr hk' hg => ?_
    · rintro ⟨engine, inst, h, -, hinst, hglue'⟩
      have hids := (mem_ids hof.after h).mp ⟨inst, hinst, rfl⟩
      rw [hlisted, he, hb] at hids
      have hsame : inst.id = s := by simpa [listed, HasId, hid, eq_comm] using hids
      exact hne _ hglue' hsame
    · obtain ⟨_, e, _, _, he, _⟩ := mem_keys_iff.mp hk'
      have hmem : r.toLauncher w.env ∈ launchers w.env := launcher_mem (he ▸ hr)
      obtain ⟨spec', hspec'⟩ := hi.specs.builds _ hmem k hk'
      obtain ⟨engine, inst, hres, -⟩ := LlmLauncher.buildSpec_eq_ok hspec'
      have := (resolve_eq_ok.mp hres).1
      rw [hg, hget] at this
      cases this
  | some engine =>
    have hbefore := hof.before
    rw [hget] at hbefore
    obtain ⟨v, hv, hval⟩ := Option.bind_eq_some_iff.mp hbefore.symm
    have hdeclared : (m.config.llmEngines.has group || engines.has group) = true := by
      rw [Dict.has, hget]
      rfl
    refine hof.sameSpecs_of_found hget hget' ?_ fun id hk' => ?_
    · exact hof.settings_eq hget hget' (hsettings hdeclared _ (by decide) (by decide))
        (hsettings hdeclared _ (by decide) (by decide))
    · exact find?_appended hv hval hv' hval' hlisted hid (hne id hk')

theorem synced_update (hi : Synced w m)
    (hguard : NoOpGuard w m (.event (.call x (.update key instance_ modelConfig))))
    (h : updateOverlayModel w x key instance_ modelConfig m = (m', .ok reply)) : Synced w m' := by
  obtain ⟨hagree, hsole, hleaves⟩ := hguard
  have hkept := kept_update hi.kept hagree h
  obtain ⟨inst, overlay, config, spec, hplan, hlaunch, rfl⟩ := updateOverlayModel_eq_ok h
  obtain ⟨hget, -, hedit, hmerged⟩ := planUpdate_eq_ok hplan
  obtain ⟨-, -, engines, engines', -, hf, hof⟩ :=
    editOf touches_replaceInstance hi.kept.parsed hi.kept.agrees.file hedit hmerged
  have hdefined : key ∈ definedKeys config :=
    (hkept.agrees.keys key).mp (Dict.mem_keys_set.mpr (.inl rfl))
  have hleaves := hof.leaves (hleaves inst overlay config hplan)
  exact ⟨hkept, hi.specs.launched (fun k hk => hleaves k (by simpa using hk)) hlaunch
    (hof.sole hsole) hdefined rfl rfl⟩

theorem synced_delete (hi : Synced w m) (hguard : NoOpGuard w m (.event (.call x (.delete key))))
    (h : deleteOverlayModel w x key m = (m', .ok reply)) : Synced w m' := by
  obtain ⟨hagree, hleaves⟩ := hguard
  have hkept := kept_delete hi.kept hagree h
  obtain ⟨overlay, config, hplan, hmerged, rfl⟩ := deleteOverlayModel_eq_ok h
  obtain ⟨-, -, hedit⟩ := planDelete_eq_ok hplan
  obtain ⟨-, -, engines, engines', -, hf, hof⟩ :=
    editOf touches_removeInstance hi.kept.parsed hi.kept.agrees.file hedit hmerged
  have hleaves := hof.leaves (hleaves overlay config hplan hmerged)
  have hgone : key ∉ definedKeys config := by
    intro hkey
    exact (Dict.mem_keys_pop.mp ((hkept.agrees.keys key).mpr hkey)).2 rfl
  refine ⟨hkept, hi.specs.edited hi.specs.unique.pop (fun k hk => hleaves k (by simpa using hk))
    (fun k hk => Dict.get_pop_ne hk) (fun l hl hkey => ?_) fun inst hget => ?_⟩
  · exact absurd ((mem_definedKeys_iff w.env).mpr ⟨l, hl, hkey⟩) hgone
  · rw [show Manager.registry _ = Dict.pop m.registry key from rfl, Dict.get_pop_self] at hget
    cases hget

/-- An edit that leaves every spec and touches no record. -/
theorem synced_commit {overlay : Dict Json} (hi : Synced w m)
    (hparsed : Parsed (some (.obj overlay)))
    (hfile : mergedFile w (some (.obj overlay)) = some config)
    (hsame : ∀ k, SameSpecs w.env m.config config k) : Synced w (m.commit overlay config) := by
  refine ⟨@Kept.of w config _ _ hparsed hfile fun k => ?_, hi.specs.congr hsame⟩
  rw [hi.kept.agrees.keys, mem_definedKeys_congr hsame]

theorem synced_field {field : String} {value : Json} {overlay : Dict Json} (hi : Synced w m)
    (hhas : m.config.llmEngines.has group = true) (hinstances : field ≠ "instances")
    (hmodel : field ≠ "model_config") (hsettings : field ≠ "settings")
    (hedit : editGroups m.file (setField group field value) = some overlay)
    (hmerged : w.merged overlay = .ok config) : Synced w (m.commit overlay config) := by
  obtain ⟨hparsed, hfile, engines, engines', -, hf, hof⟩ :=
    editOf touches_setField hi.kept.parsed hi.kept.agrees.file hedit hmerged
  refine synced_commit hi hparsed hfile fun k => ?_
  obtain ⟨engine, hget⟩ := Option.isSome_iff_exists.mp hhas
  cases hget' : config.llmEngines.get group with
  | none =>
    obtain ⟨entry, rfl, -⟩ := setField_eq_some hf
    have hentry := (hof.present hget').2
    rw [Dict.get_set_self] at hentry
    cases hentry
  | some engine' =>
    have hbefore := hof.before
    have hafter := hof.after
    rw [show m.config.llmEngines.get group = some engine from hget] at hbefore
    rw [hget'] at hafter
    obtain ⟨v, hv, hval⟩ := Option.bind_eq_some_iff.mp hbefore.symm
    obtain ⟨v', hv', hval'⟩ := Option.bind_eq_some_iff.mp hafter.symm
    refine hof.sameSpecs_of_found hget hget' ?_ fun id _ => ?_
    · exact hof.settings_eq hget hget' (fieldOf_setField hf hmodel.symm)
        (fieldOf_setField hf hsettings.symm)
    · rw [instances_same hv hval hv' hval' (listed_setField hf hinstances)]

/-- A reload is of the file only. -/
theorem synced_reload (hi : Synced w m) (hb : Brings w x m.file) : Synced w (m.reload x) := by
  refine ⟨kept_reload hi.kept hb, ?_⟩
  unfold Manager.reload
  cases x.hydrated <;> exact hi.specs

theorem isEmpty_of_has {V : Type} {d : Dict V} (h : d.has key = true) : d.isEmpty = false := by
  cases d with
  | nil => cases h
  | cons => rfl

theorem updateEmbeddingModel_eq_ok {modelType name : String} {settings : Dict Json}
    (h : updateEmbeddingModel w x modelType name settings m = (m', .ok reply)) :
    ∃ field emb overlay config, field ∈ modelFields ∧ m.config.embeddingServer = some emb ∧
      (modelsOf emb field).isEmpty = false ∧ editModel field name settings m.file = some overlay ∧
      w.merged overlay = .ok config ∧ m' = m.commit overlay config := by
  unfold updateEmbeddingModel at h
  dsimp only at h
  split at h
  next => cases h
  next overlay config hplan =>
    split_ifs at h
    · cases h
    · cases h
      simp only [bind_eq_ok, refuseIf_eq_ok, raiseIf_eq_ok, orRaise_eq_ok, pure, Except.pure,
        Except.ok.injEq, Prod.mk.injEq, Bool.not_eq_false'] at hplan
      obtain ⟨_, -, _, hknown, _, -, ov, hov, c, hc, rfl, rfl⟩ := hplan
      cases hemb : m.config.embeddingServer with
      | none =>
        rw [hemb] at hknown
        cases hknown
      | some emb =>
        rw [hemb, Option.elim_some] at hknown
        refine ⟨_, emb, ov, c, ?_, rfl, ?_, hov, hc, rfl⟩
        · unfold modelFields
          split_ifs <;> simp
        · unfold modelsOf
          by_cases ht : modelType = "embedding"
          · rw [if_pos ht] at hknown ⊢
            rw [if_pos rfl]
            exact isEmpty_of_has hknown
          · rw [if_neg ht] at hknown ⊢
            rw [if_neg (by decide)]
            exact isEmpty_of_has hknown

theorem synced_import {overlay : Json} {force : Bool} (hi : Synced w m)
    (hparsed : Parsed (some overlay)) (hb : Brings w x (some overlay))
    (h : importOverlay w x overlay force m = (m', .ok reply)) : Synced w m' := by
  have hkept := kept_import hparsed hb h
  obtain ⟨ov, config, desired, hplan, rfl, -⟩ := importOverlay_eq_ok h
  obtain ⟨-, -, hdesired, -⟩ := planImport_eq_ok hplan
  have hstopped : UpToDate w m.config (stopBusy x (busyKeys m.registry desired) m.registry) :=
    hi.specs.stopBusy
  refine ⟨hkept, ?_⟩
  have hspecs := upToDate_resync hdesired hstopped.unique fun key inst => hstopped.self
  unfold Manager.reload
  cases x.hydrated <;> exact hspecs

theorem synced_sync {overlay : Json} (hi : Synced w m)
    (hguard : AgreeGuard w m (.sync x overlay)) : Synced w (syncOverlay w x overlay m).1 := by
  refine ⟨kept_sync hi.kept hguard, ?_⟩
  unfold syncOverlay
  cases hsaves : x.saves with
  | false => exact hi.specs
  | true =>
    obtain ⟨-, -, config, hconfig, hresolves⟩ := hguard hsaves
    have hmerged : (loadOverlay (some overlay)).bind (buildMergedConfig w.py w.yaml) = some config :=
      hconfig
    simp only [Bool.not_true, Bool.false_eq_true, if_false, hmerged]
    cases hdesired : resolveSpecs w.env config with
    | error e => exact hi.specs
    | ok desired =>
      have hspecs := upToDate_resync hdesired hi.specs.unique fun key inst => hi.specs.self
      dsimp only
      split
      · exact hspecs
      · unfold Manager.reload
        cases x.hydrated <;> exact hspecs

/-- A start that places nothing stores the spec that the record has. -/
theorem synced_start {now : Time} (hi : Synced w m)
    (h : step w m (.start key none now) = some m') : Synced w m' := by
  have hguard : AgreeGuard w m (.start key none now) := trivial
  have hkept := kept_step hi.kept hguard h
  simp only [step, Option.bind_eq_bind, Option.bind_eq_some_iff, Option.pure_def,
    Option.some.injEq] at h
  obtain ⟨inst, hget, spec, hspec, inst', hstart, rfl⟩ := h
  refine ⟨hkept, hi.specs.unique.set, hi.specs.builds, fun k r hr => ?_⟩
  rw [Dict.get_set] at hr
  split_ifs at hr with hk
  · cases hr
    subst hk
    obtain ⟨_, l', hget', hl', hbuild'⟩ := startSpec_eq_ok (toOption_eq_some.mp hspec)
    cases hget.symm.trans hget'
    obtain ⟨-, -, rfl⟩ := startSection_eq_ok (toOption_eq_some.mp hstart)
    obtain ⟨l, howner, hbuild, hengine⟩ := hi.specs.owned k inst hget
    have hmatch := List.find?_some hl'
    simp only [Bool.and_eq_true, decide_eq_true_eq] at hmatch
    obtain rfl : l' = l := launcher_ext (List.mem_of_find?_eq_some hl') (owner_mem howner).1
      (hmatch.2.trans hengine)
    exact ⟨l', howner, hbuild', hengine⟩
  · exact hi.specs.owned k r hr

theorem synced_lora {answers : String → Posted} {op : LoraOp} {reply : LoraReply} (hi : Synced w m)
    (hguard : NoOpGuard w m (.lora x answers op))
    (h : applyLora w x answers op m = .ok (m', reply)) : Synced w m' := by
  obtain ⟨overlay, config, hplan, rfl⟩ := applyLora_eq_ok h
  have hedit : ∃ name entry, planLora w m op.group name entry = .ok (overlay, config) := by
    cases op <;> exact ⟨_, _, hplan⟩
  obtain ⟨name, entry, hlora⟩ := hedit
  obtain ⟨engine, value, -, hedit, hmerged⟩ := planLora_eq_ok hlora
  obtain ⟨hparsed, hfile, engines, engines', -, -, hof⟩ :=
    editOf touches_setField hi.kept.parsed hi.kept.agrees.file hedit hmerged
  exact synced_commit hi hparsed hfile fun k =>
    hof.leaves (hguard overlay config hplan) k (by simp)

/-- **One step.** -/
theorem synced_turn {e : Turn} (hi : Synced w m) (hguard : NoOpGuard w m e)
    (h : turn w m e = some m') : Synced w m' := by
  cases e with
  | lora x answers op =>
    unfold turn at h
    obtain ⟨⟨_, reply⟩, happ, rfl⟩ := Option.map_eq_some_iff.mp h
    cases hlora : applyLora w x answers op m with
    | error e =>
      rw [hlora] at happ
      cases happ
    | ok r =>
      rw [hlora] at happ
      cases happ
      exact synced_lora hi hguard hlora
  | event e =>
    unfold turn at h
    cases e with
    | call x op =>
      unfold step at h
      dsimp only at h
      split at h
      next _ reply happ =>
        cases h
        cases op with
        | create => exact synced_create hi happ
        | update => exact synced_update hi hguard happ
        | delete => exact synced_delete hi hguard happ
        | setAutoscale group autoscale =>
          obtain ⟨policy, overlay, config, hhas, hedit, hmerged, rfl⟩ := setAutoscale_eq_ok happ
          exact synced_field hi hhas (by decide) (by decide) (by decide) hedit hmerged
        | setFallback group fallback =>
          obtain ⟨chain, overlay, config, hhas, hchain, hedit, hmerged, rfl⟩ :=
            setFallback_eq_ok happ
          have hsynced := synced_field hi hhas (by decide) (by decide) (by decide) hedit hmerged
          exact synced_reload hsynced (hguard chain overlay hchain hedit)
        | updateEmbedding modelType name settings =>
          obtain ⟨field, emb, overlay, config, hfield, hemb, hknown, hedit, hmerged, rfl⟩ :=
            updateEmbeddingModel_eq_ok happ
          obtain ⟨hparsed, hfile, hsame⟩ := sameSpecs_editModel hi.kept.parsed hi.kept.agrees.file
            hfield hemb hknown hedit hmerged
          exact synced_commit hi hparsed hfile hsame
        | importOverlay => exact synced_import hi hguard.1 hguard.2 happ
      next => cases h
    | sync x overlay =>
      cases h
      exact synced_sync hi hguard
    | start key gpu now =>
      obtain rfl : gpu = none := hguard
      exact synced_start hi h
    | runtime x keys =>
      have hguard : AgreeGuard w m (.runtime x keys) := trivial
      have hkept := kept_step hi.kept hguard h
      cases h
      exact ⟨hkept, hi.specs.stopBusy⟩

end Operations

/-! ## Runs -/

theorem synced_boot {w : Setup} {file : Option Json} {m : Manager} (hparsed : Parsed file)
    (h : boot w file = some m) : Synced w m := by
  refine ⟨kept_boot hparsed h, ?_⟩
  simp only [boot, Option.bind_eq_bind, Option.bind_eq_some_iff, Option.pure_def,
    Option.some.injEq] at h
  obtain ⟨overlay, -, config, -, registry, hreg, rfl⟩ := h
  exact upToDate_build (toOption_eq_some.mp hreg)

/-- **Importing the current export is a no-op** in every state that a guarded run reaches from boot. -/
theorem noOp_of_guarded {w : Setup} {file : Option Json} {m₀ m : Manager} (hparsed : Parsed file)
    (hboot : boot w file = some m₀) (h : Reach (turn w) (NoOpGuard w) m₀ m) : NoOp w m := by
  have hi := h.invariant (I := Synced w) (synced_boot hparsed hboot)
    (fun ha hG he => synced_turn ha hG he)
  exact noOp_of_upToDate hi.kept hi.specs

/-- The instance moves to another port. -/
def moved : Turn :=
  .event (.call {} (.update "chat::a" [("port", .int 8005)] [("model_tag", .str "Qwen/Qwen3")]))

/-- Then a second instance of the group, and a start that is pinned or finds no GPU to choose. -/
def movedAndStarted : List Turn :=
  [moved, .event (.call {} (.create "chat" [("id", .str "b"), ("port", .int 8002)] [] none)),
    .event (.start "chat::a" none 0)]

/-- The start of an instance without a `cuda_device`, placed on GPU 0. -/
def autoPlaced : List Turn := [.event (.start "chat::a" (some "0") 0)]

/-- The instance is the only one that the launchers find, before the edit and after it. -/
theorem noOpGuard_moved {m : Manager} (hboot : boot oneGroup none = some m) :
    NoOpGuard oneGroup m moved := by
  have hkey : (partition "chat::a" "::").1 = "chat" := by decide +kernel
  have holds (P : Manager → Bool) := @holds_oneGroup P [] m m hboot rfl
  have hlaunched := holds (fun m => (m.config.llmEngines.get "chat").all fun engine =>
    engine.settings.engine.launcher.isSome) (by decide +kernel)
  have hgroups := holds (fun m => m.config.llmEngines.keys = ["chat"]) (by decide +kernel)
  have hembedding := holds (fun m => embeddingKeys m.config = []) (by decide +kernel)
  have hkeys := holds (fun m => (planUpdate oneGroup m "chat::a" [("port", .int 8005)]
    [("model_tag", .str "Qwen/Qwen3")]).toOption.all fun plan => (launchers oneGroup.env).all
      fun l => l.keys plan.2.2 = l.keys m.config ∧ l.keys m.config ⊆ ["chat::a"])
    (by decide +kernel)
  refine ⟨fun engine hget => .inl ?_, ⟨fun g hg => ?_, ?_⟩,
    fun inst overlay config hplan k hk _ l hl => ?_⟩
  · rw [hkey] at hget
    rw [hget] at hlaunched
    exact hlaunched
  · obtain ⟨engine, _, hget, -⟩ := hg
    have hmem : g ∈ m.config.llmEngines.keys := List.mem_map_of_mem (Dict.mem_of_get hget)
    rw [of_decide_eq_true hgroups] at hmem
    rw [hkey]
    exact List.mem_singleton.mp hmem
  · rw [of_decide_eq_true hembedding]
    exact List.not_mem_nil
  · rw [hplan] at hkeys
    obtain ⟨hsame, hsole⟩ := of_decide_eq_true (List.all_eq_true.mp hkeys l hl)
    refine ⟨by rw [hsame], fun hmem => absurd (hsole hmem) fun h => hk ?_⟩
    rw [List.mem_singleton.mp h]

theorem noOp_movedAndStarted : ∃ m₀ m, boot oneGroup none = some m₀ ∧
    run (turn oneGroup) m₀ movedAndStarted = some m ∧
      (m.registry.map fun p => (p.1, p.2.port)) = [("chat::a", 8005), ("chat::b", 8002)] ∧
      NoOp oneGroup m := by
  have hany : ((boot oneGroup none).bind fun m => run (turn oneGroup) m movedAndStarted).any
      (fun m => (m.registry.map fun p => (p.1, p.2.port)) = [("chat::a", 8005), ("chat::b", 8002)]) =
        true := by decide +kernel
  obtain ⟨m, hm, hports⟩ := (Option.any_eq_true _ _).mp hany
  obtain ⟨m₀, hboot, hrun⟩ := Option.bind_eq_some_iff.mp hm
  have halong : Along (turn oneGroup) (NoOpGuard oneGroup) m₀ movedAndStarted :=
    ⟨noOpGuard_moved hboot, fun _ _ => ⟨trivial, fun _ _ => ⟨rfl, fun _ _ => trivial⟩⟩⟩
  exact ⟨m₀, m, hboot, hrun, by simpa using hports,
    noOp_of_guarded parsed_none hboot (Reach.of_guarded_run hrun halong)⟩

/-- **A start that breaks it.** The chosen GPU is in the record's spec and not in the fresh one, so that
the import of the unchanged export asks to stop the instance. -/
theorem autoPlaced_conflicts : ∃ m₀ m, boot oneGroup none = some m₀ ∧
    Reach (turn oneGroup) anyEvent m₀ m ∧ ¬ NoOp oneGroup m := by
  have hany : ((boot oneGroup none).bind fun m => run (turn oneGroup) m autoPlaced).any
      (fun m => (exportOverlay m).all fun overlay =>
        (importOverlay oneGroup {} (.obj overlay) false m).2.toOption.isNone) = true := by
    decide +kernel
  obtain ⟨m, hm, hraises⟩ := (Option.any_eq_true _ _).mp hany
  obtain ⟨m₀, hboot, hrun⟩ := Option.bind_eq_some_iff.mp hm
  refine ⟨m₀, m, hboot, Reach.of_run hrun, ?_⟩
  rintro ⟨overlay, hexport, himport⟩
  obtain ⟨m', hok, -⟩ := himport {} rfl fun brought h => by cases h
  rw [hexport, Option.all_some, hok] at hraises
  cases hraises

end Llmops.Config
