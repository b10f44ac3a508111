import Llmops.Config.Engine

/-!
# The specs that the registry holds (`_resolve_specs`, `resync_registry`)

Change detection compares the spec of each record with the one that the launchers build from the
configuration. Where two launchers find the same key, the last of them counts (`owner`).

* `get_collect`: what `_resolve_specs` has under a key is built by its owner;
* `NoOp`: importing the current export changes nothing; `noOp_of_upToDate`: so it is where every record
  has the spec of its owner;
* `UpToDate.edited`: an edit keeps that if the other keys are found and built as before.
-/

namespace Llmops.Config

open Lib Node

/-! ## The launcher that counts -/

/-- The last launcher that finds the key. -/
def owner (env : LaunchEnv) (c : RootConfig) (key : String) : Option Launcher :=
  (launchers env).reverse.find? fun l => key ∈ l.keys c

section Owner

variable {env : LaunchEnv} {c c' : RootConfig} {key : String} {l : Launcher}

theorem owner_mem (h : owner env c key = some l) : l ∈ launchers env ∧ key ∈ l.keys c :=
  ⟨List.mem_reverse.mp (List.mem_of_find?_eq_some h), by simpa using List.find?_some h⟩

theorem owner_congr (h : ∀ l ∈ launchers env, key ∈ l.keys c' ↔ key ∈ l.keys c) :
    owner env c' key = owner env c key := by
  have hrev : ∀ l ∈ (launchers env).reverse, key ∈ l.keys c' ↔ key ∈ l.keys c :=
    fun l hl => h l (List.mem_reverse.mp hl)
  unfold owner
  generalize (launchers env).reverse = ls at hrev
  induction ls with
  | nil => rfl
  | cons l ls ih =>
    obtain ⟨hl, hls⟩ := List.forall_mem_cons.mp hrev
    rw [List.find?_cons, List.find?_cons, ih hls]
    simp only [hl]

theorem owner_of_sole (hl : l ∈ launchers env) (hkey : key ∈ l.keys c)
    (hsole : ∀ l' ∈ launchers env, key ∈ l'.keys c → l' = l) : owner env c key = some l := by
  have hsome : (owner env c key).isSome := by
    unfold owner
    rw [List.find?_isSome]
    exact ⟨l, List.mem_reverse.mpr hl, by simpa using hkey⟩
  obtain ⟨l', hl'⟩ := Option.isSome_iff_exists.mp hsome
  obtain ⟨hmem, hfound⟩ := owner_mem hl'
  rw [hl', hsole l' hmem hfound]

/-- The last pair of a key, over the launchers in their order. -/
theorem find?_launchKeys :
    (launchKeys env c).reverse.find? (·.2 = key) = (owner env c key).map fun l => (l, key) := by
  unfold launchKeys owner
  induction launchers env with
  | nil => rfl
  | cons l ls ih =>
    rw [List.flatMap_cons, List.reverse_append, List.find?_append, ih, List.reverse_cons,
      List.find?_append, List.find?_singleton]
    have hhere : ((l.keys c).map fun k => (l, k)).reverse.find? (·.2 = key) =
        if key ∈ l.keys c then some (l, key) else none := by
      rw [← List.map_reverse, List.find?_map]
      have hpred : ((fun p : Launcher × String => decide (p.2 = key)) ∘ fun k => (l, k)) =
          fun k => decide (k = key) := rfl
      rw [hpred]
      split_ifs with hk
      · have hmem : key ∈ (l.keys c).reverse := List.mem_reverse.mpr hk
        cases hf : (l.keys c).reverse.find? (· = key) with
        | none => exact absurd (List.find?_eq_none.mp hf key hmem) (by simp)
        | some k =>
          obtain rfl : k = key := by simpa using List.find?_some hf
          rfl
      · rw [List.find?_eq_none.mpr fun k hmem => by
          simpa using fun he : k = key => hk (List.mem_reverse.mp (he ▸ hmem))]
        rfl
    rw [hhere]
    cases ls.reverse.find? fun l => decide (key ∈ l.keys c) with
    | some o => rfl
    | none => by_cases hk : key ∈ l.keys c <;> simp [hk]

variable {V : Type} {f : LaunchSpec → V}

theorem collectKey_eq_ok {out out' : Dict V} {p : Launcher × String}
    (h : collectKey f c out p = .ok out') :
    ∃ spec, p.1.buildSpec c p.2 = .ok spec ∧ out' = out.set p.2 (f spec) := by
  unfold collectKey at h
  cases hspec : p.1.buildSpec c p.2 with
  | error e =>
    rw [hspec] at h
    cases h
  | ok spec =>
    rw [hspec] at h
    exact ⟨spec, rfl, (Except.ok.inj h).symm⟩

theorem get_foldlM_collectKey {ps : List (Launcher × String)} {out reg : Dict V}
    (h : ps.foldlM (collectKey f c) out = .ok reg) :
    (ps.reverse.find? (·.2 = key) = none → reg.get key = out.get key) ∧
      ∀ p, ps.reverse.find? (·.2 = key) = some p →
        ∃ spec, p.1.buildSpec c key = .ok spec ∧ reg.get key = some (f spec) := by
  induction ps generalizing out with
  | nil =>
    cases h
    exact ⟨fun _ => rfl, fun p hp => absurd hp (by simp)⟩
  | cons q ps ih =>
    rw [List.foldlM_cons, bind_eq_ok] at h
    obtain ⟨out', hq, h⟩ := h
    obtain ⟨spec, hspec, rfl⟩ := collectKey_eq_ok hq
    obtain ⟨hnone, hsome⟩ := ih h
    rw [List.reverse_cons, List.find?_append, List.find?_singleton]
    cases hps : ps.reverse.find? (·.2 = key) with
    | some p =>
      rw [Option.some_or]
      exact ⟨fun h => absurd h (by simp), fun p' hp' => hsome p' (hps.trans hp')⟩
    | none =>
      rw [Option.none_or]
      by_cases hk : q.2 = key
      · rw [if_pos (by simpa using hk)]
        refine ⟨fun h => absurd h (by simp), fun p hp => ?_⟩
        cases hp
        exact ⟨spec, hk ▸ hspec, by rw [hnone hps, hk, Dict.get_set_self]⟩
      · rw [if_neg (by simpa using hk)]
        exact ⟨fun _ => by rw [hnone hps, Dict.get_set_ne (Ne.symm hk)],
          fun p hp => absurd hp (by simp)⟩

/-- **What is collected under a key** is built by its owner. -/
theorem get_collect {reg : Dict V} (h : collect f env c = .ok reg) (hl : owner env c key = some l) :
    ∃ spec, l.buildSpec c key = .ok spec ∧ reg.get key = some (f spec) :=
  (get_foldlM_collectKey h).2 (l, key) (by rw [find?_launchKeys, hl]; rfl)

theorem owner_of_get {reg : Dict V} {v : V} (h : collect f env c = .ok reg)
    (hget : reg.get key = some v) :
    ∃ l spec, owner env c key = some l ∧ l.buildSpec c key = .ok spec ∧ v = f spec := by
  cases hl : owner env c key with
  | none =>
    have hnone := (@get_foldlM_collectKey _ key _ f _ [] reg h).1 (by rw [find?_launchKeys, hl]; rfl)
    rw [hget] at hnone
    cases hnone
  | some l =>
    obtain ⟨spec, hspec, hreg⟩ := get_collect h hl
    rw [hget] at hreg
    exact ⟨l, spec, rfl, hspec, Option.some.inj hreg⟩

end Owner

/-! ## Importing the current export -/

/-- `export_overlay`; `none` where the file holds no object. -/
def exportOverlay (m : Manager) : Option (Dict Json) := loadOverlay m.file

/-- The import of the export, without force, succeeds and reports nothing, and leaves the configuration
and every record as it is. So is the overlay, if the router's reload brings it back with the same
content. -/
def NoOp (w : Setup) (m : Manager) : Prop :=
  ∃ overlay, exportOverlay m = some overlay ∧
    ∀ x : Surround, x.saves = true →
      (∀ brought, x.hydrated = some brought → loadOverlay (some brought) = some overlay) →
        ∃ m', importOverlay w x (.obj overlay) false m = (m', .ok (.keys [] [] [])) ∧
          exportOverlay m' = some overlay ∧ m'.config = m.config ∧ m'.registry = m.registry

/-- Every key can be built, and every record has the spec that its owner builds. -/
structure UpToDate (w : Setup) (c : RootConfig) (reg : Registry) : Prop where
  unique : reg.Unique
  builds : ∀ l ∈ launchers w.env, ∀ key ∈ l.keys c, ∃ spec, l.buildSpec c key = .ok spec
  owned : ∀ key inst, reg.get key = some inst → ∃ l, owner w.env c key = some l ∧
    l.buildSpec c key = .ok inst.spec ∧ inst.engine = l.engine

section UpToDate

variable {w : Setup} {c c' : RootConfig} {reg : Registry} {m : Manager} {key : String}
  {desired : Dict LaunchSpec}

theorem sorted_nil : sorted [] = [] := by simp [sorted]

/-- A spec is of the engine of its launcher. -/
theorem buildSpec_engine {l : Launcher} {spec : LaunchSpec} (hl : l ∈ launchers w.env)
    (h : l.buildSpec c key = .ok spec) : spec.engine = l.engine := by
  obtain ⟨r, rfl, -⟩ | rfl := mem_launchers hl
  · obtain ⟨engine, inst, -, -, -, -, hengine, -⟩ := LlmLauncher.buildSpec_eq_ok h
    exact hengine
  · exact (buildEmbeddingSpec_eq_ok h).2.2

/-- The registry that a boot builds. -/
theorem upToDate_build (h : buildRegistry w.env c = .ok reg) : UpToDate w c reg := by
  refine ⟨unique_collect h, collect_isOk.mp ⟨reg, h⟩, fun key inst hget => ?_⟩
  obtain ⟨l, spec, howner, hspec, rfl⟩ := owner_of_get h hget
  exact ⟨l, howner, hspec, buildSpec_engine (owner_mem howner).1 hspec⟩

theorem sublist_filterMap {V : Type} {f : String → Option V} (keys : List String) :
    List.Sublist (Dict.keys (keys.filterMap fun key => (f key).map fun v => (key, v))) keys := by
  induction keys with
  | nil => exact List.Sublist.refl _
  | cons key keys ih =>
    cases h : f key with
    | none =>
      rw [List.filterMap_cons, h]
      exact ih.cons key
    | some v =>
      rw [List.filterMap_cons, h]
      exact ih.cons_cons key

/-- A resync makes no key twice. -/
theorem unique_resync (hu : reg.Unique) (hd : desired.Unique) :
    Dict.Unique (resync reg desired).1 := by
  have hkeys : Dict.keys (resync reg desired).1 =
      Dict.keys (reg.filter fun p => desired.has p.1) ++
        Dict.keys ((sorted (desired.keys.filter fun key => !reg.has key)).filterMap
          fun key => (desired.get key).map fun spec => (key, ModelInstance.ofSpec spec)) := by
    rw [resync, Dict.keys, List.map_append, List.map_map]
    rfl
  have hsub := @sublist_filterMap _ (fun key => (desired.get key).map ModelInstance.ofSpec)
    (sorted (desired.keys.filter fun key => !reg.has key))
  simp only [Option.map_map, Function.comp_def] at hsub
  have hnew : (sorted (desired.keys.filter fun key => !reg.has key)).Nodup :=
    (List.mergeSort_perm _ _).nodup_iff.mpr (hd.filter _)
  unfold Dict.Unique
  rw [hkeys, List.nodup_append]
  refine ⟨hu.sublist (List.filter_sublist.map Prod.fst), hnew.sublist hsub, ?_⟩
  rintro k hk _ hk' rfl
  have hmem := List.mem_filter.mp (mem_sorted.mp (hsub.mem hk'))
  have hhas : reg.has k = true := by
    obtain ⟨p, hp, rfl⟩ := List.mem_map.mp hk
    exact Dict.has_iff.mpr (List.mem_map.mpr ⟨p, (List.mem_filter.mp hp).1, rfl⟩)
  rw [hhas] at hmem
  exact absurd hmem.2 Bool.false_ne_true

/-- **A resync brings the registry up to date.** -/
theorem upToDate_resync (h : resolveSpecs w.env c = .ok desired) (hu : reg.Unique)
    (hself : ∀ key inst, reg.get key = some inst → inst.engine = inst.spec.engine) :
    UpToDate w c (resync reg desired).1 := by
  refine ⟨unique_resync hu (unique_collect h), collect_isOk.mp ⟨desired, h⟩, fun key inst hget => ?_⟩
  obtain ⟨spec, hspec, hcases⟩ := get_resync hget
  obtain ⟨l, _, howner, hbuild, rfl⟩ := owner_of_get h hspec
  have hengine := buildSpec_engine (owner_mem howner).1 hbuild
  obtain rfl | ⟨old, hold, rfl | ⟨rfl, hsame⟩⟩ := hcases
  · exact ⟨l, howner, hbuild, hengine⟩
  · exact ⟨l, howner, hbuild, hengine⟩
  · have hself := hself key inst hold
    rw [hsame] at hself
    exact ⟨l, howner, hsame ▸ hbuild, hself.trans hengine⟩

/-- A record that is up to date is of the engine of its spec. -/
theorem UpToDate.self (h : UpToDate w c reg) {inst : ModelInstance} (hget : reg.get key = some inst) :
    inst.engine = inst.spec.engine := by
  obtain ⟨l, howner, hspec, hengine⟩ := h.owned key inst hget
  rw [hengine, buildSpec_engine (owner_mem howner).1 hspec]

/-- What happens to the processes leaves the specs. -/
theorem UpToDate.stopBusy {x : Surround} {busy : List String} (h : UpToDate w c reg) :
    UpToDate w c (stopBusy x busy reg) := by
  refine ⟨?_, h.builds, fun key inst hget => ?_⟩
  · unfold Dict.Unique
    rw [keys_stopBusy]
    exact h.unique
  · obtain ⟨old, hold, hcases⟩ := get_stopBusy hget
    obtain ⟨l, howner, hspec, hengine⟩ := h.owned key old hold
    have hsame : inst.spec = old.spec ∧ inst.engine = old.engine := by
      obtain rfl | rfl := hcases
      · exact ⟨rfl, rfl⟩
      · cases x.stopped key <;> exact ⟨rfl, rfl⟩
    exact ⟨l, howner, hsame.1 ▸ hspec, hsame.2.trans hengine⟩

/-- A resync to what the records have changes nothing and reports nothing. -/
theorem resync_same (hu : reg.Unique) (hkeys : ∀ key, key ∈ reg.keys ↔ key ∈ desired.keys)
    (hspec : ∀ key inst, reg.get key = some inst → desired.get key = some inst.spec) :
    busyKeys reg desired = [] ∧ resync reg desired = (reg, .keys [] [] []) := by
  have hentry : ∀ p ∈ reg, desired.get p.1 = some p.2.spec :=
    fun p hp => hspec p.1 p.2 (Dict.get_of_mem hu hp)
  have hhas : ∀ p ∈ reg, desired.has p.1 = true :=
    fun p hp => by rw [Dict.has, hentry p hp]; rfl
  have hchanged : changedKeys reg desired = [] := by
    rw [changedKeys, List.map_eq_nil_iff, List.filter_eq_nil_iff]
    intro p hp
    rw [hentry p hp]
    simp
  have hadded : (desired.keys.filter fun key => !reg.has key) = [] := by
    rw [List.filter_eq_nil_iff]
    intro key hkey
    rw [Dict.has_iff.mpr ((hkeys key).mpr hkey)]
    simp
  have hremoved : (reg.keys.filter fun key => !desired.has key) = [] := by
    rw [List.filter_eq_nil_iff]
    intro key hkey
    rw [Dict.has_iff.mpr ((hkeys key).mp hkey)]
    simp
  have hkept : (reg.filter fun p => desired.has p.1) = reg := List.filter_eq_self.mpr hhas
  have hsame : (reg.map fun p => (p.1, refresh desired p.1 p.2)) = reg := by
    refine (List.map_congr_left fun p hp => ?_).trans (List.map_id reg)
    unfold refresh
    rw [hentry p hp]
    simp
  constructor
  · rw [busyKeys, List.map_eq_nil_iff, List.filter_eq_nil_iff]
    intro p hp
    rw [hhas p hp, hchanged]
    simp
  · rw [resync, hadded, hremoved, hkept, hchanged, hsame, sorted_nil, List.filterMap_nil,
      List.append_nil]

/-- The specs of a registry that is up to date. -/
theorem UpToDate.resolves (h : UpToDate w c reg) : ∃ desired, resolveSpecs w.env c = .ok desired ∧
    ∀ key inst, reg.get key = some inst → desired.get key = some inst.spec := by
  obtain ⟨desired, hdesired⟩ := (@collect_isOk _ id w.env c).mpr h.builds
  refine ⟨desired, hdesired, fun key inst hget => ?_⟩
  obtain ⟨l, hl, hspec, -⟩ := h.owned key inst hget
  obtain ⟨spec, hbuilt, hd⟩ := get_collect hdesired hl
  rw [hspec] at hbuilt
  rw [hd, ← Except.ok.inj hbuilt]
  rfl

/-- An overlay that was loaded has its groups. -/
theorem has_loaded {file : Option Json} {overlay : Dict Json}
    (h : loadOverlay file = some overlay) : overlay.has "LLM_engines" = true := by
  cases file with
  | none =>
    cases h
    rfl
  | some v =>
    obtain ⟨d, -, rfl⟩ := Option.map_eq_some_iff.mp h
    rw [Dict.has, Dict.get_setDefault_self]
    rfl

/-- **Importing the export is a no-op** where the registry is up to date. -/
theorem noOp_of_upToDate (hk : Kept w m) (h : UpToDate w m.config m.registry) : NoOp w m := by
  obtain ⟨overlay, hload, hmerged⟩ := Option.bind_eq_some_iff.mp hk.agrees.file
  obtain ⟨desired, hdesired, hspec⟩ := h.resolves
  have hkeys (key : String) : key ∈ m.registry.keys ↔ key ∈ desired.keys :=
    (hk.agrees.keys key).trans (mem_keys_collect hdesired).symm
  obtain ⟨hbusy, hresync⟩ := resync_same h.unique hkeys hspec
  have hengines : overlay.setDefault "LLM_engines" (.obj []) = overlay := if_pos (has_loaded hload)
  have hplan : planImport w m (.obj overlay) false = .ok (overlay, m.config, desired) := by
    rw [planImport, Json.asObj, orRaise]
    simp only [hengines, hmerged, hdesired, hbusy, orRaise, sorted_nil, refuseIf, raiseIf,
      bind, Except.bind, List.isEmpty_nil, Bool.not_true, Bool.false_and, Bool.false_eq_true,
      if_false, pure, Except.pure]
  refine ⟨overlay, hload, fun x hsaves hbrought => ?_⟩
  have hstop : stopBusy x [] m.registry = m.registry := by
    rw [stopBusy]
    simp
  refine ⟨({ m.commit overlay m.config with registry := m.registry }).reload x, ?_, ?_, ?_, ?_⟩
  · rw [importOverlay, hplan]
    simp only [hbusy, hstop, hsaves, hresync, Bool.not_true, Bool.false_eq_true, if_false]
  · unfold Manager.reload
    cases hx : x.hydrated with
    | none =>
      rw [exportOverlay, Manager.commit, loadOverlay, Json.asObj, Option.map_some, hengines]
    | some brought => exact hbrought brought hx
  · unfold Manager.reload
    cases x.hydrated <;> rfl
  · unfold Manager.reload
    cases x.hydrated <;> rfl

/-! ## Edits -/

/-- A launcher finds the key in the group. -/
def Finds (r : LlmLauncher) (c : RootConfig) (group key : String) : Prop :=
  ∃ engine inst, c.llmEngines.get group = some engine ∧ engine.settings.engine = r.engine ∧
    inst ∈ engine.instances ∧ glue group inst.id = key

theorem mem_keys_iff {r : LlmLauncher} : key ∈ r.keys c ↔ ∃ g, Finds r c g key := by
  rw [r.mem_keys]
  constructor
  · rintro ⟨g, engine, inst, hmem, hrest⟩
    exact ⟨g, engine, inst, Dict.get_of_mem c.unique hmem, hrest⟩
  · rintro ⟨g, engine, inst, hget, hrest⟩
    exact ⟨g, engine, inst, Dict.mem_of_get hget, hrest⟩

theorem resolve_congr (h : c'.llmEngines.get (partition key "::").1 =
    c.llmEngines.get (partition key "::").1) : resolve c' key = resolve c key := by
  unfold resolve
  dsimp only
  rw [h]


/-- The key is found by the same launchers, which build the same spec. -/
def SameSpecs (env : LaunchEnv) (c c' : RootConfig) (key : String) : Prop :=
  ∀ l ∈ launchers env, (key ∈ l.keys c' ↔ key ∈ l.keys c) ∧
    (key ∈ l.keys c → l.buildSpec c' key = l.buildSpec c key)

/-- An edit of one key that leaves the specs of the others. -/
theorem UpToDate.edited {reg' : Registry} (h : UpToDate w c reg) (hu : reg'.Unique)
    (hsame : ∀ k, k ≠ key → SameSpecs w.env c c' k)
    (hget : ∀ k, k ≠ key → reg'.get k = reg.get k)
    (hbuilds : ∀ l ∈ launchers w.env, key ∈ l.keys c' → ∃ spec, l.buildSpec c' key = .ok spec)
    (howned : ∀ inst, reg'.get key = some inst → ∃ l, owner w.env c' key = some l ∧
      l.buildSpec c' key = .ok inst.spec ∧ inst.engine = l.engine) :
    UpToDate w c' reg' := by
  refine ⟨hu, fun l hl k hk => ?_, fun k inst hk => ?_⟩
  · by_cases heq : k = key
    · rw [heq] at hk ⊢
      exact hbuilds l hl hk
    · obtain ⟨hiff, hspec⟩ := hsame k heq l hl
      rw [hspec (hiff.mp hk)]
      exact h.builds l hl k (hiff.mp hk)
  · by_cases heq : k = key
    · rw [heq] at hk ⊢
      exact howned inst hk
    · rw [hget k heq] at hk
      obtain ⟨l, hl, hspec, hengine⟩ := h.owned k inst hk
      obtain ⟨hmem, hkey⟩ := owner_mem hl
      refine ⟨l, ?_, ?_, hengine⟩
      · rw [owner_congr fun l hl => (hsame k heq l hl).1, hl]
      · rw [(hsame k heq l hmem).2 hkey, hspec]

/-- A configuration with the same specs for every key. -/
theorem UpToDate.congr (h : UpToDate w c reg) (hsame : ∀ k, SameSpecs w.env c c' k) :
    UpToDate w c' reg := by
  refine ⟨h.unique, fun l hl k hk => ?_, fun k inst hk => ?_⟩
  · obtain ⟨hiff, hspec⟩ := hsame k l hl
    rw [hspec (hiff.mp hk)]
    exact h.builds l hl k (hiff.mp hk)
  · obtain ⟨l, hl, hspec, hengine⟩ := h.owned k inst hk
    obtain ⟨hmem, hkey⟩ := owner_mem hl
    exact ⟨l, by rw [owner_congr fun l hl => (hsame k l hl).1, hl],
      by rw [(hsame k l hmem).2 hkey, hspec], hengine⟩

theorem mem_definedKeys_iff (env : LaunchEnv) :
    key ∈ definedKeys c ↔ ∃ l ∈ launchers env, key ∈ l.keys c := by
  rw [← map_snd_launchKeys env c]
  constructor
  · intro h
    obtain ⟨⟨l, k⟩, hp, rfl⟩ := List.mem_map.mp h
    exact ⟨l, mem_launchKeys.mp hp⟩
  · rintro ⟨l, hl, hk⟩
    exact List.mem_map.mpr ⟨(l, key), mem_launchKeys.mpr ⟨hl, hk⟩, rfl⟩

/-- The keys of a configuration with the same specs. -/
theorem mem_definedKeys_congr (hsame : ∀ k, SameSpecs w.env c c' k) :
    key ∈ definedKeys c' ↔ key ∈ definedKeys c := by
  rw [mem_definedKeys_iff w.env, mem_definedKeys_iff w.env]
  exact exists_congr fun l => and_congr_right fun hl => (hsame key l hl).1

end UpToDate

end Llmops.Config
