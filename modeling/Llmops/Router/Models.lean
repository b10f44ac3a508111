import Llmops.Lib.First
import Llmops.Lib.Json

/-!
# The models that a client may ask for

`resolve_model`, `build_route_chain` and `iter_models` (`lora.py:20-98`). Of a group's entry an
`EngineConfig` has what the router reads: the fields of `model_config`, which are absent where that
is, the fallback list and the ids of the instances. Of an adapter the code reads its served name.

* `chain_wellFormed_iff`: the route chain visits no group twice exactly when no adapter's name in
  the fallback list leads back to a group that the chain already has (`Straight`). The loop tests the
  listed name against the keys of the visited groups, and an adapter's name is not such a key.
* `listsRoutable_iff`: the list of models tells what `resolve_model` does exactly when the adapters'
  names clash with no other name and only chat groups have adapters.
-/

namespace Llmops.Router

open Lib

/-! ## The config -/

/-- A group's entry in the config, as far as the router reads it. -/
structure EngineConfig where
  modelTag : Option String := none
  kind : Option String := none
  loraModules : List String := []
  fallback : List String := []
  instances : List String := []
  deriving DecidableEq, Repr

namespace EngineConfig

/-- `_lora_modules`, their names: the adapters that have one. -/
def loraNames (engine : EngineConfig) : List String := engine.loraModules.filter (· ≠ "")

/-- `engine_kind`. -/
def engineKind (engine : EngineConfig) : String :=
  match engine.kind with
  | none | some "" => "chat"
  | some kind => kind

end EngineConfig

/-- The config of the router: its `LLM_engines`. -/
structure RouterConfig where
  engines : Dict EngineConfig
  unique : engines.Unique

/-- What a requested name resolves to. -/
structure Resolved where
  routeKey : String
  modelCfg : EngineConfig
  forwardName : String
  isLora : Bool
  kind : String
  deriving DecidableEq, Repr

/-- An entry of the list of models. -/
structure ListedModel where
  id : String
  kind : String
  parent : Option String := none
  deriving DecidableEq, Repr

namespace RouterConfig

variable (c : RouterConfig)

/-- `resolve_model`. -/
def resolveModel (requested : String) : Option Resolved :=
  match c.engines.get requested with
  | some engine => some
      { routeKey := requested, modelCfg := engine, forwardName := engine.modelTag.getD requested
        isLora := false, kind := engine.engineKind }
  | none => c.engines.findSome? fun p =>
      if requested ∈ p.2.loraNames then some
        { routeKey := p.1, modelCfg := p.2, forwardName := requested, isLora := true
          kind := p.2.engineKind }
      else none

/-- `engine.get("fallback") or []` of a group. -/
def fallbackOf (group : String) : List String :=
  ((c.engines.get group).map EngineConfig.fallback).getD []

/-- One turn of the loop of `build_route_chain`: the chain and `seen` after a name. -/
def extendChain (primary : Resolved) (acc : List Resolved × List String) (name : String) :
    List Resolved × List String :=
  if name ∈ acc.2 then acc
  else
    match c.resolveModel name with
    | none => acc
    | some target =>
      if target.kind ≠ primary.kind then acc
      else (acc.1 ++ [target], target.routeKey :: acc.2)

/-- `build_route_chain`. -/
def buildRouteChain (primary : Resolved) : List Resolved :=
  ((c.fallbackOf primary.routeKey).foldl (c.extendChain primary)
    ([primary], [primary.routeKey])).1

/-- `iter_models`. -/
def iterModels : List ListedModel :=
  c.engines.flatMap fun p =>
    { id := p.1, kind := p.2.engineKind } ::
      p.2.loraNames.map fun name => { id := name, kind := "chat", parent := some p.1 }

end RouterConfig

variable {c : RouterConfig} {name : String} {primary t : Resolved}

/-! ## Resolution -/

theorem resolveModel_group {engine : EngineConfig} (h : c.engines.get name = some engine) :
    c.resolveModel name = some
      { routeKey := name, modelCfg := engine, forwardName := engine.modelTag.getD name
        isLora := false, kind := engine.engineKind } := by
  unfold RouterConfig.resolveModel
  rw [h]

/-- A name resolves to the group of that name, or to the first group that has an adapter of it. -/
theorem resolveModel_cases (h : c.resolveModel name = some t) :
    c.engines.get t.routeKey = some t.modelCfg ∧ t.kind = t.modelCfg.engineKind ∧
      (t.isLora = false ∧ t.routeKey = name ∨
        t.isLora = true ∧ c.engines.get name = none ∧ name ∈ t.modelCfg.loraNames) := by
  unfold RouterConfig.resolveModel at h
  split at h
  case h_1 engine hget =>
    cases h
    exact ⟨hget, rfl, .inl ⟨rfl, rfl⟩⟩
  case h_2 hget =>
    obtain ⟨p, hp, h⟩ := List.exists_of_findSome?_eq_some h
    split_ifs at h with hmem
    cases h
    exact ⟨Dict.get_of_mem c.unique hp, rfl, .inr ⟨rfl, hget, hmem⟩⟩

/-- A target under the name of a group is that group. -/
theorem routeKey_eq_of_group (h : c.resolveModel name = some t) (hname : name ∈ c.engines.keys) :
    t.routeKey = name := by
  rcases (resolveModel_cases h).2.2 with ⟨-, hkey⟩ | ⟨-, hget, -⟩
  · exact hkey
  · exact absurd hname (Dict.get_eq_none_iff.mp hget)

theorem routeKey_mem (h : c.resolveModel name = some t) : t.routeKey ∈ c.engines.keys :=
  Dict.has_iff.mp (by simp [Dict.has, (resolveModel_cases h).1])

theorem resolveModel_isSome_iff : (c.resolveModel name).isSome ↔
    name ∈ c.engines.keys ∨ ∃ p ∈ c.engines, name ∈ p.2.loraNames := by
  unfold RouterConfig.resolveModel
  split
  case h_1 engine hget =>
    exact iff_of_true rfl (.inl (Dict.has_iff.mp (by simp [Dict.has, hget])))
  case h_2 hget =>
    rw [List.findSome?_isSome_iff, or_iff_right (Dict.get_eq_none_iff.mp hget)]
    refine exists_congr fun p => and_congr_right fun _ => ?_
    split_ifs with h <;> simp [h]

/-! ## The route chain -/

/-- The target of a name, if it has the kind. -/
def RouterConfig.targetOf (c : RouterConfig) (kind name : String) : Option Resolved :=
  (c.resolveModel name).filter fun t => t.kind = kind

/-- What the loop of `build_route_chain` appends, from the groups it has seen on. -/
def RouterConfig.chainFrom (c : RouterConfig) (kind : String) : List String → List String →
    List Resolved
  | _, [] => []
  | seen, name :: names =>
    if name ∈ seen then c.chainFrom kind seen names
    else
      match c.targetOf kind name with
      | none => c.chainFrom kind seen names
      | some t => t :: c.chainFrom kind (t.routeKey :: seen) names

/-- **No way back**: an adapter's name in the list leads to a group that neither `seen` nor the
names before it bring. -/
def RouterConfig.NoWayBack (c : RouterConfig) (kind : String) (seen names : List String) : Prop :=
  ∀ before name after t, names = before ++ name :: after → c.targetOf kind name = some t →
    t.isLora = true → t.routeKey ∉ seen ∧
      ∀ name' ∈ before, ∀ t', c.targetOf kind name' = some t' → t'.routeKey ≠ t.routeKey

/-- The fallback list of the primary's group has no way back. -/
def RouterConfig.Straight (c : RouterConfig) (primary : Resolved) : Prop :=
  c.NoWayBack primary.kind [primary.routeKey] (c.fallbackOf primary.routeKey)

/-- **A well-formed route chain.** -/
structure RouterConfig.WellFormedChain (c : RouterConfig) (primary : Resolved)
    (chain : List Resolved) : Prop where
  head : chain.head? = some primary
  nodup : (chain.map Resolved.routeKey).Nodup
  groups : ∀ t ∈ chain, c.engines.get t.routeKey = some t.modelCfg ∧ t.kind = primary.kind ∧
    t.modelCfg.engineKind = primary.kind
  tail : chain.tail = firstBy Resolved.routeKey [primary.routeKey]
    ((c.fallbackOf primary.routeKey).filterMap (c.targetOf primary.kind))

/-- A chain tries every group that the fallback list of its primary's group finds. -/
theorem RouterConfig.WellFormedChain.reaches {chain : List Resolved}
    (h : c.WellFormedChain primary chain) (hname : name ∈ c.fallbackOf primary.routeKey)
    (ht : c.targetOf primary.kind name = some t) : t.routeKey ∈ chain.map Resolved.routeKey := by
  have hfound : t.routeKey ∈ ((c.fallbackOf primary.routeKey).filterMap
      (c.targetOf primary.kind)).map Resolved.routeKey :=
    List.mem_map_of_mem (List.mem_filterMap.mpr ⟨name, hname, ht⟩)
  rcases mem_firstBy_key.mpr (Or.inr hfound) with hprimary | htail
  · rw [List.mem_singleton.mp hprimary]
    exact List.mem_map_of_mem (List.mem_of_mem_head? h.head)
  · rw [← h.tail] at htail
    exact List.map_subset _ (List.tail_subset chain) htail

variable {kind : String} {seen names : List String}

theorem targetOf_eq_some : c.targetOf kind name = some t ↔
    c.resolveModel name = some t ∧ t.kind = kind := by
  unfold RouterConfig.targetOf
  rw [Option.filter_eq_some_iff, decide_eq_true_eq]

theorem extendChain_eq {chain : List Resolved} :
    c.extendChain primary (chain, seen) name =
      if name ∈ seen then (chain, seen)
      else ((c.targetOf primary.kind name).map fun t =>
        (chain ++ [t], t.routeKey :: seen)).getD (chain, seen) := by
  unfold RouterConfig.extendChain RouterConfig.targetOf
  split_ifs
  · rfl
  · cases c.resolveModel name with
    | none => rfl
    | some t => by_cases hkind : t.kind = primary.kind <;> simp [Option.filter_some, hkind]

theorem foldl_extendChain {chain : List Resolved} :
    (names.foldl (c.extendChain primary) (chain, seen)).1 =
      chain ++ c.chainFrom primary.kind seen names := by
  induction names generalizing chain seen with
  | nil => exact (List.append_nil _).symm
  | cons name names ih =>
    rw [List.foldl_cons, RouterConfig.chainFrom, extendChain_eq]
    by_cases hseen : name ∈ seen
    · rw [if_pos hseen, if_pos hseen, ih]
    rw [if_neg hseen, if_neg hseen]
    cases c.targetOf primary.kind name with
    | none => exact ih
    | some t =>
      rw [Option.map_some, Option.getD_some, ih, List.append_assoc, List.singleton_append]

theorem buildRouteChain_eq : c.buildRouteChain primary =
    primary :: c.chainFrom primary.kind [primary.routeKey] (c.fallbackOf primary.routeKey) := by
  unfold RouterConfig.buildRouteChain
  rw [foldl_extendChain, List.singleton_append]

theorem mem_chainFrom (h : t ∈ c.chainFrom kind seen names) :
    ∃ name ∈ names, c.targetOf kind name = some t := by
  induction names generalizing seen with
  | nil => exact absurd h List.not_mem_nil
  | cons name names ih =>
    rw [RouterConfig.chainFrom] at h
    split_ifs at h with hseen
    · obtain ⟨name', hmem, hname'⟩ := ih h
      exact ⟨name', List.mem_cons_of_mem _ hmem, hname'⟩
    · split at h
      case h_1 =>
        obtain ⟨name', hmem, hname'⟩ := ih h
        exact ⟨name', List.mem_cons_of_mem _ hmem, hname'⟩
      case h_2 t' ht' =>
        rcases List.mem_cons.mp h with rfl | h
        · exact ⟨name, List.mem_cons_self, ht'⟩
        · obtain ⟨name', hmem, hname'⟩ := ih h
          exact ⟨name', List.mem_cons_of_mem _ hmem, hname'⟩

/-! ### The names of a list, one after the other -/

theorem noWayBack_cons_none (h : c.targetOf kind name = none) :
    c.NoWayBack kind seen (name :: names) ↔ c.NoWayBack kind seen names := by
  constructor
  · intro hback before name' after t hsplit ht hlora
    obtain ⟨hseen, hbefore⟩ := hback (name :: before) name' after t (by rw [hsplit]; rfl) ht hlora
    exact ⟨hseen, fun n hn => hbefore n (List.mem_cons_of_mem _ hn)⟩
  · intro hback before name' after t hsplit ht hlora
    rcases List.cons_eq_append_iff.mp hsplit with ⟨rfl, hsplit⟩ | ⟨rest, rfl, hsplit⟩
    · obtain ⟨rfl, -⟩ := List.cons.inj hsplit
      rw [h] at ht
      cases ht
    · obtain ⟨hseen, hrest⟩ := hback rest name' after t (List.cons.inj hsplit).2 ht hlora
      refine ⟨hseen, fun n hn t' ht' => ?_⟩
      rcases List.mem_cons.mp hn with rfl | hn
      · rw [h] at ht'
        cases ht'
      · exact hrest n hn t' ht'

theorem noWayBack_cons_some {t₀ : Resolved} (h : c.targetOf kind name = some t₀) :
    c.NoWayBack kind seen (name :: names) ↔
      (t₀.isLora = true → t₀.routeKey ∉ seen) ∧ c.NoWayBack kind (t₀.routeKey :: seen) names := by
  constructor
  · intro hback
    refine ⟨fun hlora => (hback [] name names t₀ rfl h hlora).1, ?_⟩
    intro before name' after t hsplit ht hlora
    obtain ⟨hseen, hbefore⟩ := hback (name :: before) name' after t (by rw [hsplit]; rfl) ht hlora
    refine ⟨?_, fun n hn => hbefore n (List.mem_cons_of_mem _ hn)⟩
    rw [List.mem_cons, not_or]
    exact ⟨(hbefore name List.mem_cons_self t₀ h).symm, hseen⟩
  · rintro ⟨hfirst, hback⟩ before name' after t hsplit ht hlora
    rcases List.cons_eq_append_iff.mp hsplit with ⟨rfl, hsplit⟩ | ⟨rest, rfl, hsplit⟩
    · obtain ⟨rfl, -⟩ := List.cons.inj hsplit
      rw [h] at ht
      cases ht
      exact ⟨hfirst hlora, fun n hn => absurd hn List.not_mem_nil⟩
    · obtain ⟨hseen, hrest⟩ := hback rest name' after t (List.cons.inj hsplit).2 ht hlora
      rw [List.mem_cons, not_or] at hseen
      refine ⟨hseen.2, fun n hn t' ht' => ?_⟩
      rcases List.mem_cons.mp hn with rfl | hn
      · rw [h] at ht'
        cases ht'
        exact Ne.symm hseen.1
      · exact hrest n hn t' ht'

theorem noWayBack_congr {seen' : List String} (h : ∀ k, k ∈ seen ↔ k ∈ seen') :
    c.NoWayBack kind seen names ↔ c.NoWayBack kind seen' names := by
  unfold RouterConfig.NoWayBack
  simp only [h]

/-- A listed name that was seen is a group, so it adds nothing to what was seen. -/
theorem noWayBack_cons_seen (hgroups : ∀ k ∈ seen, k ∈ c.engines.keys) (hname : name ∈ seen) :
    c.NoWayBack kind seen (name :: names) ↔ c.NoWayBack kind seen names := by
  cases h : c.targetOf kind name with
  | none => exact noWayBack_cons_none h
  | some t =>
    have hresolve := (targetOf_eq_some.mp h).1
    have hkey := routeKey_eq_of_group hresolve (hgroups name hname)
    have hsame : c.NoWayBack kind (t.routeKey :: seen) names ↔ c.NoWayBack kind seen names := by
      refine noWayBack_congr fun k => ?_
      rw [List.mem_cons, hkey, or_iff_right_of_imp]
      rintro rfl
      exact hname
    rw [noWayBack_cons_some h, hsame, and_iff_right]
    intro hlora
    rcases (resolveModel_cases hresolve).2.2 with ⟨hbase, -⟩ | ⟨-, hget, -⟩
    · rw [hbase] at hlora
      cases hlora
    · exact absurd (hgroups name hname) (Dict.get_eq_none_iff.mp hget)

/-- The loop meets no group that it has seen exactly when there is no way back. -/
theorem chainFrom_fresh_iff (hgroups : ∀ k ∈ seen, k ∈ c.engines.keys) :
    (((c.chainFrom kind seen names).map Resolved.routeKey).Nodup ∧
      ∀ t ∈ c.chainFrom kind seen names, t.routeKey ∉ seen) ↔ c.NoWayBack kind seen names := by
  induction names generalizing seen with
  | nil =>
    refine iff_of_true ⟨List.nodup_nil, fun t h => absurd h List.not_mem_nil⟩ ?_
    intro before name after t h
    exact absurd h (by simp)
  | cons name names ih =>
    rw [RouterConfig.chainFrom]
    by_cases hseen : name ∈ seen
    · rw [if_pos hseen, noWayBack_cons_seen hgroups hseen, ih hgroups]
    rw [if_neg hseen]
    split
    case h_1 h => rw [noWayBack_cons_none h, ih hgroups]
    case h_2 t h =>
      have hresolve := (targetOf_eq_some.mp h).1
      have hnew : ∀ k ∈ t.routeKey :: seen, k ∈ c.engines.keys := by
        intro k hk
        rcases List.mem_cons.mp hk with rfl | hk
        · exact routeKey_mem hresolve
        · exact hgroups k hk
      have hbase : t.isLora = false → t.routeKey ∉ seen := by
        intro hbase
        rcases (resolveModel_cases hresolve).2.2 with ⟨-, hkey⟩ | ⟨hlora, -⟩
        · rwa [hkey]
        · rw [hbase] at hlora
          cases hlora
      rw [noWayBack_cons_some h, ← ih hnew]
      simp only [List.map_cons, List.nodup_cons, List.mem_map, List.mem_cons, not_or,
        forall_eq_or_imp, not_exists, not_and]
      constructor
      · rintro ⟨⟨hne, hnodup⟩, hfirst, hrest⟩
        exact ⟨fun _ => hfirst, hnodup, fun t' ht' => ⟨hne t' ht', hrest t' ht'⟩⟩
      · rintro ⟨hfirst, hnodup, hrest⟩
        refine ⟨⟨fun t' ht' => (hrest t' ht').1, hnodup⟩, ?_, fun t' ht' => (hrest t' ht').2⟩
        cases hlora : t.isLora with
        | true => exact hfirst hlora
        | false => exact hbase hlora

/-- Without a way back the loop takes the first occurrences of the groups. -/
theorem chainFrom_eq (hgroups : ∀ k ∈ seen, k ∈ c.engines.keys)
    (h : c.NoWayBack kind seen names) : c.chainFrom kind seen names =
      firstBy Resolved.routeKey seen (names.filterMap (c.targetOf kind)) := by
  induction names generalizing seen with
  | nil => rfl
  | cons name names ih =>
    rw [RouterConfig.chainFrom, List.filterMap_cons]
    by_cases hseen : name ∈ seen
    · rw [if_pos hseen, ih hgroups ((noWayBack_cons_seen hgroups hseen).mp h)]
      split
      case h_1 => rfl
      case h_2 t ht =>
        have hkey := routeKey_eq_of_group (targetOf_eq_some.mp ht).1 (hgroups name hseen)
        rw [firstBy, if_pos (hkey ▸ hseen)]
    rw [if_neg hseen]
    cases ht : c.targetOf kind name with
    | none => exact ih hgroups ((noWayBack_cons_none ht).mp h)
    | some t =>
      obtain ⟨hfirst, hrest⟩ := (noWayBack_cons_some ht).mp h
      have hresolve := (targetOf_eq_some.mp ht).1
      have hfresh : t.routeKey ∉ seen := by
        rcases (resolveModel_cases hresolve).2.2 with ⟨-, hkey⟩ | ⟨hlora, -⟩
        · rwa [hkey]
        · exact hfirst hlora
      have hnew : ∀ k ∈ t.routeKey :: seen, k ∈ c.engines.keys := by
        intro k hk
        rcases List.mem_cons.mp hk with rfl | hk
        · exact routeKey_mem hresolve
        · exact hgroups k hk
      dsimp only
      rw [firstBy, if_neg hfresh, ih hnew hrest]

/-- Every target of the chain is a group of the kind of the primary. -/
theorem mem_buildRouteChain {requested : String} (h : c.resolveModel requested = some primary)
    (ht : t ∈ c.buildRouteChain primary) : c.engines.get t.routeKey = some t.modelCfg ∧
      t.kind = primary.kind ∧ t.modelCfg.engineKind = primary.kind := by
  rw [buildRouteChain_eq] at ht
  rcases List.mem_cons.mp ht with rfl | ht
  · obtain ⟨hget, hkind, -⟩ := resolveModel_cases h
    exact ⟨hget, rfl, hkind.symm⟩
  · obtain ⟨name, -, hname⟩ := mem_chainFrom ht
    obtain ⟨hresolve, hkind⟩ := targetOf_eq_some.mp hname
    obtain ⟨hget, hengine, -⟩ := resolveModel_cases hresolve
    exact ⟨hget, hkind, hengine ▸ hkind⟩

theorem mem_seen_primary {requested : String} (h : c.resolveModel requested = some primary) :
    ∀ k ∈ [primary.routeKey], k ∈ c.engines.keys := by
  intro k hk
  rw [List.mem_singleton.mp hk]
  exact routeKey_mem h

/-- The chain visits no group twice exactly when the fallback list has no way back. -/
theorem nodup_buildRouteChain {requested : String} (h : c.resolveModel requested = some primary) :
    ((c.buildRouteChain primary).map Resolved.routeKey).Nodup ↔ c.Straight primary := by
  have hfresh : _ ↔ c.NoWayBack primary.kind [primary.routeKey] (c.fallbackOf primary.routeKey) :=
    chainFrom_fresh_iff (mem_seen_primary h)
  rw [buildRouteChain_eq, List.map_cons, List.nodup_cons, RouterConfig.Straight, ← hfresh,
    and_comm]
  refine and_congr_right fun _ => ?_
  simp only [List.mem_map, List.mem_singleton, not_exists, not_and]

/-- **The route chain is well formed** exactly when the fallback list has no way back. -/
theorem chain_wellFormed_iff (c : RouterConfig) (requested : String) (primary : Resolved)
    (h : c.resolveModel requested = some primary) :
    c.WellFormedChain primary (c.buildRouteChain primary) ↔ c.Straight primary := by
  constructor
  · intro hchain
    exact (nodup_buildRouteChain h).mp hchain.nodup
  · intro hstraight
    refine ⟨by rw [buildRouteChain_eq]; rfl, (nodup_buildRouteChain h).mpr hstraight,
      fun t ht => mem_buildRouteChain h ht, ?_⟩
    rw [buildRouteChain_eq, List.tail_cons]
    exact chainFrom_eq (mem_seen_primary h) hstraight

/-- A group that falls back to its own adapter. -/
def selfFallback : RouterConfig :=
  ⟨[("Llama", { loraModules := ["sql-lora"], fallback := ["sql-lora"] })], by decide⟩

/-- The chain of that group visits it twice. -/
theorem chain_visits_twice : ¬ ∀ (c : RouterConfig) (requested : String) (primary : Resolved),
    c.resolveModel requested = some primary →
      c.WellFormedChain primary (c.buildRouteChain primary) :=
  fun h => absurd (h selfFallback "Llama" _ rfl).nodup (by decide)

/-- Two groups that fall back to each other, and an adapter that falls back to its group. -/
theorem chain_wellFormed_cycle :
    ∃ (c : RouterConfig) (primary : Resolved), c.resolveModel "A" = some primary ∧
      c.WellFormedChain primary (c.buildRouteChain primary) := by
  refine ⟨⟨[("A", { fallback := ["B", "ghost", "A", "B"] }), ("B", { fallback := ["A"] })],
    by decide⟩, _, rfl, (chain_wellFormed_iff _ "A" _ rfl).mpr ?_⟩
  intro before name after t hsplit ht hlora
  have hname : name ∈ ["B", "ghost", "A", "B"] := by
    rw [show ["B", "ghost", "A", "B"] = before ++ name :: after from hsplit]
    simp
  simp only [List.mem_cons, List.not_mem_nil, or_false] at hname
  rcases hname with rfl | rfl | rfl | rfl <;> (cases ht; try cases hlora)

/-! ## The list of models -/

/-- The served names of the adapters, group by group. -/
def RouterConfig.loraNames (c : RouterConfig) : List String :=
  c.engines.flatMap fun p => p.2.loraNames

/-- **The list of models tells what is routable**: its ids are the names that resolve, each once,
with the kind and, for an adapter, with the group that the name resolves to. -/
structure RouterConfig.ListsRoutable (c : RouterConfig) : Prop where
  ids : ∀ name, (∃ m ∈ c.iterModels, m.id = name) ↔ (c.resolveModel name).isSome
  nodup : (c.iterModels.map ListedModel.id).Nodup
  kind : ∀ m ∈ c.iterModels, ∀ t, c.resolveModel m.id = some t → m.kind = t.kind
  parent : ∀ m ∈ c.iterModels, ∀ group, m.parent = some group →
    ∀ t, c.resolveModel m.id = some t → t.routeKey = group

/-- **The names of the adapters are their own**: they clash neither with each other nor with the
groups. -/
structure RouterConfig.NamesApart (c : RouterConfig) : Prop where
  loras : c.loraNames.Nodup
  groups : ∀ name ∈ c.loraNames, name ∉ c.engines.keys

/-- Only chat groups have adapters. -/
def RouterConfig.LorasChat (c : RouterConfig) : Prop :=
  ∀ p ∈ c.engines, p.2.loraNames ≠ [] → p.2.engineKind = "chat"

variable {m : ListedModel}

theorem mem_iterModels : m ∈ c.iterModels ↔ ∃ p ∈ c.engines,
    m = ⟨p.1, p.2.engineKind, none⟩ ∨ ∃ name ∈ p.2.loraNames, m = ⟨name, "chat", some p.1⟩ := by
  unfold RouterConfig.iterModels
  simp only [List.mem_flatMap, List.mem_cons, List.mem_map, eq_comm]

theorem mem_loraNames : name ∈ c.loraNames ↔ ∃ p ∈ c.engines, name ∈ p.2.loraNames :=
  List.mem_flatMap

/-- The ids are the groups and the names of the adapters, in another order. -/
theorem ids_perm : (c.iterModels.map ListedModel.id).Perm (c.engines.keys ++ c.loraNames) := by
  unfold RouterConfig.iterModels RouterConfig.loraNames Dict.keys
  induction c.engines with
  | nil => exact List.Perm.refl _
  | cons p engines ih =>
    simp only [List.flatMap_cons, List.map_append, List.map_cons, List.map_map,
      Function.comp_def, List.map_id', List.cons_append, List.perm_cons]
    refine (ih.append_left _).trans ?_
    rw [← List.append_assoc, ← List.append_assoc]
    exact List.perm_append_comm.append_right _

theorem ids_nodup_iff : (c.iterModels.map ListedModel.id).Nodup ↔ c.NamesApart := by
  rw [ids_perm.nodup_iff, List.nodup_append]
  constructor
  · rintro ⟨-, hloras, hapart⟩
    exact ⟨hloras, fun name hname hgroup => hapart name hgroup name hname rfl⟩
  · rintro ⟨hloras, hgroups⟩
    refine ⟨c.unique, hloras, fun group hgroup name hname heq => ?_⟩
    exact hgroups name hname (heq ▸ hgroup)

/-- An adapter of its own name resolves to the group that has it. -/
theorem RouterConfig.NamesApart.resolve (h : c.NamesApart) {p : String × EngineConfig}
    (hp : p ∈ c.engines) (hname : name ∈ p.2.loraNames) (ht : c.resolveModel name = some t) :
    t.routeKey = p.1 ∧ t.kind = p.2.engineKind := by
  obtain ⟨hget, hkind, ⟨-, hkey⟩ | ⟨-, -, hmem⟩⟩ := resolveModel_cases ht
  · exact absurd (hkey ▸ routeKey_mem ht) (h.groups name (mem_loraNames.mpr ⟨p, hp, hname⟩))
  · have hpair := (List.nodup_flatMap.mp h.loras).2
    have hsame : (t.routeKey, t.modelCfg) = p := by
      by_contra hne
      have hsymm : Std.Symm (Function.onFun List.Disjoint
          fun p : String × EngineConfig => p.2.loraNames) := ⟨fun _ _ h => List.Disjoint.symm h⟩
      exact hpair.forall (Dict.mem_of_get hget) hp hne hmem hname
    subst hsame
    exact ⟨rfl, hkind⟩

theorem listed_iff : (∃ m ∈ c.iterModels, m.id = name) ↔ (c.resolveModel name).isSome := by
  rw [resolveModel_isSome_iff, ← List.mem_map, ids_perm.mem_iff, List.mem_append, mem_loraNames]

/-- A listed model is a group, with the group's kind, or an adapter, with the group as parent. -/
theorem RouterConfig.NamesApart.listed (h : c.NamesApart) (hm : m ∈ c.iterModels)
    (ht : c.resolveModel m.id = some t) :
    m.kind = t.kind ∧ m.parent = none ∨
      m.kind = "chat" ∧ m.parent = some t.routeKey ∧
        ∃ p ∈ c.engines, p.2.loraNames ≠ [] ∧ p.2.engineKind = t.kind := by
  obtain ⟨p, hp, rfl | ⟨name, hname, rfl⟩⟩ := mem_iterModels.mp hm
  · rw [resolveModel_group (Dict.get_of_mem c.unique hp)] at ht
    cases ht
    exact .inl ⟨rfl, rfl⟩
  · obtain ⟨hkey, hkind⟩ := h.resolve hp hname ht
    exact .inr ⟨rfl, hkey ▸ rfl, p, hp, List.ne_nil_of_mem hname, hkind.symm⟩

/-- **The list of models tells what is routable** exactly when the adapters' names are their own
and only chat groups have adapters. -/
theorem listsRoutable_iff (c : RouterConfig) : c.ListsRoutable ↔ c.NamesApart ∧ c.LorasChat := by
  constructor
  · intro hlist
    have hapart := ids_nodup_iff.mp hlist.nodup
    refine ⟨hapart, fun p hp hsome => ?_⟩
    obtain ⟨name, hname⟩ := List.exists_mem_of_ne_nil _ hsome
    have hm : (⟨name, "chat", some p.1⟩ : ListedModel) ∈ c.iterModels :=
      mem_iterModels.mpr ⟨p, hp, .inr ⟨name, hname, rfl⟩⟩
    obtain ⟨t, ht⟩ := Option.isSome_iff_exists.mp ((hlist.ids name).mp ⟨_, hm, rfl⟩)
    rw [← (hapart.resolve hp hname ht).2]
    exact (hlist.kind _ hm t ht).symm
  · rintro ⟨hapart, hchat⟩
    refine ⟨fun name => listed_iff, ids_nodup_iff.mpr hapart, fun m hm t ht => ?_, ?_⟩
    · rcases hapart.listed hm ht with ⟨hkind, -⟩ | ⟨hkind, -, p, hp, hsome, hp'⟩
      · exact hkind
      · rw [hkind, ← hp', hchat p hp hsome]
    · intro m hm group hgroup t ht
      rcases hapart.listed hm ht with ⟨-, hparent⟩ | ⟨-, hparent, -⟩
      · rw [hparent] at hgroup
        cases hgroup
      · exact Option.some.inj (hparent.symm.trans hgroup)

/-- An adapter of an embedding group is listed as a chat model. -/
theorem embedLora_listed_chat :
    ¬ ∀ c : RouterConfig, c.ListsRoutable := by
  intro h
  have hkind := (h ⟨[("bge", { kind := some "embed", loraModules := ["bge-law"] })], by decide⟩).kind
    ⟨"bge-law", "chat", some "bge"⟩ (by decide) _ rfl
  exact absurd hkind (by decide)

end Llmops.Router
