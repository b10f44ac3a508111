import Llmops.Config.Registry
import Llmops.Node.Sections
import Llmops.Router.Metrics
import Llmops.Router.Select
import Llmops.Store.Sources

/-!
# Where an instance is reached

A node publishes the address of each instance that is READY (`_backfill_node_state`,
`reconciler.py:225-240`). The router reads the addresses once a second (`poll_metrics_forever`,
`metrics_poller.py:29-109`), scrapes the instances there (`fetch`, `_safe_fetch` and `fetch_many`,
`vllm_metrics_client.py:81-148`) and keeps them for its requests (`router.py:426-436`). The web is a
function from URLs to responses, another one in each pass; floats are those of the parser.

* `get_liveAddrs`: an instance has the address of its last publication, if that has not lapsed;
* `cached_poll`: what a pass leaves in `metrics_cache`;
* `routed_where_it_runs`: where a request is sent in any run, and where its load was measured.
-/

namespace Llmops.Router

open Lib Lib.Exposition Config Store Metrics

/-! ## Publishing -/

/-- An instance that is published: what it is published with, and the time. -/
structure Ready (τ : Type) where
  nodeId : Option String
  nodeHost : String
  key : String
  host : String
  port : Int
  liveTtl : τ
  now : τ

section Publish

variable {τ : Type} (r : Ready τ)

/-- `settings.node_host or inst.host`. -/
def Ready.routable : String := if r.nodeHost = "" then r.host else r.nodeHost

/-- The call of `_backfill_node_state`. -/
def Ready.call : Call τ :=
  .upsertInstanceLive r.key (partition r.key "::").1 (partition r.key "::").2 r.routable r.port
    r.liveTtl r.nodeId (some ModelState.ready.value) r.now

/-- The row that it writes. -/
def Ready.row [Add τ] : InstanceLive τ where
  key := r.key
  groupKey := (partition r.key "::").1
  instanceId := (partition r.key "::").2
  nodeId := r.nodeId
  host := r.routable
  port := r.port
  state := some ModelState.ready.value
  expiresAt := r.now + r.liveTtl

/-- How `instances_live` is written. -/
def readyWriter [LinearOrder τ] [Add τ] : Writer (liveTable (τ := τ)) (Ready τ) :=
  ⟨fun r => r.call, fun r => r.row, fun _ => rfl⟩

end Publish

/-- What happens to `instances_live`. -/
abbrev LiveCall (τ : Type) [LinearOrder τ] [Add τ] := TableCall (liveTable (τ := τ)) (Ready τ)

/-! ## Scraping -/

/-- A response to a `GET`; `json` is its body, where that is JSON. -/
structure Page where
  status : Nat
  text : Text
  json : Option Json

/-- What is answered, `none` where there is no answer. -/
abbrev Web := String → Option Page

/-- `base_url.rstrip("/")`. -/
def rstripSlash (url : String) : String :=
  .ofList (url.toList.reverse.dropWhile (· = '/')).reverse

/-- The names of the metrics of an engine. -/
structure MetricNames where
  running : String
  waiting : String
  kvCacheUsagePerc : String
  promptTokens : String
  generationTokens : String

/-- `METRIC_NAMES_BY_ENGINE`; an engine that is not there counts as vLLM. -/
def metricNames (engine : String) : MetricNames :=
  if engine = "sglang" then
    ⟨"sglang:num_running_reqs", "sglang:num_queue_reqs", "sglang:token_usage",
      "sglang:prompt_tokens_total", "sglang:generation_tokens_total"⟩
  else
    ⟨"vllm:num_requests_running", "vllm:num_requests_waiting", "vllm:kv_cache_usage_perc",
      "vllm:prompt_tokens", "vllm:generation_tokens"⟩

/-- `VLLMInstanceMetrics`. -/
structure InstanceMetrics (F : Type) extends ScrapedMetrics F where
  baseUrl : String
  promptTokens : F
  generationTokens : F
  rawMetrics : Option Text

section Scrape

variable {F : Type} (fl : Floats F) (inf : F) (web : Web)

/-- `fetch`; `none` where it raises. -/
def fetch (baseUrl engine : String) : Option (InstanceMetrics F) := do
  let page ← web (rstripSlash baseUrl ++ "/metrics")
  guard (200 ≤ page.status ∧ page.status < 300)
  let parsed := parseMetrics fl page.text
  let names := metricNames engine
  let read := fun name => (parsed.get name).getD fl.zero
  return {
    baseUrl
    running := read names.running
    waiting := read names.waiting
    kvCacheUsagePerc := read names.kvCacheUsagePerc
    promptTokens := read names.promptTokens
    generationTokens := read names.generationTokens
    rawMetrics := some page.text }

/-- `_safe_fetch`. -/
def safeFetch (baseUrl engine : String) : InstanceMetrics F :=
  (fetch fl web baseUrl engine).getD
    { baseUrl, running := inf, waiting := inf, kvCacheUsagePerc := inf, promptTokens := inf,
      generationTokens := inf, rawMetrics := none }

/-- `fetch_many`. -/
def fetchMany (backends : Dict (String × String)) : Dict (InstanceMetrics F) :=
  backends.map fun p => (p.1, safeFetch fl inf web p.2.1 p.2.2)

/-- `one` of `_probe_sleeping`. -/
def asleepAt (url : String) : Bool :=
  match web (rstripSlash url ++ "/is_sleeping") with
  | none => false
  | some page =>
    page.status = 200 &&
      match page.json with
      | some (.obj d) => ((Dict.get d "is_sleeping").getD (.bool false)).truthy
      | _ => false

/-- `_probe_sleeping`. -/
def probeSleeping (backends : Dict String) : Dict Bool :=
  backends.map fun p => (p.1, asleepAt web p.2)

end Scrape

/-! ## A pass of the poller -/

/-- `live_addrs`. -/
abbrev Addrs := String × String → Option (String × Int)

/-- One more row. -/
def Addrs.note {τ : Type} (live : Addrs) (r : InstanceLive τ) : Addrs :=
  Function.update live (r.groupKey, r.instanceId) (some (r.host, r.port))

/-- `live_addrs` of the rows that were read. -/
def liveAddrs {τ : Type} (rows : List (InstanceLive τ)) : Addrs :=
  rows.foldl Addrs.note fun _ => none

/-- The live address, or that of the config. -/
def Addrs.of (live : Addrs) (group : String) (inst : InstanceConfig) : String × Int :=
  (live (group, inst.id)).getD (inst.host, inst.port)

/-- `f"http://{host}:{port}"`. -/
def baseUrlOf (addr : String × Int) : String := "http://" ++ addr.1 ++ ":" ++ toString addr.2

/-- `target_url` of a request. -/
def targetUrl (live : Addrs) (group : String) (inst : InstanceConfig) (upstreamPath : String) :
    String := baseUrlOf (live.of group inst) ++ upstreamPath

/-- `f"{model_key}\x00{instance['id']}"`. -/
def composite (group instanceId : String) : String := group ++ "\x00" ++ instanceId

/-- `enable_sleep_mode` of a group. -/
def sleepMode (engine : LLMEngine) : Bool := isSet engine.settings.extra.entries "enable_sleep_mode"

/-- An instance with its group. -/
abbrev Member := String × LLMEngine × InstanceConfig

/-- The key of an instance in the batch. -/
def Member.composite (p : Member) : String := Router.composite p.1 p.2.2.id

/-- `backends`. -/
def backendsOf (live : Addrs) (config : RootConfig) : Dict (String × String) :=
  Dict.update [] ((instancePairs config).map fun p =>
    (Member.composite p, baseUrlOf (live.of p.1 p.2.2), p.2.1.settings.engine.name))

/-- `sleep_backends`; `none` where there is no backend, which there is. -/
def sleepBackends (backends : Dict (String × String)) (config : RootConfig) :
    Option (Dict String) := do
  let pairs ← ((instancePairs config).filter fun p => sleepMode p.2.1).mapM fun p =>
    (backends.get (Member.composite p)).map fun b => (Member.composite p, b.1)
  return Dict.update [] pairs

section Poll

variable {F : Type}

/-- `metrics_cache`. -/
abbrev Cache (F : Type) := Dict (Dict (InstanceMetrics F))

/-- The metrics of an instance. -/
def Cache.of (cache : Cache F) (group instanceId : String) : Option (InstanceMetrics F) :=
  (cache.get group).bind (·.get instanceId)

/-- `if sleeping.get(composite): metric.is_sleeping = True`. -/
def InstanceMetrics.mark (metric : InstanceMetrics F) (asleep : Bool) : InstanceMetrics F :=
  if asleep then { metric with isSleeping := true } else metric

/-- One turn of the loop over `index`; `none` where `flat` has no such key. -/
def cacheOne (flat : Dict (InstanceMetrics F)) (sleeping : Dict Bool) (cache : Cache F)
    (p : Member) : Option (Cache F) := do
  let metric ← flat.get (Member.composite p)
  let metric := metric.mark ((sleeping.get (Member.composite p)).getD false)
  return cache.set p.1 (((cache.get p.1).getD []).set p.2.2.id metric)

/-- What a pass leaves on `app.state`. -/
structure Polled (F : Type) where
  live : Addrs := fun _ => none
  cache : Cache F := []

/-- A pass, with the rows that the store returned, if it did. -/
def poll {τ : Type} (fl : Floats F) (inf : F) (web : Web)
    (rows : Option (List (InstanceLive τ))) (config : RootConfig) : Option (Polled F) := do
  let live := liveAddrs (rows.getD [])
  let backends := backendsOf live config
  let flat := fetchMany fl inf web backends
  let sleeping := probeSleeping web (← sleepBackends backends config)
  return ⟨live, ← (instancePairs config).foldlM (cacheOne flat sleeping) []⟩

end Poll

/-! ## The address of an instance -/

section Address

variable {τ : Type} {rows : List (InstanceLive τ)} {group id : String} {r : InstanceLive τ}

/-- What is kept for a group and an instance: the address of the last row. -/
theorem liveAddrs_eq (k : String × String) : liveAddrs rows k =
    (rows.filter fun r => (r.groupKey, r.instanceId) = k).getLast?.map fun r => (r.host, r.port) := by
  induction rows using List.reverseRecOn with
  | nil => rfl
  | append_singleton rows r ih =>
    unfold liveAddrs at ih ⊢
    rw [List.foldl_concat, Addrs.note, List.filter_append]
    by_cases hk : (r.groupKey, r.instanceId) = k
    · subst hk
      rw [Function.update_self, List.filter_cons_of_pos (by simp), List.filter_nil,
        List.getLast?_concat]
      rfl
    · rw [Function.update_of_ne (Ne.symm hk), ih, List.filter_cons_of_neg (by simpa using hk),
        List.filter_nil, List.append_nil]

/-- The key of an instance, from the parts of a row that has an instance. -/
theorem key_of_partition {key : String} (h : partition key "::" = (group, id)) (hid : id ≠ "") :
    key = glue group id := by
  unfold partition at h
  split at h
  · next before after hsplit =>
    obtain ⟨rfl, rfl⟩ := Prod.mk.inj h
    refine String.toList_inj.mp ?_
    rw [splitFirst_append hsplit]
    simp [glue]
  · obtain ⟨-, rfl⟩ := Prod.mk.inj h
    exact absurd rfl hid

theorem targetUrl_of_some {live : Addrs} {inst : InstanceConfig} {addr : String × Int}
    (h : live (group, inst.id) = some addr) (path : String) :
    targetUrl live group inst path = baseUrlOf addr ++ path := by
  unfold targetUrl Addrs.of
  rw [h]
  rfl

theorem targetUrl_of_none {live : Addrs} {inst : InstanceConfig} (h : live (group, inst.id) = none)
    (path : String) : targetUrl live group inst path = baseUrlOf (inst.host, inst.port) ++ path := by
  unfold targetUrl Addrs.of
  rw [h]
  rfl

variable [LinearOrder τ] [Add τ] {calls : List (LiveCall τ)} {now : τ} {b : Ready τ}

/-- The parts of the key under which an instance is published. -/
theorem partition_of_current (hsplits : Splits group)
    (h : readyWriter.Current calls now (glue group id) b) :
    (b.row.groupKey, b.row.instanceId) = (group, id) := by
  have hkey : b.key = glue group id := Writer.key_of_last h.1
  change partition b.key "::" = (group, id)
  rw [hkey]
  exact partition_glue.mpr hsplits

/-- **The live address** of an instance is that of its last publication, if that has not lapsed. -/
theorem get_liveAddrs (hprune : PrunedBy now (calls.map readyWriter.callOf)) (hsplits : Splits group)
    (hid : id ≠ "") {addr : String × Int} :
    liveAddrs ((tables (calls.map readyWriter.callOf)).listInstancesLive now) (group, id) = some addr ↔
      ∃ b, readyWriter.Current calls now (glue group id) b ∧ addr = (b.routable, b.port) := by
  obtain ⟨bs, hselect, hnodup, hmem⟩ := Writer.exists_sources hprune
  have hrows : (tables (calls.map readyWriter.callOf)).listInstancesLive now =
      bs.map readyWriter.row := hselect
  have hkeys {b : Ready τ} (hb : b ∈ bs) (hpair : (b.row.groupKey, b.row.instanceId) = (group, id)) :
      readyWriter.Current calls now (glue group id) b := by
    have hkey : b.key = glue group id := key_of_partition hpair hid
    have hcurrent := (hmem b).mp hb
    exact hkey ▸ hcurrent
  rw [liveAddrs_eq, hrows]
  constructor
  · intro h
    obtain ⟨r, hr, rfl⟩ := Option.map_eq_some_iff.mp h
    obtain ⟨hin, hpair⟩ := List.mem_filter.mp (List.mem_of_getLast? hr)
    obtain ⟨b, hb, rfl⟩ := List.mem_map.mp hin
    exact ⟨b, hkeys hb (of_decide_eq_true hpair), rfl⟩
  · rintro ⟨b, hb, rfl⟩
    have hpair := partition_of_current hsplits hb
    have hkey : readyWriter.key b = glue group id := Writer.key_of_last hb.1
    have hin : b ∈ bs := (hmem b).mpr (hkey ▸ hb)
    have hfilter : ((bs.map readyWriter.row).filter
        fun r => (r.groupKey, r.instanceId) = (group, id)) ≠ [] :=
      List.ne_nil_of_mem (List.mem_filter.mpr ⟨List.mem_map.mpr ⟨b, hin, rfl⟩, decide_eq_true hpair⟩)
    rw [List.getLast?_eq_some_getLast hfilter, Option.map_some, Option.some_inj]
    obtain ⟨hrow, hpair'⟩ := List.mem_filter.mp (List.getLast_mem hfilter)
    obtain ⟨b', hb', heq⟩ := List.mem_map.mp hrow
    rw [← heq] at hpair' ⊢
    -- one publication of a key is current
    have hlast := (hkeys hb' (of_decide_eq_true hpair')).1
    rw [hb.1] at hlast
    obtain rfl := Option.some.inj hlast
    rfl

/-- Without one, there is no live address. -/
theorem get_liveAddrs_none (hprune : PrunedBy now (calls.map readyWriter.callOf))
    (hsplits : Splits group) (hid : id ≠ "")
    (hnone : ∀ b, ¬ readyWriter.Current calls now (glue group id) b) :
    liveAddrs ((tables (calls.map readyWriter.callOf)).listInstancesLive now) (group, id) = none := by
  rw [← Option.not_isSome_iff_eq_none, Option.isSome_iff_exists]
  rintro ⟨addr, haddr⟩
  obtain ⟨b, hb, -⟩ := (get_liveAddrs hprune hsplits hid).mp haddr
  exact hnone b hb

end Address

/-! ## What a pass leaves -/

/-- Names by which the instances of a config are told apart in a batch. -/
structure WellNamed (config : RootConfig) : Prop where
  distinct : ∀ p ∈ config.llmEngines, (p.2.instances.map (·.id)).Nodup
  noNul : ∀ p ∈ config.llmEngines, '\x00' ∉ p.1.toList

section Pass

variable {config : RootConfig} {live : Addrs} {p q : Member} {group id : String}

theorem composite_injective {group' id' : String} (h : '\x00' ∉ group.toList)
    (h' : '\x00' ∉ group'.toList) (heq : composite group id = composite group' id') :
    group = group' ∧ id = id' := by
  have hsplit {g i : String} (hg : '\x00' ∉ g.toList) :
      splitFirst ['\x00'] (composite g i).toList = some (g.toList, i.toList) := by
    unfold composite
    rw [String.toList_append, String.toList_append, List.append_assoc]
    exact splitFirst_singleton hg
  have hparts := hsplit (i := id) h
  rw [heq, hsplit h', Option.some.injEq, Prod.mk.injEq] at hparts
  exact ⟨String.toList_inj.mp hparts.1.symm, String.toList_inj.mp hparts.2.symm⟩

theorem nodup_members (h : WellNamed config) :
    ((instancePairs config).map fun p => (p.1, p.2.2.id)).Nodup := by
  unfold instancePairs
  rw [List.map_flatMap, List.nodup_flatMap]
  have hgroups : config.llmEngines.Pairwise fun p q => p.1 ≠ q.1 :=
    List.pairwise_map.mp config.unique
  refine ⟨fun p hp => ?_, hgroups.imp fun {p q} hne => ?_⟩
  · rw [List.map_map]
    exact List.Nodup.of_map Prod.snd (by rw [List.map_map]; exact h.distinct p hp)
  · intro x hx hx'
    obtain ⟨i, hi, rfl⟩ := List.mem_map.mp hx
    obtain ⟨j, hj, heq⟩ := List.mem_map.mp hx'
    obtain ⟨i, -, rfl⟩ := List.mem_map.mp hi
    obtain ⟨j, -, rfl⟩ := List.mem_map.mp hj
    exact hne (congrArg Prod.fst heq).symm

theorem nodup_composites (h : WellNamed config) :
    ((instancePairs config).map Member.composite).Nodup := by
  have hmembers := List.pairwise_map.mp (nodup_members h)
  refine List.pairwise_map.mpr (hmembers.imp_of_mem fun {p q} hp hq hne heq => hne ?_)
  have hp' := h.noNul _ (mem_instancePairs.mp hp).1
  have hq' := h.noNul _ (mem_instancePairs.mp hq).1
  obtain ⟨hgroup, hid⟩ := composite_injective hp' hq' heq
  exact Prod.ext hgroup hid

/-- A dictionary of one entry for each instance of some. -/
theorem get_of_members {V : Type} (f : Member → V) {ps : List Member}
    (hnodup : (ps.map Member.composite).Nodup) (hp : p ∈ ps) :
    (Dict.update [] (ps.map fun p => (p.composite, f p))).get p.composite = some (f p) := by
  have hunique : Dict.Unique (ps.map fun p => (p.composite, f p)) := by
    unfold Dict.Unique Dict.keys
    rw [List.map_map]
    exact hnodup
  rw [Dict.get_update hunique, Dict.get_nil, Option.or_none]
  exact Dict.get_of_mem hunique (List.mem_map.mpr ⟨p, hp, rfl⟩)

theorem get_of_notMember {V : Type} (f : Member → V) {ps : List Member} {k : String}
    (hk : ∀ p ∈ ps, p.composite ≠ k) :
    (Dict.update [] (ps.map fun p => (p.composite, f p))).get k = none := by
  have hkeys : k ∉ Dict.keys (ps.map fun p => (p.composite, f p)) := by
    unfold Dict.keys
    rw [List.map_map, List.mem_map]
    rintro ⟨p, hp, rfl⟩
    exact hk p hp rfl
  rw [Dict.get_update_of_notMem hkeys, Dict.get_nil]

theorem get_map {V W : Type} (f : V → W) (d : Dict V) (k : String) :
    Dict.get (d.map fun p => (p.1, f p.2)) k = (d.get k).map f := by
  induction d with
  | nil => rfl
  | cons p d ih =>
    rw [List.map_cons, Dict.get_cons, Dict.get_cons, ih]
    split_ifs <;> rfl

/-- The URL at which an instance is scraped. -/
def Member.url (live : Addrs) (p : Member) : String := baseUrlOf (live.of p.1 p.2.2)

theorem get_backendsOf (h : WellNamed config) (hp : p ∈ instancePairs config) :
    (backendsOf live config).get p.composite =
      some (p.url live, p.2.1.settings.engine.name) :=
  get_of_members (fun p => (p.url live, p.2.1.settings.engine.name)) (nodup_composites h) hp

/-- The instances that are probed. -/
def sleepers (config : RootConfig) : List Member :=
  (instancePairs config).filter fun p => sleepMode p.2.1

/-- Their URLs. -/
def sleeperUrls (live : Addrs) (config : RootConfig) : Dict String :=
  Dict.update [] ((sleepers config).map fun p => (p.composite, p.url live))

theorem sleepBackends_eq (h : WellNamed config) :
    sleepBackends (backendsOf live config) config = some (sleeperUrls live config) := by
  have hpairs : ((sleepers config).mapM fun p =>
      ((backendsOf live config).get p.composite).map fun b => (p.composite, b.1)) =
        some ((sleepers config).map fun p => (p.composite, p.url live)) := by
    rw [mapM_eq_some_iff, List.forall₂_map_right_iff, List.forall₂_same]
    intro p hp
    rw [get_backendsOf h (List.mem_of_mem_filter hp)]
    rfl
  unfold sleepers at hpairs
  unfold sleepBackends
  rw [hpairs]
  rfl

variable {F : Type} {fl : Floats F} {inf : F} {web : Web}

theorem get_fetchMany (h : WellNamed config) (hp : p ∈ instancePairs config) :
    (fetchMany fl inf web (backendsOf live config)).get p.composite =
      some (safeFetch fl inf web (p.url live) p.2.1.settings.engine.name) := by
  have hget := get_map (fun b : String × String => safeFetch fl inf web b.1 b.2)
    (backendsOf live config) p.composite
  rw [get_backendsOf h hp] at hget
  exact hget

/-- Whether an instance is taken to be asleep. -/
theorem get_probeSleeping (h : WellNamed config) (hp : p ∈ instancePairs config) :
    ((probeSleeping web (sleeperUrls live config)).get p.composite).getD false =
      (sleepMode p.2.1 && asleepAt web (p.url live)) := by
  have hnodup := nodup_composites h
  unfold probeSleeping sleeperUrls
  rw [get_map (asleepAt web)]
  by_cases hsleep : sleepMode p.2.1 = true
  · have hin : p ∈ sleepers config := List.mem_filter.mpr ⟨hp, hsleep⟩
    have hsub : ((sleepers config).map Member.composite).Nodup :=
      hnodup.sublist (List.filter_sublist.map _)
    rw [get_of_members (fun p => p.url live) hsub hin, hsleep]
    rfl
  · have hout : ∀ q ∈ sleepers config, q.composite ≠ p.composite := by
      intro q hq heq
      obtain ⟨hq, hsleep'⟩ := List.mem_filter.mp hq
      obtain rfl := List.inj_on_of_nodup_map hnodup hq hp heq
      exact hsleep hsleep'
    rw [get_of_notMember (fun p => p.url live) hout, Bool.eq_false_iff.mpr hsleep]
    rfl

theorem isSleeping_safeFetch (url engine : String) :
    (safeFetch fl inf web url engine).isSleeping = false := by
  unfold safeFetch
  cases hfetch : fetch fl web url engine with
  | none => rfl
  | some m =>
    unfold fetch at hfetch
    simp only [Option.bind_eq_bind, Option.bind_eq_some_iff, Option.pure_def,
      Option.some.injEq] at hfetch
    obtain ⟨page, -, -, -, rfl⟩ := hfetch
    rfl

theorem mark_eq {m : InstanceMetrics F} (h : m.isSleeping = false) (asleep : Bool) :
    m.mark asleep = { m with isSleeping := asleep } := by
  cases asleep with
  | true => rfl
  | false => exact congrArg (fun b => { m with isSleeping := b }) h

/-- What a pass keeps for an instance: what one fetch and one probe say, at its address. -/
def Member.metrics (fl : Floats F) (inf : F) (web : Web) (live : Addrs) (p : Member) :
    InstanceMetrics F :=
  { safeFetch fl inf web (p.url live) p.2.1.settings.engine.name with
    isSleeping := sleepMode p.2.1 && asleepAt web (p.url live) }

theorem of_set {cache : Cache F} {group' id' : String} {m : InstanceMetrics F} :
    Cache.of (cache.set group (((cache.get group).getD []).set id m)) group' id' =
      if (group, id) = (group', id') then some m else cache.of group' id' := by
  unfold Cache.of
  by_cases hgroup : group' = group
  · subst hgroup
    rw [Dict.get_set_self, Option.bind_some, Dict.get_set]
    by_cases hid : id' = id
    · subst hid
      rw [if_pos rfl, if_pos rfl]
    · rw [if_neg hid, if_neg fun h => hid (Prod.mk.inj h).2.symm]
      cases cache.get group' with
      | none => exact Dict.get_nil
      | some d => rfl
  · rw [Dict.get_set_ne hgroup, if_neg fun h => hgroup (Prod.mk.inj h).1.symm]

/-- The loop over `index`, where every instance has its metrics. -/
theorem foldlM_cacheOne {flat : Dict (InstanceMetrics F)} {sleeping : Dict Bool} {ps : List Member}
    {m : Member → InstanceMetrics F}
    (h : ∀ p ∈ ps, ∀ cache, cacheOne flat sleeping cache p =
      some (cache.set p.1 (((cache.get p.1).getD []).set p.2.2.id (m p)))) :
    ∃ cache, ps.foldlM (cacheOne flat sleeping) [] = some cache ∧ ∀ group id,
      Cache.of cache group id =
        (ps.filter fun p => (p.1, p.2.2.id) = (group, id)).getLast?.map m := by
  induction ps using List.reverseRecOn with
  | nil => exact ⟨[], rfl, fun _ _ => rfl⟩
  | append_singleton ps p ih =>
    obtain ⟨cache, hcache, hof⟩ := ih fun q hq => h q (List.mem_append_left _ hq)
    have hp := h p (List.mem_append_right _ List.mem_cons_self) cache
    refine ⟨_, by rw [List.foldlM_append, hcache]; exact (bind_pure _).trans hp, fun group id => ?_⟩
    rw [of_set, hof, List.filter_append]
    by_cases hk : (p.1, p.2.2.id) = (group, id)
    · rw [if_pos hk, List.filter_cons_of_pos (by simpa using hk), List.filter_nil,
        List.getLast?_concat]
      rfl
    · rw [if_neg hk, List.filter_cons_of_neg (by simpa using hk), List.filter_nil, List.append_nil]

variable (fl inf web)

/-- One turn, for an instance of the config. -/
theorem cacheOne_eq (live : Addrs) (h : WellNamed config) (hp : p ∈ instancePairs config)
    (cache : Cache F) :
    cacheOne (fetchMany fl inf web (backendsOf live config))
        (probeSleeping web (sleeperUrls live config)) cache p =
      some (cache.set p.1 (((cache.get p.1).getD []).set p.2.2.id (p.metrics fl inf web live))) := by
  unfold cacheOne
  rw [get_fetchMany h hp, get_probeSleeping h hp]
  simp only [Option.bind_eq_bind, Option.bind_some, mark_eq (isSleeping_safeFetch _ _)]
  rfl

/-- **What a pass leaves** in `metrics_cache`: for each instance what was measured at its address, and
nothing else. -/
theorem cached_poll {τ : Type} (h : WellNamed config) (rows : Option (List (InstanceLive τ))) :
    ∃ cache, poll fl inf web rows config = some ⟨liveAddrs (rows.getD []), cache⟩ ∧
      (∀ p ∈ instancePairs config, cache.of p.1 p.2.2.id =
        some (Member.metrics fl inf web (liveAddrs (rows.getD [])) p)) ∧
      ∀ group id m, Cache.of cache group id = some m →
        ∃ p ∈ instancePairs config, p.1 = group ∧ p.2.2.id = id := by
  obtain ⟨cache, hcache, hof⟩ := foldlM_cacheOne fun p hp cache =>
    cacheOne_eq fl inf web (liveAddrs (rows.getD [])) h hp cache
  refine ⟨cache, ?_, fun p hp => ?_, fun group id m hm => ?_⟩
  · unfold poll
    simp only [sleepBackends_eq h, Option.bind_eq_bind, Option.bind_some, hcache]
    rfl
  · have hlast : (instancePairs config).filter
        (fun q => (q.1, q.2.2.id) = (p.1, p.2.2.id)) ≠ [] :=
      List.ne_nil_of_mem (List.mem_filter.mpr ⟨hp, decide_eq_true rfl⟩)
    rw [hof, List.getLast?_eq_some_getLast hlast, Option.map_some]
    obtain ⟨hq, hsame⟩ := List.mem_filter.mp (List.getLast_mem hlast)
    rw [List.inj_on_of_nodup_map (nodup_members h) hq hp (of_decide_eq_true hsame)]
  · rw [hof] at hm
    obtain ⟨p, hp, -⟩ := Option.map_eq_some_iff.mp hm
    obtain ⟨hin, hsame⟩ := List.mem_filter.mp (List.mem_of_getLast? hp)
    obtain ⟨hgroup, hid⟩ := Prod.mk.inj (of_decide_eq_true hsame)
    exact ⟨p, hin, hgroup, hid⟩

end Pass

/-! ## Runs -/

/-- A router and the table that it reads: what happened to the table, the configuration, and what the
last pass left. -/
structure Watch (τ F : Type) [LinearOrder τ] [Add τ] where
  calls : List (LiveCall τ) := []
  config : RootConfig
  polled : Polled F := {}

/-- A call of the store by any node; a reload; a pass, with what the web answers in it. -/
inductive WatchEvent (τ : Type) [LinearOrder τ] [Add τ] where
  | call (c : LiveCall τ)
  | reload (config : RootConfig)
  | poll (now : τ) (answered : Bool) (web : Web)

section Runs

variable {τ F : Type} [LinearOrder τ] [Add τ] (fl : Floats F) (inf : F)

/-- The rows of a pass. -/
def Watch.rows (s : Watch τ F) (now : τ) (answered : Bool) : Option (List (InstanceLive τ)) :=
  if answered then some ((tables (s.calls.map readyWriter.callOf)).listInstancesLive now) else none

/-- The state after an event. A pass that raises leaves what was there. -/
def Watch.step (s : Watch τ F) : WatchEvent τ → Watch τ F
  | .call c => { s with calls := s.calls ++ [c] }
  | .reload config => { s with config := config }
  | .poll now answered web =>
    { s with polled := (Router.poll fl inf web (s.rows now answered) s.config).getD s.polled }

/-- The state after a list of events. -/
def Watch.run (s : Watch τ F) (es : List (WatchEvent τ)) : Watch τ F := es.foldl (Watch.step fl inf) s

/-- A pass of the poller. -/
def WatchEvent.isPoll : WatchEvent τ → Bool
  | .poll .. => true
  | .call _ | .reload _ => false

/-- **Requests go where the instances run**: to the last address that was published for an instance,
unless that has lapsed or been withdrawn, and else to the one in the config; and the load that the
router holds of an instance was measured there. -/
structure RoutesLive (web : Web) (s : Watch τ F) (now : τ) (answered : Bool) (polled : Polled F) :
    Prop where
  published : ∀ group inst path b, Splits group → inst.id ≠ "" → answered = true →
    readyWriter.Current s.calls now (glue group inst.id) b →
    targetUrl polled.live group inst path = baseUrlOf (b.routable, b.port) ++ path
  unpublished : ∀ group inst path, Splits group → inst.id ≠ "" →
    (answered = true → ∀ b, ¬ readyWriter.Current s.calls now (glue group inst.id) b) →
    targetUrl polled.live group inst path = baseUrlOf (inst.host, inst.port) ++ path
  measured : ∀ group engine inst, (group, engine, inst) ∈ instancePairs s.config →
    ∃ m, polled.cache.of group inst.id = some m ∧
      (∀ path, targetUrl polled.live group inst path = m.baseUrl ++ path) ∧
      m = { safeFetch fl inf web m.baseUrl engine.settings.engine.name with
        isSleeping := sleepMode engine && asleepAt web m.baseUrl }
  only : ∀ group id m, polled.cache.of group id = some m →
    ∃ engine inst, (group, engine, inst) ∈ instancePairs s.config ∧ inst.id = id

variable {fl inf} {s : Watch τ F} {now : τ} {answered : Bool} {web : Web}

theorem baseUrl_safeFetch (url engine : String) : (safeFetch fl inf web url engine).baseUrl = url := by
  unfold safeFetch
  cases hfetch : fetch fl web url engine with
  | none => rfl
  | some m =>
    unfold fetch at hfetch
    simp only [Option.bind_eq_bind, Option.bind_eq_some_iff, Option.pure_def,
      Option.some.injEq] at hfetch
    obtain ⟨page, -, -, -, rfl⟩ := hfetch
    rfl

/-- What a pass leaves. -/
theorem routesLive_poll (hprune : PrunedBy now (s.calls.map readyWriter.callOf))
    (hnamed : WellNamed s.config) :
    RoutesLive fl inf web s now answered (s.step fl inf (.poll now answered web)).polled := by
  obtain ⟨cache, hpoll, hof, honly⟩ := cached_poll fl inf web hnamed (s.rows now answered)
  have hpolled : (s.step fl inf (.poll now answered web)).polled =
      ⟨liveAddrs ((s.rows now answered).getD []), cache⟩ := by
    unfold Watch.step
    simp only [hpoll, Option.getD_some]
  rw [hpolled]
  refine ⟨fun group inst path b hsplits hid hanswered hb => ?_,
    fun group inst path hsplits hid hnone => ?_, fun group engine inst hp => ?_,
    fun group id m hm => ?_⟩
  · refine targetUrl_of_some ?_ path
    unfold Watch.rows
    rw [if_pos hanswered]
    exact (get_liveAddrs hprune hsplits hid).mpr ⟨b, hb, rfl⟩
  · refine targetUrl_of_none ?_ path
    unfold Watch.rows
    split_ifs with hanswered
    · exact get_liveAddrs_none hprune hsplits hid (hnone hanswered)
    · rfl
  · refine ⟨_, hof _ hp, fun path => ?_, ?_⟩
    · unfold Member.metrics
      rw [baseUrl_safeFetch]
      rfl
    · unfold Member.metrics
      rw [baseUrl_safeFetch]
  · obtain ⟨⟨g, engine, inst⟩, hp, rfl, rfl⟩ := honly group id m hm
    exact ⟨engine, inst, hp, rfl⟩

theorem polled_step {e : WatchEvent τ} (h : e.isPoll = false) :
    (s.step fl inf e).polled = s.polled := by
  cases e with
  | call c => rfl
  | reload config => rfl
  | poll now answered web => cases h

/-- Between two passes requests find what the last one left. -/
theorem polled_run {es : List (WatchEvent τ)} (h : ∀ e ∈ es, e.isPoll = false) :
    (s.run fl inf es).polled = s.polled := by
  induction es generalizing s with
  | nil => rfl
  | cons e es ih =>
    obtain ⟨he, hes⟩ := List.forall_mem_cons.mp h
    rw [Watch.run, List.foldl_cons]
    exact (ih hes).trans (polled_step he)

/-- **Where a request is sent** in any run, after the last pass of the poller. -/
theorem routed_where_it_runs {before after : List (WatchEvent τ)}
    (hafter : ∀ e ∈ after, e.isPoll = false)
    (hprune : PrunedBy now ((s.run fl inf before).calls.map readyWriter.callOf))
    (hnamed : WellNamed (s.run fl inf before).config) :
    RoutesLive fl inf web (s.run fl inf before) now answered
      (s.run fl inf (before ++ .poll now answered web :: after)).polled := by
  have hrun : s.run fl inf (before ++ .poll now answered web :: after) =
      ((s.run fl inf before).step fl inf (.poll now answered web)).run fl inf after := by
    unfold Watch.run
    rw [List.foldl_append, List.foldl_cons]
  rw [hrun, polled_run hafter]
  exact routesLive_poll hprune hnamed

end Runs

/-- A group of one instance. -/
def oneInstance : RootConfig where
  server := { host := "0.0.0.0", port := 8947 }
  llmEngines := [("M", { instances := [{ id := "a", port := 8001 }], settings := { modelTag := "M" } })]
  unique := by decide

/-- It is published by one node, goes to another, and is published there. -/
def movedInstance : List (WatchEvent Nat) :=
  [.call (.write ⟨some "n1", "10.0.0.1", "M::a", "localhost", 8001, 30, 0⟩),
    .call (.withdraw "M::a" (.removeInstanceLive "M::a") rfl),
    .call (.write ⟨some "n2", "", "M::a", "10.0.0.2", 8002, 30, 5⟩)]

/-- Its server on the second node has three requests waiting. -/
def movedWeb : Web := fun url =>
  if url = "http://10.0.0.2:8002/metrics" then
    some ⟨200, "vllm:num_requests_waiting 3\n".toList, none⟩
  else none

/-- The pass after that, and a prune. -/
theorem routed_where_it_runs_moved :
    RoutesLive (F := Nat) ⟨fun _ => 3, 0, Nat.add⟩ 9 movedWeb
      ((⟨[], oneInstance, {}⟩ : Watch Nat Nat).run ⟨fun _ => 3, 0, Nat.add⟩ 9 movedInstance) 7 true
      ((⟨[], oneInstance, {}⟩ : Watch Nat Nat).run ⟨fun _ => 3, 0, Nat.add⟩ 9
        (movedInstance ++ .poll 7 true movedWeb :: [.call (.other (.pruneInstancesLive 8)
          fun _ h => by cases h; rfl)])).polled :=
  routed_where_it_runs (List.forall_mem_singleton.mpr rfl) (by
    intro c hc t hprune _
    simp [movedInstance, Watch.run, Watch.step] at hc
    rcases hc with rfl | rfl | rfl <;> cases hprune)
    ⟨fun p hp => by
      obtain rfl := List.mem_singleton.mp hp
      exact List.nodup_singleton _, fun p hp => by
      obtain rfl := List.mem_singleton.mp hp
      decide⟩

end Llmops.Router
