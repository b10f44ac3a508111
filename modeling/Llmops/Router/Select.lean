import Llmops.Lib.Utf8
import Llmops.Router.Drain

/-!
# Choosing an instance

`select_instance` and the strategies (`routing_strategies.py:47-269`) with `compute_load_score`
(`vllm_metrics_client.py:25-40`) and `is_backend_in_cooldown` (`backend_runtime_state.py:30-34`). Of an
instance of the roster the code reads the id, and the ids are distinct, so an instance is its id here.

`S` stands for Python's floats: any type with the operations that a score is computed with and with two
comparisons, of which nothing is assumed. What `random` draws is an argument, and so is the number that
`sha1` makes of some bytes. A `SelectContext` has a candidate, since the code raises before it builds one
without. An affinity key is Python text: one with a lone surrogate has no UTF-8, and hashing it raises.

* `mem_of_pick`: every strategy stays in the candidates;
* `select_sound_iff`: which instance may be chosen and when a request is refused, exactly where no
  affinity strategy has to hash a key that UTF-8 cannot encode;
* `select_raises`: such a key.
-/

namespace Llmops.Router

open Lib

/-! ## Scores -/

/-- The weights of a score: `FAIL_OPEN_PENALTY` and `INFLIGHT_WEIGHT`. -/
def failOpenPenalty : Nat := 1000000000

def inflightWeight : Nat := 5

/-- `VLLMInstanceMetrics`, the fields that a selection reads. -/
structure ScrapedMetrics (S : Type) where
  running : S
  waiting : S
  kvCacheUsagePerc : S
  isSleeping : Bool := false

/-- `app.state`, as far as a selection reads it; of `backend_health` the end of the cooldown. -/
structure AppState (S : Type) where
  metricsCache : String → String → Option (ScrapedMetrics S) := fun _ _ => none
  backendInflight : Inflight := fun _ => none
  cooldownUntil : String → Option Time := fun _ => none
  draining : Marks := fun _ => none
  rrCounters : String → Nat := fun _ => 0

section Scores

variable {S : Type} [Add S] [Mul S] [NatCast S]

/-- `compute_load_score`, with its default weights. -/
def ScrapedMetrics.computeLoadScore (m : ScrapedMetrics S) : S :=
  m.waiting * (10 : Nat) + m.running * (3 : Nat) + m.kvCacheUsagePerc * (100 : Nat)

namespace AppState

variable (app : AppState S) (now : Time) (modelKey : String)

/-- `is_backend_in_cooldown`. -/
def isBackendInCooldown (instance_ : String) : Bool :=
  decide (now < (app.cooldownUntil (makeBackendKey ⟨modelKey, instance_⟩)).getD 0)

/-- `is_instance_sleeping`. -/
def isInstanceSleeping (instance_ : String) : Bool :=
  ((app.metricsCache modelKey instance_).map (·.isSleeping)).getD false

/-- `inflight_score`. -/
def inflightScore (instance_ : String) : S :=
  let inflightPenalty : S := getInflight app.backendInflight ⟨modelKey, instance_⟩ * inflightWeight
  let cooldownPenalty : S :=
    if app.isBackendInCooldown now modelKey instance_ then failOpenPenalty else (0 : Nat)
  inflightPenalty + cooldownPenalty

/-- `score_instance`: an instance without metrics counts as idle. -/
def scoreInstance (instance_ : String) : S :=
  let base : S := match app.metricsCache modelKey instance_ with
    | none => (0 : Nat)
    | some metric => metric.computeLoadScore
  let inflightPenalty : S := getInflight app.backendInflight ⟨modelKey, instance_⟩ * inflightWeight
  let cooldownPenalty : S :=
    if app.isBackendInCooldown now modelKey instance_ then failOpenPenalty else (0 : Nat)
  base + inflightPenalty + cooldownPenalty

end AppState

/-- `_least_by`: the first of the least. -/
def leastBy [LT S] [DecidableLT S] (score : String → S) (candidates : List String)
    (h : candidates ≠ []) : String :=
  candidates.tail.foldl (fun best i => if score i < score best then i else best) (candidates.head h)

end Scores

/-! ## Strategies -/

/-- What a selection raises: an `HTTPException`, or the `UnicodeEncodeError` of a key. -/
inductive SelectError where
  | http (e : HttpException)
  | unicodeEncode

/-- `SelectContext`, with what a selection draws at random and the numbers of `sha1`. -/
structure SelectContext (S : Type) where
  app : AppState S
  now : Time
  modelKey : String
  candidates : List String
  allInstances : List String
  sessionKey : Option PyText
  promptPrefix : Option PyText
  margin : S
  draw : Nat × Nat
  sha1 : List UInt8 → Nat
  nonempty : candidates ≠ []

/-- `STRATEGIES`. -/
inductive Strategy where
  | roundRobin | random | leastInflight | leastLoad | p2c | sessionAffinity | prefixAffinity
  deriving DecidableEq, Repr

/-- The names of the strategies. -/
def Strategy.named : String → Option Strategy
  | "round_robin" => some .roundRobin
  | "random" => some .random
  | "least_inflight" => some .leastInflight
  | "least_load" => some .leastLoad
  | "p2c" => some .p2c
  | "session_affinity" => some .sessionAffinity
  | "prefix_affinity" => some .prefixAffinity
  | _ => none

/-- `name = strategy or DEFAULT_STRATEGY`, looked up; an unknown name is the default. -/
def Strategy.ofName (name : Option String) : Strategy :=
  match name with
  | none | some "" => .leastLoad
  | some name => (Strategy.named name).getD .leastLoad

/-- `ring[n % len(ring)]`. -/
def ringAt (ring : List String) (h : ring ≠ []) (n : Nat) : String :=
  ring.get ⟨n % ring.length, Nat.mod_lt _ (List.length_pos_of_ne_nil h)⟩

namespace SelectContext

variable {S : Type} (ctx : SelectContext S)

/-- The roster of `_affinity`: that of the group, or the candidates if it is empty. -/
def roster : List String := if ctx.allInstances = [] then ctx.candidates else ctx.allInstances

theorem roster_ne_nil : ctx.roster ≠ [] := by
  unfold roster
  split_ifs with h
  · exact ctx.nonempty
  · exact h

/-- The roster in the order of the ids. -/
def ring : List String := ctx.roster.insertionSort (· ≤ ·)

theorem ring_ne_nil : ctx.ring ≠ [] := by
  intro h
  have hlength := List.length_insertionSort (· ≤ ·) ctx.roster
  rw [show ctx.roster.insertionSort (· ≤ ·) = [] from h] at hlength
  exact ctx.roster_ne_nil (List.length_eq_zero_iff.mp hlength.symm)

/-- `_hash_key`. -/
def hashKey (key : PyText) : Except SelectError Nat :=
  match encodeUtf8 key with
  | none => .error .unicodeEncode
  | some bytes => .ok (ctx.sha1 bytes)

/-- The home of a key. -/
def home (key : PyText) : Except SelectError String :=
  (ctx.hashKey key).map (ringAt ctx.ring ctx.ring_ne_nil)

/-- `_round_robin`; the turn is counted in `turn`. -/
def roundRobin : String := ringAt ctx.candidates ctx.nonempty (ctx.app.rrCounters ctx.modelKey)

/-- `_random`. -/
def random : String := ringAt ctx.candidates ctx.nonempty ctx.draw.1

variable [Add S] [Mul S] [NatCast S] [LT S] [DecidableLT S]

/-- `_least_inflight`. -/
def leastInflight : String :=
  leastBy (ctx.app.inflightScore ctx.now ctx.modelKey) ctx.candidates ctx.nonempty

/-- `_least_load`. -/
def leastLoad : String :=
  leastBy (ctx.app.scoreInstance ctx.now ctx.modelKey) ctx.candidates ctx.nonempty

/-- `random.sample(candidates, 2)`: two positions, of at least two. -/
def sample (h : 2 ≤ ctx.candidates.length) : List String :=
  let i : Fin ctx.candidates.length :=
    ⟨ctx.draw.1 % ctx.candidates.length, Nat.mod_lt _ (by omega)⟩
  let rest := ctx.candidates.eraseIdx i
  [ctx.candidates.get i, ringAt rest
    (List.ne_nil_of_length_pos (by rw [List.length_eraseIdx_of_lt i.isLt]; omega)) ctx.draw.2]

/-- `_p2c`. -/
def p2c (h : 2 ≤ ctx.candidates.length) : String :=
  leastBy (ctx.app.scoreInstance ctx.now ctx.modelKey) (ctx.sample h) (List.cons_ne_nil _ _)

variable [LE S] [DecidableLE S]

/-- `_affinity`. -/
def affinity (key : Option PyText) : Except SelectError String :=
  match key with
  | none | some [] => .ok ctx.leastLoad
  | some key => do
    let home ← ctx.home key
    let score := ctx.app.scoreInstance ctx.now ctx.modelKey
    let best := ctx.leastLoad
    if home ∈ ctx.candidates ∧ ctx.app.isBackendInCooldown ctx.now ctx.modelKey home = false ∧
        score home ≤ score best + ctx.margin then return home
    else return best

/-- A strategy, for at least two candidates. -/
def pick (h : 2 ≤ ctx.candidates.length) : Strategy → Except SelectError String
  | .roundRobin => .ok ctx.roundRobin
  | .random => .ok ctx.random
  | .leastInflight => .ok ctx.leastInflight
  | .leastLoad => .ok ctx.leastLoad
  | .p2c => .ok (ctx.p2c h)
  | .sessionAffinity => ctx.affinity ctx.sessionKey
  | .prefixAffinity => ctx.affinity ctx.promptPrefix

/-- `rr_counters` after a strategy. -/
def turn : Strategy → String → Nat
  | .roundRobin =>
    Function.update ctx.app.rrCounters ctx.modelKey (ctx.app.rrCounters ctx.modelKey + 1)
  | .random | .leastInflight | .leastLoad | .p2c | .sessionAffinity | .prefixAffinity =>
    ctx.app.rrCounters

end SelectContext

/-! ## The dispatcher -/

/-- A call of `select_instance`. -/
structure SelectCall (S : Type) where
  app : AppState S
  now : Time
  modelKey : String
  instances : List String
  strategy : Option String := none
  exclude : Option (List String) := none
  sessionKey : Option PyText := none
  promptPrefix : Option PyText := none
  margin : S
  draw : Nat × Nat
  sha1 : List UInt8 → Nat

namespace SelectCall

variable {S : Type}

/-- The instances that are left after the exclusions. -/
def remaining (c : SelectCall S) : List String := c.instances.filter (· ∉ c.exclude.getD [])

/-- Of these, the ones that are awake. -/
def awake (c : SelectCall S) : List String :=
  c.remaining.filter fun i => !c.app.isInstanceSleeping c.modelKey i

/-- Of these, the ones that are not draining, or all of them if none is left. -/
def eligible (c : SelectCall S) : List String :=
  let notDraining := c.awake.filter fun i => !isDraining c.app.draining ⟨c.modelKey, i⟩ c.now
  if notDraining = [] then c.awake else notDraining

theorem eligible_ne_nil (c : SelectCall S) (h : c.awake ≠ []) : c.eligible ≠ [] := by
  unfold eligible
  dsimp only
  split_ifs with hdraining
  · exact h
  · exact hdraining

/-- The key that the strategy of the call hashes, if it comes to a strategy. -/
def hashedKey (c : SelectCall S) : Option PyText :=
  if 2 ≤ c.eligible.length then
    match Strategy.ofName c.strategy with
    | .sessionAffinity => c.sessionKey
    | .prefixAffinity => c.promptPrefix
    | _ => none
  else none

/-- The context of the strategies. -/
def context (c : SelectCall S) (h : c.awake ≠ []) : SelectContext S where
  app := c.app
  now := c.now
  modelKey := c.modelKey
  candidates := c.eligible
  allInstances := c.instances
  sessionKey := c.sessionKey
  promptPrefix := c.promptPrefix
  margin := c.margin
  draw := c.draw
  sha1 := c.sha1
  nonempty := c.eligible_ne_nil h

variable [Add S] [Mul S] [NatCast S] [LT S] [DecidableLT S] [LE S] [DecidableLE S]

/-- `select_instance`, with the counters that it leaves. -/
def selectInstance (c : SelectCall S) : Except SelectError String × (String → Nat) :=
  if c.instances = [] then
    (.error (.http ⟨500, "Model '" ++ c.modelKey ++ "' has no instances configured."⟩),
      c.app.rrCounters)
  else if c.remaining = [] then
    (.error (.http ⟨503, "No remaining instance to try for model '" ++ c.modelKey ++ "'."⟩),
      c.app.rrCounters)
  else if h : c.awake = [] then
    (.error (.http ⟨503, "All instances of model '" ++ c.modelKey ++ "' are asleep."⟩),
      c.app.rrCounters)
  else if htwo : 2 ≤ c.eligible.length then
    let strategy := Strategy.ofName c.strategy
    ((c.context h).pick htwo strategy, (c.context h).turn strategy)
  else (.ok (c.eligible.head (c.eligible_ne_nil h)), c.app.rrCounters)

end SelectCall

/-! ## The strategies stay in the candidates -/

section Members

variable {S : Type} [Add S] [Mul S] [NatCast S] [LT S] [DecidableLT S] {ctx : SelectContext S}

theorem ringAt_mem {ring : List String} {h : ring ≠ []} {n : Nat} : ringAt ring h n ∈ ring :=
  List.get_mem ring _

omit [Add S] [Mul S] [NatCast S] in
theorem leastBy_mem {score : String → S} {candidates : List String} {h : candidates ≠ []} :
    leastBy score candidates h ∈ candidates := by
  have hfold : ∀ (rest : List String) (best : String),
      rest.foldl (fun best i => if score i < score best then i else best) best ∈ best :: rest := by
    intro rest
    induction rest with
    | nil => exact fun best => List.mem_cons_self
    | cons i rest ih =>
      intro best
      rw [List.foldl_cons]
      rcases List.mem_cons.mp (ih (if score i < score best then i else best)) with hnew | hrest
      · rw [hnew]
        split_ifs <;> simp
      · exact List.mem_cons_of_mem _ (List.mem_cons_of_mem _ hrest)
  have hmem := hfold candidates.tail (candidates.head h)
  rwa [List.cons_head_tail] at hmem

omit [Add S] [Mul S] [NatCast S] [LT S] [DecidableLT S] in
theorem SelectContext.home_of_noSurrogate {key : PyText} (h : NoSurrogate key) :
    ∃ home, ctx.home key = .ok home := by
  obtain ⟨bytes, hbytes⟩ := Option.isSome_iff_exists.mp (encodeUtf8_isSome_iff.mpr h)
  unfold home hashKey
  rw [hbytes]
  exact ⟨_, rfl⟩

omit [Add S] [Mul S] [NatCast S] [LT S] [DecidableLT S] in
theorem SelectContext.home_of_surrogate {key : PyText} (h : ¬ NoSurrogate key) :
    ctx.home key = .error .unicodeEncode := by
  unfold home hashKey
  rw [Option.not_isSome_iff_eq_none.mp (mt encodeUtf8_isSome_iff.mp h)]
  rfl

theorem leastLoad_mem : ctx.leastLoad ∈ ctx.candidates := leastBy_mem

omit [Add S] [Mul S] [NatCast S] [LT S] [DecidableLT S] in
theorem sample_subset {h : 2 ≤ ctx.candidates.length} {i : String} (hi : i ∈ ctx.sample h) :
    i ∈ ctx.candidates := by
  unfold SelectContext.sample at hi
  rcases List.mem_cons.mp hi with rfl | hrest
  · exact List.get_mem _ _
  · rw [List.mem_singleton.mp hrest]
    exact List.mem_of_mem_eraseIdx ringAt_mem

variable [LE S] [DecidableLE S]

/-- `_affinity` of a key whose home is found. -/
theorem affinity_of_home {key : PyText} {home : String} (hkey : key ≠ [])
    (hhome : ctx.home key = .ok home) : ctx.affinity (some key) = .ok
      (if home ∈ ctx.candidates ∧ ctx.app.isBackendInCooldown ctx.now ctx.modelKey home = false ∧
          ctx.app.scoreInstance ctx.now ctx.modelKey home ≤
            ctx.app.scoreInstance ctx.now ctx.modelKey ctx.leastLoad + ctx.margin then home
        else ctx.leastLoad) := by
  unfold SelectContext.affinity
  split
  · contradiction
  · rename_i heq
    exact absurd (Option.some.inj heq) hkey
  · rename_i heq
    cases heq
    rw [hhome]
    exact (apply_ite Except.ok _ _ _).symm

/-- An affinity strategy raises on the keys that UTF-8 cannot encode. -/
theorem affinity_of_surrogate {key : PyText} (h : ¬ NoSurrogate key) :
    ctx.affinity (some key) = .error .unicodeEncode := by
  unfold SelectContext.affinity
  split
  · contradiction
  · rename_i heq
    rw [Option.some.inj heq] at h
    exact absurd (fun _ h => absurd h List.not_mem_nil) h
  · rename_i heq
    cases heq
    rw [SelectContext.home_of_surrogate h]
    rfl

/-- On the others, and without a key, it returns a candidate: it looks at the whole roster, and
returns the home only if that is one. -/
theorem exists_affinity {key : Option PyText} (h : ∀ k ∈ key, NoSurrogate k) :
    ∃ i ∈ ctx.candidates, ctx.affinity key = .ok i := by
  cases key with
  | none => exact ⟨_, leastLoad_mem, rfl⟩
  | some key =>
    rcases eq_or_ne key [] with rfl | hkey
    · exact ⟨_, leastLoad_mem, rfl⟩
    · obtain ⟨home, hhome⟩ : ∃ home, ctx.home key = .ok home :=
        SelectContext.home_of_noSurrogate (h key rfl)
      refine ⟨_, ?_, affinity_of_home hkey hhome⟩
      split_ifs with hsticks
      · exact hsticks.1
      · exact leastLoad_mem

theorem mem_of_affinity {key : Option PyText} {i : String} (h : ctx.affinity key = .ok i) :
    i ∈ ctx.candidates := by
  by_cases hkey : ∀ k ∈ key, NoSurrogate k
  · obtain ⟨j, hj, haffinity⟩ : ∃ j ∈ ctx.candidates, ctx.affinity key = .ok j :=
      exists_affinity hkey
    exact Except.ok.inj (h.symm.trans haffinity) ▸ hj
  · push Not at hkey
    obtain ⟨k, rfl, hk⟩ := hkey
    exact nomatch (affinity_of_surrogate hk).symm.trans h

/-- **Every strategy** that returns returns a candidate. -/
theorem mem_of_pick {h : 2 ≤ ctx.candidates.length} {strategy : Strategy} {i : String}
    (hi : ctx.pick h strategy = .ok i) : i ∈ ctx.candidates := by
  cases strategy with
  | roundRobin => exact Except.ok.inj hi ▸ ringAt_mem (h := ctx.nonempty)
  | random => exact Except.ok.inj hi ▸ ringAt_mem (h := ctx.nonempty)
  | leastInflight => exact Except.ok.inj hi ▸ leastBy_mem
  | leastLoad => exact Except.ok.inj hi ▸ leastLoad_mem
  | p2c => exact Except.ok.inj hi ▸ sample_subset leastBy_mem
  | sessionAffinity => exact mem_of_affinity hi
  | prefixAffinity => exact mem_of_affinity hi

end Members

/-! ## Selection -/

namespace SelectCall

variable {S : Type} {c : SelectCall S} {i : String}

/-- An instance that may serve: of the roster, not tried yet, awake. -/
structure Serves (c : SelectCall S) (i : String) : Prop where
  roster : i ∈ c.instances
  untried : i ∉ c.exclude.getD []
  awake : c.app.isInstanceSleeping c.modelKey i = false

/-- It takes no new requests. -/
def Drains (c : SelectCall S) (i : String) : Prop :=
  isDraining c.app.draining ⟨c.modelKey, i⟩ c.now = true

/-- **What a selection may come to.** -/
structure Selection (c : SelectCall S) (result : Except SelectError String) : Prop where
  serves : ∀ i, result = .ok i → c.Serves i
  drains : ∀ i, result = .ok i → (∃ j, c.Serves j ∧ ¬ c.Drains j) → ¬ c.Drains i
  empty : (∃ e, result = .error (.http e) ∧ e.statusCode = 500) ↔ c.instances = []
  refused : (∃ e, result = .error (.http e) ∧ e.statusCode = 503) ↔
    c.instances ≠ [] ∧ ∀ i ∈ c.instances, i ∈ c.exclude.getD [] ∨
      c.app.isInstanceSleeping c.modelKey i = true
  raised : ∀ e, result = .error e → ∃ x, e = .http x ∧ (x.statusCode = 500 ∨ x.statusCode = 503)

theorem mem_awake : i ∈ c.awake ↔ c.Serves i := by
  unfold awake remaining
  simp only [List.mem_filter, decide_eq_true_eq, Bool.not_eq_true']
  exact ⟨fun ⟨⟨hroster, huntried⟩, hawake⟩ => ⟨hroster, huntried, hawake⟩,
    fun h => ⟨⟨h.roster, h.untried⟩, h.awake⟩⟩

theorem serves_of_eligible (h : i ∈ c.eligible) : c.Serves i := by
  unfold eligible at h
  dsimp only at h
  split_ifs at h
  · exact mem_awake.mp h
  · exact mem_awake.mp (List.mem_of_mem_filter h)

/-- Beside one that is not draining, a draining instance is no candidate. -/
theorem not_drains_of_eligible (h : i ∈ c.eligible) (hother : ∃ j, c.Serves j ∧ ¬ c.Drains j) :
    ¬ c.Drains i := by
  obtain ⟨j, hserves, hdrains⟩ := hother
  unfold Drains at hdrains
  unfold eligible at h
  dsimp only at h
  have hj : j ∈ c.awake.filter fun i => !isDraining c.app.draining ⟨c.modelKey, i⟩ c.now :=
    List.mem_filter.mpr ⟨mem_awake.mpr hserves, by simpa using hdrains⟩
  rw [if_neg (List.ne_nil_of_mem hj), List.mem_filter] at h
  unfold Drains
  simpa using h.2

/-- Nobody is awake and untried exactly when every instance is excluded or asleep. -/
theorem awake_eq_nil_iff : c.awake = [] ↔ ∀ i ∈ c.instances, i ∈ c.exclude.getD [] ∨
    c.app.isInstanceSleeping c.modelKey i = true := by
  constructor
  · intro hnone i hi
    by_contra hcon
    obtain ⟨huntried, hawake⟩ := not_or.mp hcon
    have hmem : i ∈ c.awake := mem_awake.mpr ⟨hi, huntried, by simpa using hawake⟩
    rw [hnone] at hmem
    exact absurd hmem List.not_mem_nil
  · intro hall
    refine List.eq_nil_iff_forall_not_mem.mpr fun i hi => ?_
    have hserves := mem_awake.mp hi
    rcases hall i hserves.roster with hexcluded | hasleep
    · exact hserves.untried hexcluded
    · rw [hserves.awake] at hasleep
      cases hasleep

theorem awake_ne_nil (h : c.eligible ≠ []) : c.awake ≠ [] := by
  intro hnone
  apply h
  unfold eligible
  rw [hnone]
  rfl

theorem remaining_ne_nil (h : c.awake ≠ []) : c.remaining ≠ [] := by
  intro hnone
  apply h
  unfold awake
  rw [hnone]
  rfl

theorem instances_ne_nil (h : c.remaining ≠ []) : c.instances ≠ [] := by
  intro hnone
  apply h
  unfold remaining
  rw [hnone]
  rfl

variable [Add S] [Mul S] [NatCast S] [LT S] [DecidableLT S] [LE S] [DecidableLE S]

/-- The strategy of a call returns unless it has to hash what UTF-8 cannot encode. -/
theorem exists_pick (h : c.awake ≠ []) (htwo : 2 ≤ c.eligible.length)
    (hkey : ∀ key ∈ c.hashedKey, NoSurrogate key) :
    ∃ i, (c.context h).pick htwo (Strategy.ofName c.strategy) = .ok i := by
  unfold hashedKey at hkey
  rw [if_pos htwo] at hkey
  cases hstrategy : Strategy.ofName c.strategy with
  | sessionAffinity =>
    rw [hstrategy] at hkey
    exact (exists_affinity hkey).imp fun i hi => hi.2
  | prefixAffinity =>
    rw [hstrategy] at hkey
    exact (exists_affinity hkey).imp fun i hi => hi.2
  | roundRobin | random | leastInflight | leastLoad | p2c => exact ⟨_, rfl⟩

/-- What a selection comes to: one error without a roster, another with nobody to serve, else an
eligible instance, or what the strategy raises on its key. -/
theorem selectInstance_cases (c : SelectCall S) :
    (c.instances = [] ∧ ∃ detail, c.selectInstance.1 = .error (.http ⟨500, detail⟩)) ∨
    (c.instances ≠ [] ∧ c.awake = [] ∧
      ∃ detail, c.selectInstance.1 = .error (.http ⟨503, detail⟩)) ∨
    (c.instances ≠ [] ∧ c.awake ≠ [] ∧
      ((∀ key ∈ c.hashedKey, NoSurrogate key) → ∃ i, c.selectInstance.1 = .ok i) ∧
      ∀ i, c.selectInstance.1 = .ok i → i ∈ c.eligible) := by
  unfold selectInstance
  by_cases hempty : c.instances = []
  · rw [if_pos hempty]
    exact .inl ⟨hempty, _, rfl⟩
  rw [if_neg hempty]
  by_cases hremaining : c.remaining = []
  · rw [if_pos hremaining]
    refine .inr (.inl ⟨hempty, ?_, _, rfl⟩)
    unfold awake
    rw [hremaining, List.filter_nil]
  rw [if_neg hremaining]
  by_cases hawake : c.awake = []
  · rw [dif_pos hawake]
    exact .inr (.inl ⟨hempty, hawake, _, rfl⟩)
  rw [dif_neg hawake]
  refine .inr (.inr ⟨hempty, hawake, ?_⟩)
  by_cases htwo : 2 ≤ c.eligible.length
  · rw [dif_pos htwo]
    exact ⟨exists_pick hawake htwo, fun _ => mem_of_pick⟩
  · rw [dif_neg htwo]
    exact ⟨fun _ => ⟨_, rfl⟩, fun i hi => Except.ok.inj hi ▸ List.head_mem _⟩

/-- An instance that was selected may serve. -/
theorem serves_of_selectInstance (h : c.selectInstance.1 = .ok i) : c.Serves i := by
  rcases c.selectInstance_cases with ⟨-, detail, hresult⟩ | ⟨-, -, detail, hresult⟩ |
    ⟨-, -, -, hmem⟩
  · exact nomatch hresult.symm.trans h
  · exact nomatch hresult.symm.trans h
  · exact serves_of_eligible (hmem i h)

/-- A strategy that has to hash what UTF-8 cannot encode raises. -/
theorem selectInstance_of_surrogate {key : PyText} (hkey : key ∈ c.hashedKey)
    (h : ¬ NoSurrogate key) : c.selectInstance.1 = .error .unicodeEncode := by
  unfold hashedKey at hkey
  split_ifs at hkey with htwo
  have heligible : c.eligible ≠ [] := List.ne_nil_of_length_pos (by omega)
  have hawake := awake_ne_nil heligible
  have hremaining := remaining_ne_nil hawake
  unfold selectInstance
  rw [if_neg (instances_ne_nil hremaining), if_neg hremaining, dif_neg hawake, dif_pos htwo]
  cases hstrategy : Strategy.ofName c.strategy <;> rw [hstrategy] at hkey
  case sessionAffinity =>
    show (c.context hawake).affinity c.sessionKey = _
    rw [show c.sessionKey = some key from hkey]
    exact affinity_of_surrogate h
  case prefixAffinity =>
    show (c.context hawake).affinity c.promptPrefix = _
    rw [show c.promptPrefix = some key from hkey]
    exact affinity_of_surrogate h
  all_goals cases hkey

/-- A selection without such a key. -/
theorem selection_of_noSurrogate (hkey : ∀ key ∈ c.hashedKey, NoSurrogate key) :
    c.Selection c.selectInstance.1 := by
  rcases c.selectInstance_cases with ⟨hempty, detail, hresult⟩ | ⟨hsome, hnone, detail, hresult⟩ |
    ⟨hsome, hawake, hok, hmem⟩
  · rw [hresult]
    refine ⟨fun i hok => ?_, fun i hok => ?_, ?_, ?_, fun e he => ?_⟩
    · cases hok
    · cases hok
    · exact iff_of_true ⟨_, rfl, rfl⟩ hempty
    · refine iff_of_false ?_ fun h => h.1 hempty
      rintro ⟨e, he, hcode⟩
      cases he
      simp at hcode
    · cases he
      exact ⟨_, rfl, .inl rfl⟩
  · rw [hresult]
    refine ⟨fun i hok => ?_, fun i hok => ?_, ?_, ?_, fun e he => ?_⟩
    · cases hok
    · cases hok
    · refine iff_of_false ?_ hsome
      rintro ⟨e, he, hcode⟩
      cases he
      simp at hcode
    · exact iff_of_true ⟨_, rfl, rfl⟩ ⟨hsome, awake_eq_nil_iff.mp hnone⟩
    · cases he
      exact ⟨_, rfl, .inr rfl⟩
  · obtain ⟨i, hresult⟩ := hok hkey
    have hi := hmem i hresult
    rw [hresult]
    refine ⟨fun j hok => ?_, fun j hok => ?_, ?_, ?_, fun e he => ?_⟩
    · cases hok
      exact serves_of_eligible hi
    · cases hok
      exact not_drains_of_eligible hi
    · refine iff_of_false ?_ hsome
      rintro ⟨e, he, -⟩
      cases he
    · refine iff_of_false ?_ fun h => hawake (awake_eq_nil_iff.mpr h.2)
      rintro ⟨e, he, -⟩
      cases he
    · cases he

/-- **Selection is sound exactly where no affinity strategy has to hash a key that UTF-8 cannot
encode**, for every strategy, roster and state of the router. -/
theorem select_sound_iff (c : SelectCall S) :
    c.Selection c.selectInstance.1 ↔ ∀ key ∈ c.hashedKey, NoSurrogate key := by
  refine ⟨fun hsound key hkey => ?_, selection_of_noSurrogate⟩
  by_contra h
  obtain ⟨x, hx, -⟩ := hsound.raised _ (selectInstance_of_surrogate hkey h)
  cases hx

/-- A request of user `"\ud83d"`, one half of a surrogate pair, for a group of two. -/
def halfPair : SelectCall Nat where
  app := {}
  now := 0
  modelKey := "chat"
  instances := ["a", "b"]
  strategy := some "session_affinity"
  sessionKey := some [0xD83D]
  margin := 50
  draw := (0, 0)
  sha1 := fun _ => 0

/-- **The key is not encoded**: the selection raises neither 500 nor 503. -/
theorem select_raises : ¬ ∀ c : SelectCall Nat, c.instances.Nodup →
    c.Selection c.selectInstance.1 := by
  intro h
  have hraises : halfPair.selectInstance.1 = .error .unicodeEncode :=
    selectInstance_of_surrogate (c := halfPair) (by decide +kernel : [0xD83D] ∈ halfPair.hashedKey)
      (by decide +kernel)
  obtain ⟨x, hx, -⟩ := (h halfPair (by decide)).raised _ hraises
  cases hx

end SelectCall

end Llmops.Router
