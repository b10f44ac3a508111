import Llmops.Keys.Gate
import Llmops.Lib.GroupBy
import Llmops.Lib.Lapse

/-!
# What the requests cost

`token_usage_by_model`, `token_usage_by_key` and the price table (`llmops_store.py:556-634`),
`build_summary` (`services/cost.py`) and `cost_summary` (`api/cost.py:29-41`). Money is exact: the
floats are rationals, and `round(x, 6)` is a parameter. The groups of a query come in whatever order.

* `lineCost_usage`: a price for the sums is the sum of the prices;
* `keys_of_rows`: the loop over the rows of keys and models leaves the totals of each key;
* `summary_accounts`: the summary, said of the requests one by one.
-/

namespace Llmops.Billing

open Lib Keys

/-! ## The tables -/

/-- A row of `request_logs`, as far as it is priced. -/
structure RequestRow extends LogRow where
  modelKey : String
  promptTokens : Option Int
  completionTokens : Option Int

/-- A row of `model_prices`. -/
structure ModelPrice where
  model : String
  inputPrice : ℚ
  outputPrice : ℚ
  currency : String

/-- `model_prices`, with its primary key. -/
structure ModelPrices where
  rows : List ModelPrice := []
  nodup : (rows.map ModelPrice.model).Nodup := by exact List.nodup_nil

namespace ModelPrices

/-- `set_model_price`. -/
def setModelPrice (t : ModelPrices) (row : ModelPrice) : ModelPrices :=
  ⟨Lapse.upsert ModelPrice.model t.rows row, Lapse.nodup_upsert t.nodup⟩

/-- `delete_model_price`, and whether there was a row. -/
def deleteModelPrice (t : ModelPrices) (model : String) : Bool × ModelPrices :=
  (t.rows.any (·.model = model), ⟨Lapse.remove ModelPrice.model t.rows model,
    t.nodup.sublist (List.filter_sublist.map _)⟩)

/-- `list_model_prices`. -/
def listModelPrices (t : ModelPrices) : List ModelPrice := t.rows.mergeSort (·.model ≤ ·.model)

/-- The price of a model, if it has one. -/
def find (t : ModelPrices) (model : String) : Option ModelPrice := t.rows.find? (·.model = model)

end ModelPrices

/-- `_ts_window`. -/
def inWindow (since till : Option Time) (r : RequestRow) : Bool :=
  (∀ t ∈ since, t ≤ r.ts) ∧ ∀ t ∈ till, r.ts ≤ t

/-- The counts of a group of rows. -/
structure Usage where
  requests : Nat := 0
  promptTokens : Int := 0
  completionTokens : Int := 0
  totalTokens : Int := 0
  deriving DecidableEq

/-- `COUNT(*)` and `COALESCE(SUM(...), 0)`. -/
def usageOf (rows : List RequestRow) : Usage where
  requests := rows.length
  promptTokens := (rows.map fun r => r.promptTokens.getD 0).sum
  completionTokens := (rows.map fun r => r.completionTokens.getD 0).sum
  totalTokens := (rows.map fun r => r.totalTokens.getD 0).sum

/-- A row of `token_usage_by_model`. -/
structure ModelUsage extends Usage where
  modelKey : String

/-- A row of `token_usage_by_key`. -/
structure KeyUsage extends Usage where
  name : String
  modelKey : String

/-- `token_usage_by_model`. -/
def tokenUsageByModel (log : List RequestRow) (since till : Option Time) : List ModelUsage :=
  ((groupBy RequestRow.modelKey (log.filter (inWindow since till))).map fun g =>
    { usageOf g.2 with modelKey := g.1 }).mergeSort fun u v => v.totalTokens ≤ u.totalTokens

/-- The name and the model of a request that a key made. -/
def namedModel (r : RequestRow) : String × String := (r.apiKeyName.getD "", r.modelKey)

/-- `token_usage_by_key`. -/
def tokenUsageByKey (log : List RequestRow) (since till : Option Time) : List KeyUsage :=
  (groupBy namedModel
    ((log.filter (inWindow since till)).filter fun r => r.apiKeyName.isSome)).map fun g =>
      { usageOf g.2 with name := g.1.1, modelKey := g.1.2 }

/-! ## `build_summary` -/

/-- `PER`. -/
def per : ℚ := 1000000

/-- `_rate`. -/
def rate (price : Option ModelPrice) (defaultIn defaultOut : ℚ) : ℚ × ℚ :=
  match price with
  | none => (defaultIn, defaultOut)
  | some p => (p.inputPrice, p.outputPrice)

/-- `line_cost`. -/
def lineCost (promptTokens completionTokens : Int) (price : Option ModelPrice)
    (defaultIn defaultOut : ℚ) : ℚ :=
  promptTokens / per * (rate price defaultIn defaultOut).1 +
    completionTokens / per * (rate price defaultIn defaultOut).2

/-- An entry of `models`. -/
structure ModelCost extends Usage where
  model : String
  inputPrice : ℚ
  outputPrice : ℚ
  priced : Bool
  cost : ℚ
  deriving DecidableEq

/-- An entry of `keys`. -/
structure KeyCost extends Usage where
  name : String
  cost : ℚ := 0
  deriving DecidableEq

structure Summary where
  currency : String
  totalCost : ℚ
  defaultInputPrice : ℚ
  defaultOutputPrice : ℚ
  anyUnpriced : Bool
  byModel : List ModelCost
  byKey : List KeyCost

section Summary

variable (round : ℚ → ℚ) (defaultIn defaultOut : ℚ)

/-- `price_by_model`. -/
def priceByModel (prices : List ModelPrice) : Dict ModelPrice :=
  prices.foldl (fun d p => d.set p.model p) []

/-- The cost of a row. -/
def Usage.cost (u : Usage) (price : Option ModelPrice) : ℚ :=
  lineCost u.promptTokens u.completionTokens price defaultIn defaultOut

/-- What is appended to `models`. -/
def modelCost (d : Dict ModelPrice) (row : ModelUsage) : ModelCost :=
  { row.toUsage with
    model := row.modelKey
    inputPrice := (rate (d.get row.modelKey) defaultIn defaultOut).1
    outputPrice := (rate (d.get row.modelKey) defaultIn defaultOut).2
    priced := (d.get row.modelKey).isSome
    cost := round (row.cost defaultIn defaultOut (d.get row.modelKey)) }

/-- What a row adds to the entry of its key. -/
def KeyCost.add (d : Dict ModelPrice) (k : KeyCost) (row : KeyUsage) : KeyCost where
  name := k.name
  requests := k.requests + row.requests
  promptTokens := k.promptTokens + row.promptTokens
  completionTokens := k.completionTokens + row.completionTokens
  totalTokens := k.totalTokens + row.totalTokens
  cost := k.cost + row.cost defaultIn defaultOut (d.get row.modelKey)

/-- `keys`. -/
def keyCosts (d : Dict ModelPrice) (byKey : List KeyUsage) : Dict KeyCost :=
  accumulate KeyUsage.name (KeyCost.add defaultIn defaultOut d) (fun name => { name := name }) byKey

/-- `build_summary`. -/
def buildSummary (byModel : List ModelUsage) (byKey : List KeyUsage) (prices : List ModelPrice)
    (currency : String) : Summary :=
  let d := priceByModel prices
  let models := byModel.map (modelCost round defaultIn defaultOut d)
  { currency := currency
    totalCost := round (byModel.foldl
      (fun total row => total + row.cost defaultIn defaultOut (d.get row.modelKey)) 0)
    defaultInputPrice := defaultIn
    defaultOutputPrice := defaultOut
    anyUnpriced := models.any fun m => !m.priced
    byModel := models
    byKey := ((keyCosts defaultIn defaultOut d byKey).map fun entry =>
      { entry.2 with cost := round entry.2.cost }).mergeSort fun r s => s.cost ≤ r.cost }

/-! ## The requests one by one -/

variable (prices : ModelPrices)

/-- What one request costs. -/
def requestCost (r : RequestRow) : ℚ :=
  lineCost (r.promptTokens.getD 0) (r.completionTokens.getD 0) (prices.find r.modelKey) defaultIn
    defaultOut

/-- What the requests of a model come to. -/
def modelRow (model : String) (rows : List RequestRow) : ModelCost :=
  { usageOf rows with
    model := model
    inputPrice := (rate (prices.find model) defaultIn defaultOut).1
    outputPrice := (rate (prices.find model) defaultIn defaultOut).2
    priced := (prices.find model).isSome
    cost := round ((rows.map (requestCost defaultIn defaultOut prices)).sum) }

/-- What the requests of a key come to. -/
def keyRow (name : String) (rows : List RequestRow) : KeyCost :=
  { usageOf rows with
    name := name
    cost := round ((rows.map (requestCost defaultIn defaultOut prices)).sum) }

/-- A summary that accounts for `rows` by model and for `keyed` by key, each request once. -/
structure Accounts (rows keyed : List RequestRow) (s : Summary) : Prop where
  total : s.totalCost = round ((rows.map (requestCost defaultIn defaultOut prices)).sum)
  unpriced : s.anyUnpriced = true ↔ ∃ r ∈ rows, prices.find r.modelKey = none
  models : (s.byModel.map (·.model)).Nodup
  byModel : ∀ row, row ∈ s.byModel ↔ ∃ m, (∃ r ∈ rows, r.modelKey = m) ∧
    row = modelRow round defaultIn defaultOut prices m (rows.filter fun r => r.modelKey = m)
  names : (s.byKey.map (·.name)).Nodup
  byKey : ∀ row, row ∈ s.byKey ↔ ∃ n, (∃ r ∈ keyed, r.apiKeyName = some n) ∧
    row = keyRow round defaultIn defaultOut prices n (keyed.filter fun r => r.apiKeyName = some n)
  ordered : s.byKey.Pairwise fun r s => s.cost ≤ r.cost

variable {round defaultIn defaultOut prices} {log later rows : List RequestRow}
  {since till : Option Time} {byModel : List ModelUsage} {byKey : List KeyUsage}

theorem mem_of_find {m : String} {p : ModelPrice} (h : prices.find m = some p) :
    p ∈ prices.rows ∧ p.model = m := by
  unfold ModelPrices.find at h
  have hmodel := List.find?_some h
  exact ⟨List.mem_of_find?_eq_some h, of_decide_eq_true hmodel⟩

theorem find_eq_some_iff {m : String} {p : ModelPrice} :
    prices.find m = some p ↔ p ∈ prices.rows ∧ p.model = m := by
  refine ⟨mem_of_find, ?_⟩
  rintro ⟨hp, rfl⟩
  have hsome : (prices.find p.model).isSome := by
    unfold ModelPrices.find
    rw [List.find?_isSome]
    exact ⟨p, hp, decide_eq_true rfl⟩
  obtain ⟨q, hq⟩ := Option.isSome_iff_exists.mp hsome
  obtain ⟨hmem, hmodel⟩ := mem_of_find hq
  rw [hq, List.inj_on_of_nodup_map prices.nodup hmem hp hmodel]

/-- The dictionary of the prices finds them as the table does. -/
theorem get_priceByModel (prices : ModelPrices) (m : String) :
    (priceByModel prices.listModelPrices).get m = prices.find m := by
  have hupdate : priceByModel prices.listModelPrices =
      Dict.update [] (prices.listModelPrices.map fun p => (p.model, p)) := by
    unfold priceByModel Dict.update
    rw [List.foldl_map]
  have hperm : prices.listModelPrices.Perm prices.rows := List.mergeSort_perm _ _
  have hunique : Dict.Unique (prices.listModelPrices.map fun p => (p.model, p)) := by
    unfold Dict.Unique Dict.keys
    rw [List.map_map]
    exact (hperm.map ModelPrice.model).nodup_iff.mpr prices.nodup
  rw [hupdate, Dict.get_update hunique, Dict.get_nil, Option.or_none]
  refine Option.ext fun p => ?_
  rw [find_eq_some_iff, ← hperm.mem_iff]
  constructor
  · intro h
    obtain ⟨q, hq, heq⟩ := List.mem_map.mp (Dict.mem_of_get h)
    obtain ⟨rfl, rfl⟩ := Prod.mk.inj heq
    exact ⟨hq, rfl⟩
  · rintro ⟨hp, rfl⟩
    exact Dict.get_of_mem hunique (List.mem_map.mpr ⟨p, hp, rfl⟩)

/-- **A price for the sums** is the sum of the prices. -/
theorem lineCost_usage {price : Option ModelPrice} (h : ∀ r ∈ rows, prices.find r.modelKey = price) :
    (usageOf rows).cost defaultIn defaultOut price =
      (rows.map (requestCost defaultIn defaultOut prices)).sum := by
  induction rows with
  | nil => simp [usageOf, Usage.cost, lineCost]
  | cons r rows ih =>
    obtain ⟨hr, hrows⟩ := List.forall_mem_cons.mp h
    rw [List.map_cons, List.sum_cons, ← ih hrows]
    simp only [usageOf, Usage.cost, lineCost, requestCost, hr, List.map_cons, List.sum_cons]
    push_cast
    ring

/-- The rows of one model. -/
theorem cost_group {m : String} {rows : List RequestRow} :
    (usageOf (rows.filter fun r => r.modelKey = m)).cost defaultIn defaultOut (prices.find m) =
      ((rows.filter fun r => r.modelKey = m).map (requestCost defaultIn defaultOut prices)).sum :=
  lineCost_usage fun r hr => by rw [of_decide_eq_true (List.mem_filter.mp hr).2]

/-- What is appended for the rows of a model is what its requests come to. -/
theorem modelCost_group (m : String) (rows : List RequestRow) :
    modelCost round defaultIn defaultOut (priceByModel prices.listModelPrices)
        { usageOf (rows.filter fun r => r.modelKey = m) with modelKey := m } =
      modelRow round defaultIn defaultOut prices m (rows.filter fun r => r.modelKey = m) := by
  unfold modelCost modelRow
  simp only [get_priceByModel]
  congr 2
  exact cost_group

/-- The rows of `token_usage_by_model`, in whatever order. -/
theorem byModel_perm (h : byModel.Perm (tokenUsageByModel log since till)) :
    byModel.Perm ((groupBy RequestRow.modelKey (log.filter (inWindow since till))).map fun g =>
      { usageOf g.2 with modelKey := g.1 }) := h.trans (List.mergeSort_perm _ _)

theorem totalCost_eq (h : byModel.Perm (tokenUsageByModel log since till)) :
    byModel.foldl (fun total row => total +
        row.cost defaultIn defaultOut ((priceByModel prices.listModelPrices).get row.modelKey)) 0 =
      ((log.filter (inWindow since till)).map (requestCost defaultIn defaultOut prices)).sum := by
  have hfold : byModel.foldl (fun total row => total +
      row.cost defaultIn defaultOut ((priceByModel prices.listModelPrices).get row.modelKey)) 0 =
      (byModel.map fun row => row.cost defaultIn defaultOut (prices.find row.modelKey)).sum := by
    rw [List.sum_eq_foldl, List.foldl_map]
    simp only [get_priceByModel]
  rw [hfold, ((byModel_perm h).map _).sum_eq, List.map_map,
    ← sum_groupBy RequestRow.modelKey]
  refine congrArg List.sum (List.map_congr_left fun g hg => ?_)
  obtain ⟨k, g⟩ := g
  obtain ⟨-, rfl⟩ := mem_groupBy.mp hg
  exact cost_group

theorem mem_summary_byModel (h : byModel.Perm (tokenUsageByModel log since till)) {row : ModelCost} :
    row ∈ byModel.map (modelCost round defaultIn defaultOut (priceByModel prices.listModelPrices)) ↔
      ∃ m, (∃ r ∈ log.filter (inWindow since till), r.modelKey = m) ∧
        row = modelRow round defaultIn defaultOut prices m
          ((log.filter (inWindow since till)).filter fun r => r.modelKey = m) := by
  rw [((byModel_perm h).map _).mem_iff, List.map_map, List.mem_map]
  constructor
  · rintro ⟨⟨m, g⟩, hg, rfl⟩
    obtain ⟨hm, rfl⟩ := mem_groupBy.mp hg
    exact ⟨m, hm, modelCost_group m _⟩
  · rintro ⟨m, hm, rfl⟩
    exact ⟨(m, _), mem_groupBy.mpr ⟨hm, rfl⟩, modelCost_group m _⟩

theorem nodup_summary_byModel (h : byModel.Perm (tokenUsageByModel log since till)) :
    ((byModel.map (modelCost round defaultIn defaultOut
      (priceByModel prices.listModelPrices))).map (·.model)).Nodup := by
  have hkeys : ((byModel.map (modelCost round defaultIn defaultOut
      (priceByModel prices.listModelPrices))).map (·.model)) = byModel.map (·.modelKey) := by
    rw [List.map_map]
    rfl
  rw [hkeys, ((byModel_perm h).map _).nodup_iff, List.map_map]
  exact nodup_groupBy

/-! ## The keys -/

/-- The rows of one key, of all its models. -/
theorem filter_named (n : String) (rows : List RequestRow) :
    ((rows.filter fun r => r.apiKeyName.isSome).filter fun r => (namedModel r).1 = n) =
      rows.filter fun r => r.apiKeyName = some n := by
  rw [List.filter_filter]
  refine List.filter_congr fun r _ => ?_
  unfold namedModel
  cases r.apiKeyName <;> simp

/-- **Sums over the rows of a key** are sums over its requests. -/
theorem sum_byKey {M : Type} [AddCommMonoid M] (h : byKey.Perm (tokenUsageByKey log since till))
    (F : KeyUsage → M) (f : RequestRow → M)
    (hF : ∀ (n m : String) (rows : List RequestRow), (∀ r ∈ rows, r.modelKey = m) →
      F { usageOf rows with name := n, modelKey := m } = (rows.map f).sum) (n : String) :
    ((byKey.filter fun row => row.name = n).map F).sum =
      (((log.filter (inWindow since till)).filter fun r => r.apiKeyName = some n).map f).sum := by
  rw [((h.filter _).map F).sum_eq]
  unfold tokenUsageByKey
  rw [List.filter_map, List.map_map]
  have hgroups := filter_groupBy namedModel
    ((log.filter (inWindow since till)).filter fun r => r.apiKeyName.isSome) fun k => k.1 = n
  rw [filter_named] at hgroups
  refine Eq.trans (hgroups.map _).sum_eq ?_
  rw [← sum_groupBy namedModel]
  refine congrArg List.sum (List.map_congr_left fun g hg => ?_)
  obtain ⟨⟨n', m⟩, g⟩ := g
  obtain ⟨-, rfl⟩ := mem_groupBy.mp hg
  exact hF n' m _ fun r hr => congrArg Prod.snd (of_decide_eq_true (List.mem_filter.mp hr).2)

/-- What the rows of a key add up to in its entry. -/
theorem foldl_add (d : Dict ModelPrice) (k : KeyCost) (byKey : List KeyUsage) :
    byKey.foldl (KeyCost.add defaultIn defaultOut d) k =
      { name := k.name
        requests := k.requests + (byKey.map fun row => row.requests).sum
        promptTokens := k.promptTokens + (byKey.map fun row => row.promptTokens).sum
        completionTokens := k.completionTokens + (byKey.map fun row => row.completionTokens).sum
        totalTokens := k.totalTokens + (byKey.map fun row => row.totalTokens).sum
        cost := k.cost +
          (byKey.map fun row => row.cost defaultIn defaultOut (d.get row.modelKey)).sum } := by
  induction byKey generalizing k with
  | nil => simp
  | cons row byKey ih =>
    rw [List.foldl_cons, ih]
    simp only [KeyCost.add, List.map_cons, List.sum_cons, add_assoc]

/-- The names in `token_usage_by_key` are those of the keys that made requests. -/
theorem mem_names (h : byKey.Perm (tokenUsageByKey log since till)) {n : String} :
    n ∈ byKey.map KeyUsage.name ↔
      ∃ r ∈ log.filter (inWindow since till), r.apiKeyName = some n := by
  rw [(h.map _).mem_iff]
  unfold tokenUsageByKey
  rw [List.map_map, List.mem_map]
  constructor
  · rintro ⟨⟨⟨n, m⟩, g⟩, hg, rfl⟩
    obtain ⟨⟨r, hr, hkey⟩, -⟩ := mem_groupBy.mp hg
    obtain ⟨hr, hsome⟩ := List.mem_filter.mp hr
    obtain ⟨name, hname⟩ := Option.isSome_iff_exists.mp hsome
    refine ⟨r, hr, ?_⟩
    have hn : (namedModel r).1 = n := congrArg Prod.fst hkey
    unfold namedModel at hn
    rw [hname] at hn
    rw [hname]
    exact congrArg some hn
  · rintro ⟨r, hr, hn⟩
    have hkeyed : r ∈ (log.filter (inWindow since till)).filter fun r => r.apiKeyName.isSome :=
      List.mem_filter.mpr ⟨hr, by rw [hn]; rfl⟩
    refine ⟨(namedModel r, _), mem_groupBy.mpr ⟨⟨r, hkeyed, rfl⟩, rfl⟩, ?_⟩
    change (namedModel r).1 = n
    unfold namedModel
    rw [hn]
    rfl

/-- **The entry of a key**, before its cost is rounded. -/
theorem keys_of_rows (h : byKey.Perm (tokenUsageByKey log since till)) (n : String) :
    (byKey.filter fun row => row.name = n).foldl
        (KeyCost.add defaultIn defaultOut (priceByModel prices.listModelPrices)) { name := n } =
      { usageOf ((log.filter (inWindow since till)).filter fun r => r.apiKeyName = some n) with
        name := n
        cost := (((log.filter (inWindow since till)).filter fun r => r.apiKeyName = some n).map
          (requestCost defaultIn defaultOut prices)).sum } := by
  have hrequests := sum_byKey h (fun row => row.requests) (fun _ => 1)
    (fun n m rows _ => by simp [usageOf]) n
  have hprompt := sum_byKey h (fun row => row.promptTokens) (fun r => r.promptTokens.getD 0)
    (fun n m rows _ => rfl) n
  have hcompletion := sum_byKey h (fun row => row.completionTokens)
    (fun r => r.completionTokens.getD 0) (fun n m rows _ => rfl) n
  have htotal := sum_byKey h (fun row => row.totalTokens) (fun r => r.totalTokens.getD 0)
    (fun n m rows _ => rfl) n
  have hcost := sum_byKey h (fun row => row.cost defaultIn defaultOut (prices.find row.modelKey))
    (requestCost defaultIn defaultOut prices)
    (fun n m rows hrows => lineCost_usage fun r hr => by rw [hrows r hr]) n
  rw [foldl_add]
  simp only [get_priceByModel, hrequests, hprompt, hcompletion, htotal, hcost, zero_add]
  simp [usageOf]

/-- **The entry of a key** in `keys`, if it made a request. -/
theorem get_keyCosts (h : byKey.Perm (tokenUsageByKey log since till)) {n : String} {k : KeyCost} :
    (keyCosts defaultIn defaultOut (priceByModel prices.listModelPrices) byKey).get n = some k ↔
      (∃ r ∈ log.filter (inWindow since till), r.apiKeyName = some n) ∧
        k = { usageOf ((log.filter (inWindow since till)).filter fun r => r.apiKeyName = some n) with
          name := n
          cost := (((log.filter (inWindow since till)).filter fun r => r.apiKeyName = some n).map
            (requestCost defaultIn defaultOut prices)).sum } := by
  unfold keyCosts
  rw [get_accumulate, keys_of_rows h, ← mem_names h]
  split_ifs with hn
  · rw [Option.some_inj, and_iff_right hn, eq_comm]
  · exact iff_of_false not_false fun hk => hn hk.1

/-- An entry of the summary, of a key. -/
theorem mem_summary_byKey (h : byKey.Perm (tokenUsageByKey log since till)) {row : KeyCost} :
    row ∈ (keyCosts defaultIn defaultOut (priceByModel prices.listModelPrices) byKey).map
        (fun entry => { entry.2 with cost := round entry.2.cost }) ↔
      ∃ n, (∃ r ∈ log.filter (inWindow since till), r.apiKeyName = some n) ∧
        row = keyRow round defaultIn defaultOut prices n
          ((log.filter (inWindow since till)).filter fun r => r.apiKeyName = some n) := by
  rw [List.mem_map]
  constructor
  · rintro ⟨⟨n, k⟩, hmem, rfl⟩
    obtain ⟨hn, rfl⟩ := (get_keyCosts h).mp (Dict.get_of_mem unique_accumulate hmem)
    exact ⟨n, hn, rfl⟩
  · rintro ⟨n, hn, rfl⟩
    exact ⟨_, Dict.mem_of_get ((get_keyCosts h).mpr ⟨hn, rfl⟩), rfl⟩

/-- Each entry is under its own name. -/
theorem nodup_summary_byKey (h : byKey.Perm (tokenUsageByKey log since till)) :
    (((keyCosts defaultIn defaultOut (priceByModel prices.listModelPrices) byKey).map
      fun entry => { entry.2 with cost := round entry.2.cost }).map (·.name)).Nodup := by
  have hnames : ((keyCosts defaultIn defaultOut (priceByModel prices.listModelPrices) byKey).map
      fun entry => { entry.2 with cost := round entry.2.cost }).map (·.name) =
        (keyCosts defaultIn defaultOut (priceByModel prices.listModelPrices) byKey).keys := by
    rw [List.map_map]
    refine List.map_congr_left fun entry hentry => ?_
    obtain ⟨-, hk⟩ := (get_keyCosts h).mp (Dict.get_of_mem unique_accumulate hentry)
    exact congrArg KeyCost.name hk
  rw [hnames]
  exact unique_accumulate

/-- What the quota of a key counts, of the requests in the window. -/
theorem tokensUsedByKey_eq (log : List RequestRow) (since : Option Time) (n : String) :
    tokensUsedByKey (log.map (·.toLogRow)) n since =
      (usageOf ((log.filter (inWindow since none)).filter fun r => r.apiKeyName = some n)).totalTokens := by
  unfold tokensUsedByKey usageOf
  rw [List.filter_map, List.map_map, List.filter_filter]
  have hsame : ((fun row : LogRow => decide (row.apiKeyName = some n ∧ ∀ t ∈ since, t ≤ row.ts)) ∘
      fun r : RequestRow => r.toLogRow) =
        fun r => decide (r.apiKeyName = some n) && inWindow since none r := by
    funext r
    simp [inWindow]
  rw [hsame]
  rfl

/-- **The summary accounts for the requests** of its window, each once: the total, the row of each
model and the row of each key are sums over the requests, whatever the order in which the groups come
from the database. Requests may be recorded between the two queries: each part is of the log that its
query read. What the quota of a key counts there is what its row shows. -/
theorem summary_accounts (hmodel : byModel.Perm (tokenUsageByModel log since till))
    (hkey : byKey.Perm (tokenUsageByKey later since till)) (currency : String) :
    let s := buildSummary round defaultIn defaultOut byModel byKey prices.listModelPrices currency
    Accounts round defaultIn defaultOut prices (log.filter (inWindow since till))
        (later.filter (inWindow since till)) s ∧
      (till = none → ∀ n, tokensUsedByKey (later.map (·.toLogRow)) n since =
        ((s.byKey.find? (·.name = n)).map (·.totalTokens)).getD 0) := by
  intro s
  have hperm : s.byKey.Perm ((keyCosts defaultIn defaultOut (priceByModel prices.listModelPrices)
      byKey).map fun entry => { entry.2 with cost := round entry.2.cost }) := List.mergeSort_perm _ _
  have hbyKey (row : KeyCost) : row ∈ s.byKey ↔ _ := hperm.mem_iff.trans (mem_summary_byKey hkey)
  refine ⟨⟨congrArg round (totalCost_eq hmodel), ?_, nodup_summary_byModel hmodel,
    fun row => mem_summary_byModel hmodel,
    (hperm.map _).nodup_iff.mpr (nodup_summary_byKey hkey), hbyKey, ?_⟩, ?_⟩
  · change ((byModel.map (modelCost round defaultIn defaultOut
      (priceByModel prices.listModelPrices))).any fun m => !m.priced) = true ↔ _
    rw [List.any_eq_true]
    constructor
    · rintro ⟨row, hrow, hpriced⟩
      obtain ⟨m, ⟨r, hr, rfl⟩, rfl⟩ := (mem_summary_byModel hmodel).mp hrow
      refine ⟨r, hr, ?_⟩
      simpa [modelRow] using hpriced
    · rintro ⟨r, hr, hnone⟩
      exact ⟨_, (mem_summary_byModel hmodel).mpr ⟨r.modelKey, ⟨r, hr, rfl⟩, rfl⟩,
        by simp [modelRow, hnone]⟩
  · refine (List.pairwise_mergeSort (fun a b c hab hbc => ?_) (fun a b => ?_) _).imp fun h =>
      of_decide_eq_true h
    · exact decide_eq_true ((of_decide_eq_true hbc).trans (of_decide_eq_true hab))
    · simpa using le_total b.cost a.cost
  · rintro rfl n
    rw [tokensUsedByKey_eq]
    cases hfind : s.byKey.find? (·.name = n) with
    | some row =>
      have hname := List.find?_some hfind
      obtain ⟨n', -, rfl⟩ := (hbyKey _).mp (List.mem_of_find?_eq_some hfind)
      obtain rfl : n' = n := of_decide_eq_true hname
      rfl
    | none =>
      have hno : ((later.filter (inWindow since none)).filter fun r => r.apiKeyName = some n) = [] := by
        rw [List.filter_eq_nil_iff]
        intro r hr hn
        refine List.find?_eq_none.mp hfind _
          ((hbyKey _).mpr ⟨n, ⟨r, hr, of_decide_eq_true hn⟩, rfl⟩) (decide_eq_true rfl)
      rw [hno]
      rfl

end Summary

/-- A request of a key to a priced model, and one that no key made to a model without a price. -/
def twoRequests : List RequestRow :=
  [⟨⟨1, some "ci", some 30⟩, "M", some 10, some 20⟩, ⟨⟨3, none, some 7⟩, "N", some 7, none⟩]

/-- Another one of the key comes in before the second query. -/
def threeRequests : List RequestRow :=
  ⟨⟨2, some "ci", none⟩, "M", some 5, none⟩ :: twoRequests

/-- The price of the model. -/
def onePrice : ModelPrices := ⟨[⟨"M", 2, 4, "USD"⟩], List.nodup_singleton _⟩

theorem summary_accounts_three :
    let s := buildSummary id 1 1 (tokenUsageByModel twoRequests none none)
      (tokenUsageByKey threeRequests none none) onePrice.listModelPrices "USD"
    Accounts id 1 1 onePrice (twoRequests.filter (inWindow none none))
        (threeRequests.filter (inWindow none none)) s ∧
      ((none : Option Time) = none → ∀ n, tokensUsedByKey (threeRequests.map (·.toLogRow)) n none =
        ((s.byKey.find? (·.name = n)).map (·.totalTokens)).getD 0) :=
  summary_accounts (List.Perm.refl _) (List.Perm.refl _) "USD"

end Llmops.Billing
