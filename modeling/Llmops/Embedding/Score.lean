import Llmops.Lib.Conversion
import Llmops.Lib.Scatter

/-!
# Scoring pairs of texts (`embedding_reranker_launcher.py`, `embed_rerank.py`)

`/v1/score` regroups its pairs by their left text, hands each group to the reranker in batches, and
writes the scores back by index. The cross-encoder and its tokenizer are parameters. `F` stands for
Python's floats: any type with the operations of a score, of which nothing is assumed, and `exp` is
`math.exp`, `none` where it overflows (above 709.78, so for a logit below -709.78).

* `scoreAll_eq`: where the reranker rates each pair by itself, the groups leave the same scores as
  one call for each pair;
* `score_pairwise_iff`: so the endpoint replies with the sigmoid of each pair, in order, exactly where
  `math.exp` overflows for none;
* `score_overflows`: a pair with a logit of -800.
-/

namespace Llmops.Embedding

open Lib

/-- `Union[str, List[str]]`. -/
inductive Texts where
  | one (s : String)
  | many (xs : List String)

/-- A loaded reranking model: the logits of one forward pass, and what its tokenizer counts. -/
structure Reranker (F : Type) where
  logits : List (String × String) → List F
  countTokens : List (String × String) → Nat
  batchSize : Nat
  batchSize_pos : 0 < batchSize

/-- An entry of `data`. -/
structure Scored (F : Type) where
  index : Nat
  object : String
  score : F

structure Scores (F : Type) where
  model : String
  data : List (Scored F)
  promptTokens : Nat
  totalTokens : Nat

/-- The status and the detail of an `HTTPException`. -/
structure Refusal where
  status : Nat
  detail : String

section Endpoint

variable {F : Type} [Zero F] [One F] [Add F] [Neg F] [Div F] (exp : F → Option F)

/-- `rerank`: the documents batch by batch. -/
def Reranker.rerank (r : Reranker F) (query : String) (documents : List String) : List F :=
  (slices r.batchSize documents).flatMap fun batchDocs =>
    r.logits (batchDocs.map fun doc => (query, doc))

/-- `_sigmoid`. -/
def sigmoid (x : F) : Option F := (exp (-x)).map fun e => 1 / (1 + e)

/-- `_rerank_scores`. -/
def rerankScores (r : Reranker F) (query : String) (documents : List String) : Option (List F) :=
  (r.rerank query documents).mapM (sigmoid exp)

/-- `_resolve_reranker`. -/
def resolveReranker (rerankers : Dict (Reranker F)) (modelName : Option String) :
    Except Refusal (String × Reranker F) :=
  match modelName with
  | none => .error ⟨404, "Re-ranking model 'None' not found"⟩
  | some name =>
    match rerankers.get name with
    | none => .error ⟨404, "Re-ranking model '" ++ name ++ "' not found"⟩
    | some r => .ok (name, r)

/-- The pairs that a request asks for. -/
def pairsOf : Texts → Texts → Except Refusal (List (String × String))
  | .one a, .one b => .ok [(a, b)]
  | .one a, .many bs => .ok (bs.map fun b => (a, b))
  | .many as, .one b => .ok (as.map fun a => (a, b))
  | .many as, .many bs =>
    if as.length ≠ bs.length then
      .error ⟨400, "text_1 and text_2 must be equal length when both are lists"⟩
    else .ok (as.zip bs)

/-- One turn of the loop over `by_left.items()`. -/
def scoreGroup (r : Reranker F) (pairs : List (String × String)) (scores : List F)
    (group : String × List Nat) : Option (List F) := do
  let docs ← group.2.mapM fun i => pairs[i]?.map Prod.snd
  let leftScores ← rerankScores exp r group.1 docs
  return writeAll scores (group.2.zip leftScores)

/-- The scores of the pairs, group by group. -/
def scoreAll (r : Reranker F) (pairs : List (String × String)) : Option (List F) :=
  (indicesBy (pairs.map Prod.fst)).foldlM (scoreGroup exp r pairs)
    (List.replicate pairs.length 0)

/-- `score`, the handler of `POST /v1/score`, but for the id of the reply. -/
def score (rerankers : Dict (Reranker F)) (modelName : Option String) (t1 t2 : Texts) :
    Except Refusal (Scores F) := do
  let (name, model) ← resolveReranker rerankers modelName
  let pairs ← pairsOf t1 t2
  if pairs.isEmpty then throw ⟨400, "no text pairs to score"⟩
  match scoreAll exp model pairs with
  | none => throw ⟨500, "Error scoring: math range error"⟩
  | some scores =>
    let tokens := model.countTokens pairs
    return ⟨name, scores.mapIdx fun i s => ⟨i, "score", s⟩, tokens, tokens⟩

end Endpoint

/-! ## The group of one text -/

section Groups

variable {F : Type} {exp : F → Option F} {r : Reranker F}
  {rate : String × String → F} {pairs : List (String × String)} {left : String} {idxs : List Nat}
  {docs : List String} {scores values : List F} {groups : List (String × List Nat)}

theorem rerank_eq (hrate : ∀ ps, r.logits ps = ps.map rate) :
    r.rerank left docs = docs.map fun doc => rate (left, doc) := by
  unfold Reranker.rerank
  simp only [hrate, List.map_map]
  rw [List.flatMap_def]
  calc ((slices r.batchSize docs).map fun ds => ds.map (rate ∘ fun doc => (left, doc))).flatten
      = (slices r.batchSize docs).flatten.map (rate ∘ fun doc => (left, doc)) := by
        rw [List.map_flatten]
    _ = docs.map fun doc => rate (left, doc) := by
        rw [flatten_slices r.batchSize_pos]
        rfl

/-- The documents of a group are the right texts of its pairs. -/
theorem docs_of_group (h : ∀ i ∈ idxs, (pairs.map Prod.fst)[i]? = some left) :
    ∃ docs, (idxs.mapM fun i => pairs[i]?.map Prod.snd) = some docs ∧
      List.Forall₂ (fun i doc => pairs[i]? = some (left, doc)) idxs docs := by
  induction idxs with
  | nil => exact ⟨[], rfl, .nil⟩
  | cons i idxs ih =>
    obtain ⟨hi, h⟩ := List.forall_mem_cons.mp h
    obtain ⟨docs, hdocs, hall⟩ := ih h
    rw [List.getElem?_map, Option.map_eq_some_iff] at hi
    obtain ⟨p, hp, hleft⟩ := hi
    refine ⟨p.2 :: docs, ?_, .cons ?_ hall⟩
    · rw [List.mapM_cons, hdocs, hp]
      rfl
    · rw [hp, ← hleft]

theorem mapM_of_forall₂ {f : String × String → Option F}
    (h : List.Forall₂ (fun i doc => pairs[i]? = some (left, doc)) idxs docs) :
    (docs.mapM fun doc => f (left, doc)) = idxs.mapM fun i => pairs[i]?.bind f := by
  induction h with
  | nil => rfl
  | cons hi _ ih => rw [List.mapM_cons, List.mapM_cons, ih, hi, Option.bind_some]

/-- Reads by index, and the writes that they make. -/
theorem reads_of_lt (h : ∀ i ∈ idxs, i < values.length) :
    ∃ read, (idxs.mapM fun i => values[i]?) = some read ∧
      (∀ w ∈ idxs.zip read, values[w.1]? = some w.2) ∧ (idxs.zip read).map Prod.fst = idxs := by
  induction idxs with
  | nil => exact ⟨[], rfl, by simp, rfl⟩
  | cons i idxs ih =>
    obtain ⟨hi, h⟩ := List.forall_mem_cons.mp h
    obtain ⟨read, hread, hall, hfst⟩ := ih h
    have hat : values[i]? = some values[i] := List.getElem?_eq_getElem hi
    refine ⟨values[i] :: read, ?_, ?_, ?_⟩
    · rw [List.mapM_cons, hread, hat]
      rfl
    · rw [List.zip_cons_cons, List.forall_mem_cons]
      exact ⟨hat, hall⟩
    · rw [List.zip_cons_cons, List.map_cons, hfst]

theorem getElem?_of_mapM {f : String × String → Option F} (h : pairs.mapM f = some values)
    (i : Nat) : pairs[i]?.bind f = values[i]? := by
  have hmap : (pairs.map f)[i]? = (values.map some)[i]? := by rw [map_of_mapM h]
  rw [List.getElem?_map, List.getElem?_map] at hmap
  cases hp : pairs[i]? with
  | none =>
    rw [hp, Option.map_none] at hmap
    rw [Option.bind_none, Option.map_eq_none_iff.mp hmap.symm]
  | some p =>
    rw [hp, Option.map_some] at hmap
    obtain ⟨v, hv, heq⟩ := Option.map_eq_some_iff.mp hmap.symm
    rw [Option.bind_some, hv, heq]

variable [One F] [Add F] [Neg F] [Div F]

/-- A score for each document: the score of each pair. -/
theorem rerankScores_eq (hrate : ∀ ps, r.logits ps = ps.map rate) :
    rerankScores exp r left docs = docs.mapM fun doc => sigmoid exp (rate (left, doc)) := by
  unfold rerankScores
  rw [rerank_eq hrate, List.mapM_map]
  rfl

/-- **A group** writes the score of each of its pairs at the index of the pair. -/
theorem scoreGroup_eq (hrate : ∀ ps, r.logits ps = ps.map rate)
    (h : ∀ i ∈ idxs, (pairs.map Prod.fst)[i]? = some left) :
    scoreGroup exp r pairs scores (left, idxs) =
      (idxs.mapM fun i => pairs[i]?.bind fun p => sigmoid exp (rate p)).map fun leftScores =>
        writeAll scores (idxs.zip leftScores) := by
  obtain ⟨docs, hdocs, hall⟩ := docs_of_group h
  have hscores : rerankScores exp r left docs =
      idxs.mapM fun i => pairs[i]?.bind fun p => sigmoid exp (rate p) := by
    rw [rerankScores_eq hrate]
    exact mapM_of_forall₂ (f := fun p => sigmoid exp (rate p)) hall
  unfold scoreGroup
  simp only [hdocs, Option.bind_eq_bind, Option.bind_some, hscores]
  cases idxs.mapM fun i => pairs[i]?.bind fun p => sigmoid exp (rate p) with
  | none => rfl
  | some leftScores => rfl

/-! ## All groups -/

/-- The groups left to right, where every pair has a score. -/
theorem foldlM_groups (scores : List F) (hrate : ∀ ps, r.logits ps = ps.map rate)
    (hvalues : (pairs.mapM fun p => sigmoid exp (rate p)) = some values)
    (h : ∀ group ∈ groups, ∀ i ∈ group.2, (pairs.map Prod.fst)[i]? = some group.1) :
    ∃ ws, groups.foldlM (scoreGroup exp r pairs) scores = some (writeAll scores ws) ∧
      (∀ w ∈ ws, values[w.1]? = some w.2) ∧ ws.map Prod.fst = groups.flatMap Prod.snd := by
  have hlen : pairs.length = values.length := (mapM_eq_some_iff.mp hvalues).length_eq
  induction groups generalizing scores with
  | nil => exact ⟨[], rfl, by simp, rfl⟩
  | cons group groups ih =>
    obtain ⟨hgroup, h⟩ := List.forall_mem_cons.mp h
    have hlt : ∀ i ∈ group.2, i < values.length := fun i hi => by
      have hsome := List.getElem?_eq_some_iff.mp (hgroup i hi)
      have := hsome.1
      rw [List.length_map] at this
      omega
    obtain ⟨read, hread, hright, hfst⟩ := reads_of_lt hlt
    have hstep : scoreGroup exp r pairs scores group =
        some (writeAll scores (group.2.zip read)) := by
      rw [scoreGroup_eq hrate hgroup]
      simp only [getElem?_of_mapM hvalues, hread, Option.map_some]
    obtain ⟨ws, hfold, hall, hws⟩ := ih (writeAll scores (group.2.zip read)) h
    refine ⟨group.2.zip read ++ ws, ?_, ?_, ?_⟩
    · rw [List.foldlM_cons, hstep, ← writeAll_append]
      exact hfold
    · rw [List.forall_mem_append]
      exact ⟨hright, hall⟩
    · rw [List.map_append, hfst, hws, List.flatMap_cons]

theorem group_indices {group : String × List Nat} {keys : List String} {i : Nat}
    (hgroup : group ∈ indicesBy keys) (hi : i ∈ group.2) : keys[i]? = some group.1 :=
  mem_indicesBy.mp ⟨group.2, Dict.get_of_mem unique_indicesBy hgroup, hi⟩

variable [Zero F]

/-- **Groups and single pairs** leave the same scores. -/
theorem scoreAll_eq (hrate : ∀ ps, r.logits ps = ps.map rate) :
    scoreAll exp r pairs = pairs.mapM fun p => sigmoid exp (rate p) := by
  have hgroups : ∀ group ∈ indicesBy (pairs.map Prod.fst), ∀ i ∈ group.2,
      (pairs.map Prod.fst)[i]? = some group.1 := fun group hgroup i hi => group_indices hgroup hi
  cases hvalues : pairs.mapM fun p => sigmoid exp (rate p) with
  | some values =>
    have hlen : pairs.length = values.length := (mapM_eq_some_iff.mp hvalues).length_eq
    obtain ⟨ws, hfold, hright, hfst⟩ := foldlM_groups
      (List.replicate pairs.length 0) hrate hvalues hgroups
    unfold scoreAll
    rw [hfold, writeAll_eq (by rw [List.length_replicate, hlen]) hright]
    -- every index stands in the group of its left text
    intro j hj
    have hkey : (pairs.map Prod.fst)[j]? = some (pairs.get ⟨j, hlen ▸ hj⟩).1 := by
      rw [List.getElem?_map, List.getElem?_eq_getElem (hlen ▸ hj), Option.map_some]
      rfl
    obtain ⟨idxs, hget, hmem⟩ := mem_indicesBy.mpr hkey
    rw [hfst]
    exact List.mem_flatMap.mpr ⟨_, Dict.mem_of_get hget, hmem⟩
  | none =>
    rw [← Option.not_isSome_iff_eq_none]
    intro hsome
    -- the group of a pair without a score has none
    have hno : ¬ ∀ p ∈ pairs, (sigmoid exp (rate p)).isSome := fun hall => by
      have := mapM_isSome_iff.mpr hall
      rw [hvalues] at this
      exact absurd this (by simp)
    push Not at hno
    obtain ⟨p, hp, hnone⟩ := hno
    obtain ⟨i, hi⟩ := List.getElem?_of_mem hp
    have hkey : (pairs.map Prod.fst)[i]? = some p.1 := by
      rw [List.getElem?_map, hi, Option.map_some]
    obtain ⟨idxs, hget, hmem⟩ := mem_indicesBy.mpr hkey
    obtain ⟨scores, hgroup⟩ := foldlM_isSome hsome _ (Dict.mem_of_get hget)
    rw [scoreGroup_eq hrate (hgroups _ (Dict.mem_of_get hget)), Option.isSome_map] at hgroup
    have hsome := mapM_isSome_iff.mp hgroup i hmem
    rw [hi, Option.bind_some] at hsome
    exact hnone hsome

end Groups

/-! ## The endpoint -/

/-- The text that a side holds for the `i`-th pair. -/
def Texts.at : Texts → Nat → Option String
  | .one s, _ => some s
  | .many xs, i => xs[i]?

/-- How many pairs two sides make, `none` for lists of different lengths. -/
def Texts.count : Texts → Texts → Option Nat
  | .one _, .one _ => some 1
  | .one _, .many bs => some bs.length
  | .many as, .one _ => some as.length
  | .many as, .many bs => if as.length = bs.length then some as.length else none

section Reply

variable {F : Type} {exp : F → Option F} {r : Reranker F}
  {rate : String × String → F} {rerankers : Dict (Reranker F)} {name : String} {t1 t2 : Texts}
  {pairs : List (String × String)}

theorem resolveReranker_of_get (hmodel : rerankers.get name = some r) :
    resolveReranker rerankers (some name) = .ok (name, r) := by
  unfold resolveReranker
  simp only [hmodel]

theorem pairsOf_error (h : Texts.count t1 t2 = none) :
    pairsOf t1 t2 =
      .error ⟨400, "text_1 and text_2 must be equal length when both are lists"⟩ := by
  cases t1 with
  | one a => cases t2 <;> cases h
  | many as =>
    cases t2 with
    | one b => cases h
    | many bs =>
      simp only [Texts.count, ite_eq_right_iff, reduceCtorEq, imp_false] at h
      exact if_pos h

/-- The pairs of a request are those of its sides. -/
theorem pairsOf_ok {n : Nat} (h : Texts.count t1 t2 = some n) :
    ∃ pairs, pairsOf t1 t2 = .ok pairs ∧ pairs.length = n ∧ ∀ (i : Nat) (p : String × String),
      pairs[i]? = some p → t1.at i = some p.1 ∧ t2.at i = some p.2 := by
  cases t1 with
  | one a =>
    cases t2 with
    | one b =>
      cases h
      refine ⟨[(a, b)], rfl, rfl, fun i p hp => ?_⟩
      rw [List.getElem?_singleton] at hp
      split_ifs at hp
      cases hp
      exact ⟨rfl, rfl⟩
    | many bs =>
      cases h
      refine ⟨bs.map fun b => (a, b), rfl, List.length_map _, fun i p hp => ?_⟩
      rw [List.getElem?_map, Option.map_eq_some_iff] at hp
      obtain ⟨b, hb, rfl⟩ := hp
      exact ⟨rfl, hb⟩
  | many as =>
    cases t2 with
    | one b =>
      cases h
      refine ⟨as.map fun a => (a, b), rfl, List.length_map _, fun i p hp => ?_⟩
      rw [List.getElem?_map, Option.map_eq_some_iff] at hp
      obtain ⟨a, ha, rfl⟩ := hp
      exact ⟨ha, rfl⟩
    | many bs =>
      simp only [Texts.count] at h
      split_ifs at h with hlen
      cases h
      refine ⟨as.zip bs, if_neg (not_not.mpr hlen), ?_, fun i p hp => ?_⟩
      · rw [List.length_zip, hlen, min_self]
      · exact List.getElem?_zip_eq_some.mp hp

variable [One F] [Add F] [Neg F] [Div F]

/-- Every pair has a score: the texts at each index have one. -/
theorem isSome_scores (exp : F → Option F) (rate : String × String → F) {n : Nat}
    (hlen : pairs.length = n) (hat : ∀ (i : Nat) (p : String × String),
    pairs[i]? = some p → t1.at i = some p.1 ∧ t2.at i = some p.2) :
    (pairs.mapM fun p => sigmoid exp (rate p)).isSome ↔ ∀ i < n, ∀ a b, t1.at i = some a →
      t2.at i = some b → (sigmoid exp (rate (a, b))).isSome := by
  rw [mapM_isSome_iff]
  constructor
  · intro h i hi a b ha hb
    have hp := List.getElem?_eq_getElem (hlen ▸ hi : i < pairs.length)
    obtain ⟨hfst, hsnd⟩ := hat i _ hp
    rw [ha] at hfst
    rw [hb] at hsnd
    rw [Option.some.inj hfst, Option.some.inj hsnd]
    exact h _ (List.mem_of_getElem? hp)
  · intro h p hp
    obtain ⟨i, hi⟩ := List.getElem?_of_mem hp
    have hlt := (List.getElem?_eq_some_iff.mp hi).1
    exact h i (hlen ▸ hlt) p.1 p.2 (hat i p hi).1 (hat i p hi).2

/-- Two texts whose logit `math.exp` overflows on stand at one index. -/
def Overflows (exp : F → Option F) (rate : String × String → F) (t1 t2 : Texts) : Prop :=
  ∃ n, Texts.count t1 t2 = some n ∧ ∃ i < n, ∃ a b, t1.at i = some a ∧ t2.at i = some b ∧
    exp (-rate (a, b)) = none

theorem overflows_iff {n : Nat} (hcount : Texts.count t1 t2 = some n) (hlen : pairs.length = n)
    (hat : ∀ (i : Nat) (p : String × String), pairs[i]? = some p →
      t1.at i = some p.1 ∧ t2.at i = some p.2) :
    Overflows exp rate t1 t2 ↔ (pairs.mapM fun p => sigmoid exp (rate p)) = none := by
  have hsome := isSome_scores exp rate hlen hat
  rw [← Option.not_isSome_iff_eq_none, hsome]
  unfold Overflows sigmoid
  simp only [hcount, Option.some.injEq, exists_eq_left', Option.isSome_map]
  push Not
  simp only [Option.not_isSome_iff_eq_none]

variable [Zero F]

/-- The reply to a request for `pairs`. -/
theorem score_of_pairs (hmodel : rerankers.get name = some r) (hpairs : pairsOf t1 t2 = .ok pairs)
    (hrate : ∀ ps, r.logits ps = ps.map rate) :
    score exp rerankers (some name) t1 t2 =
      if pairs = [] then .error ⟨400, "no text pairs to score"⟩
      else ((pairs.mapM fun p => sigmoid exp (rate p)).map fun scores =>
          (⟨name, scores.mapIdx fun i s => ⟨i, "score", s⟩, r.countTokens pairs,
            r.countTokens pairs⟩ : Scores F)).elim
        (.error ⟨500, "Error scoring: math range error"⟩) .ok := by
  unfold score
  rw [resolveReranker_of_get hmodel, hpairs, ← scoreAll_eq hrate]
  cases pairs with
  | nil => rfl
  | cons p ps =>
    rw [if_neg (List.cons_ne_nil p ps)]
    cases hscores : scoreAll exp r (p :: ps) with
    | none =>
      simp only [bind, Except.bind, List.isEmpty_cons, hscores]
      rfl
    | some scores =>
      simp only [bind, Except.bind, List.isEmpty_cons, hscores]
      rfl

theorem score_of_refused {e : Refusal} (hmodel : rerankers.get name = some r)
    (hpairs : pairsOf t1 t2 = .error e) :
    score exp rerankers (some name) t1 t2 = .error e := by
  unfold score
  rw [resolveReranker_of_get hmodel, hpairs]
  rfl

/-- **Pairwise scoring**: the endpoint refuses a request exactly when its sides are lists of different
lengths or make no pair; else it replies with one entry for each pair, in order: the sigmoid of what
the reranker rates the texts at that index. -/
structure Pairwise (exp : F → Option F) (rate : String × String → F) (t1 t2 : Texts)
    (reply : Except Refusal (Scores F)) : Prop where
  refused : (∃ detail, reply = .error ⟨400, detail⟩) ↔
    Texts.count t1 t2 = none ∨ Texts.count t1 t2 = some 0
  scored : ∀ n, 0 < n → Texts.count t1 t2 = some n → ∃ scores, reply = .ok scores ∧
    scores.data.length = n ∧ ∀ i x, scores.data[i]? = some x → x.index = i ∧ x.object = "score" ∧
      ∃ a b, t1.at i = some a ∧ t2.at i = some b ∧ sigmoid exp (rate (a, b)) = some x.score

/-- **Grouped scoring is pairwise scoring exactly where no exponential overflows**: for every request
to a reranker that rates each pair by itself. -/
theorem score_pairwise_iff (hmodel : rerankers.get name = some r)
    (hrate : ∀ ps, r.logits ps = ps.map rate) :
    Pairwise exp rate t1 t2 (score exp rerankers (some name) t1 t2) ↔
      ¬ Overflows exp rate t1 t2 := by
  cases hcount : Texts.count t1 t2 with
  | none =>
    rw [score_of_refused hmodel (pairsOf_error hcount)]
    refine iff_of_true ⟨by simp [hcount], fun n _ hn => ?_⟩ ?_
    · rw [hcount] at hn
      cases hn
    · rintro ⟨n, hn, -⟩
      rw [hcount] at hn
      cases hn
  | some n =>
    obtain ⟨pairs, hpairs, hlen, hat⟩ := pairsOf_ok hcount
    rw [score_of_pairs hmodel hpairs hrate, overflows_iff hcount hlen hat]
    by_cases hnil : pairs = []
    · subst hnil
      rw [if_pos rfl]
      refine iff_of_true ⟨by simp [hcount, ← hlen], fun m hm hcount' => ?_⟩ (by simp)
      rw [hcount] at hcount'
      cases hcount'
      exact absurd hlen.symm hm.ne'
    · have hpos : 0 < n := hlen ▸ List.length_pos_of_ne_nil hnil
      rw [if_neg hnil]
      cases hvalues : pairs.mapM fun p => sigmoid exp (rate p) with
      | none =>
        -- the code answers 500
        refine iff_of_false (fun h => ?_) (by simp)
        obtain ⟨scores, hscores, -⟩ := h.scored n hpos hcount
        cases hscores
      | some values =>
        have hvaluesLen : pairs.length = values.length :=
          (mapM_eq_some_iff.mp hvalues).length_eq
        refine iff_of_true ⟨by simp [hcount, hpos.ne'], fun m _ hm => ⟨_, rfl, ?_, ?_⟩⟩ (by simp)
        · rw [hcount] at hm
          rw [List.length_mapIdx, ← hvaluesLen, hlen]
          exact Option.some.inj hm
        · intro i x hx
          rw [List.getElem?_mapIdx, Option.map_eq_some_iff] at hx
          obtain ⟨v, hv, rfl⟩ := hx
          have hlt := (List.getElem?_eq_some_iff.mp hv).1
          have hp := List.getElem?_eq_getElem (hvaluesLen ▸ hlt : i < pairs.length)
          have hbind := getElem?_of_mapM hvalues i
          rw [hp, Option.bind_some, hv] at hbind
          exact ⟨rfl, rfl, _, _, (hat i _ hp).1, (hat i _ hp).2, hbind⟩

end Reply

/-! ## A logit of -800 -/

section Reals

/-- `math.exp` on numbers: it raises above 709.78. -/
noncomputable def mathExp (x : ℝ) : Option ℝ := if x ≤ 709.78 then some (Real.exp x) else none

/-- A reranker that rates two texts by their lengths, two pairs at a time, from `base` on. -/
noncomputable def lengths (base : ℝ) : Reranker ℝ where
  logits ps := ps.map fun p => base + p.1.length * 10 + p.2.length
  countTokens ps := ps.length
  batchSize := 2
  batchSize_pos := Nat.two_pos

/-- Three texts, one of which stands twice, against three. -/
theorem score_pairwise_lengths :
    Pairwise mathExp (fun p => 0 + p.1.length * 10 + p.2.length) (.many ["ab", "c", "ab"])
      (.many ["x", "yy", "zzz"]) (score mathExp [("r", lengths 0)] (some "r")
        (.many ["ab", "c", "ab"]) (.many ["x", "yy", "zzz"])) := by
  refine (score_pairwise_iff (r := lengths 0) rfl fun _ => rfl).mpr ?_
  rintro ⟨n, -, i, -, a, b, -, -, hnone⟩
  refine absurd hnone ?_
  unfold mathExp
  rw [if_pos]
  · simp
  · have : (0 : ℝ) ≤ 0 + a.length * 10 + b.length := by positivity
    linarith

/-- **An overflow**: of two well-formed texts, `math.exp` raises on the logit, and the reply is no
score. -/
theorem score_overflows : ¬ ∀ (r : Reranker ℝ) (rate : String × String → ℝ) (t1 t2 : Texts),
    (∀ ps, r.logits ps = ps.map rate) →
      Pairwise mathExp rate t1 t2 (score mathExp [("r", r)] (some "r") t1 t2) := by
  intro h
  have hpairwise := h (lengths (-800)) _ (.one "") (.one "") fun _ => rfl
  obtain ⟨scores, hscores, -⟩ := hpairwise.scored 1 Nat.one_pos rfl
  have hsigmoid : sigmoid mathExp (-800 + (0 : ℕ) * 10 + (0 : ℕ)) = none := by
    unfold sigmoid mathExp
    rw [if_neg (by norm_num)]
    rfl
  have hnone : [("", "")].mapM (fun p => sigmoid mathExp
      (-800 + p.1.length * 10 + p.2.length)) = none := by
    rw [List.mapM_cons, show "".length = 0 from rfl, hsigmoid]
    rfl
  rw [score_of_pairs (r := lengths (-800)) rfl rfl fun _ => rfl, if_neg (List.cons_ne_nil _ _),
    hnone] at hscores
  cases hscores

end Reals

end Llmops.Embedding
