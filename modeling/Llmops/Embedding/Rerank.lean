import Llmops.Embedding.Score
import Llmops.Lib.Ranking

/-!
# Ranking documents (`/v1/rerank` of `embedding_reranker_launcher.py`)

The documents are scored against a query, sorted by score and cut to `top_n`, which is a slice: a
negative one cuts from the end. The sort is stable, so that equal scores keep the order of the
request. As in `/v1/score`, the model, the floats and `math.exp` are parameters; floats are taken in a
linear order, with no NaN among them.

* `rerank_of_scores`: the reply is the first part of the ranking;
* `rerank_best`: what it holds, what is left out of it, and how it agrees with `/v1/score`.
-/

namespace Llmops.Embedding

open Lib

structure RerankRequest where
  query : String
  documents : List String
  model : Option String := none
  topN : Option Int := none
  returnDocuments : Bool := true

/-- An entry of `results`. -/
structure Ranked (F : Type) where
  index : Nat
  relevanceScore : F
  document : Option String

structure Reranking (F : Type) where
  model : String
  results : List (Ranked F)
  promptTokens : Nat
  totalTokens : Nat

/-- `results[: request.top_n]`, where there is a `top_n`. -/
def keep {α : Type} (topN : Option Int) (xs : List α) : List α :=
  match topN with
  | none => xs
  | some n => upTo n xs

section Endpoint

variable {F : Type}

/-- One turn of the loop over the scores. -/
def rankedItem (req : RerankRequest) (p : F × Nat) : Option (Ranked F) :=
  if req.returnDocuments then req.documents[p.2]?.map fun text => ⟨p.2, p.1, some text⟩
  else some ⟨p.2, p.1, none⟩

variable [One F] [Add F] [Neg F] [Div F] [LinearOrder F] (exp : F → Option F)

/-- `rerank`, the handler of `POST /v1/rerank`, but for the id of the reply. -/
def rerank (rerankers : Dict (Reranker F)) (req : RerankRequest) :
    Except Refusal (Reranking F) := do
  let (name, model) ← resolveReranker rerankers req.model
  if req.documents.isEmpty then throw ⟨400, "'documents' must be non-empty"⟩
  match rerankScores exp model req.query req.documents with
  | none => throw ⟨500, "Error reranking: math range error"⟩
  | some scores =>
    match scores.zipIdx.mapM (rankedItem req) with
    | none => throw ⟨500, "Error reranking: list index out of range"⟩
    | some results =>
      let tokens := model.countTokens (req.documents.map fun doc => (req.query, doc))
      return ⟨name, keep req.topN (descending Ranked.relevanceScore results), tokens, tokens⟩

end Endpoint

/-! ## The first part of a ranking -/

/-- How many of `n` results are kept. -/
def kept (topN : Option Int) (n : Nat) : Nat :=
  match topN with
  | none => n
  | some m => (if 0 ≤ m then m else n + m).toNat

theorem keep_eq_take {α : Type} (topN : Option Int) (xs : List α) :
    keep topN xs = xs.take (kept topN xs.length) := by
  cases topN with
  | none => exact (List.take_length (l := xs)).symm
  | some m => rfl

section Results

variable {F : Type} {exp : F → Option F} {r : Reranker F} {rate : String × String → F}
  {req : RerankRequest} {rerankers : Dict (Reranker F)} {name : String} {scores : List F}
  {score : String → Option F} {x : Ranked F}

/-- The results, before they are sorted. -/
def itemsOf (req : RerankRequest) (scores : List F) : List (Ranked F) :=
  scores.zipIdx.map fun p => ⟨p.2, p.1, if req.returnDocuments then req.documents[p.2]? else none⟩

theorem mapM_rankedItem (hlen : scores.length = req.documents.length) :
    scores.zipIdx.mapM (rankedItem req) = some (itemsOf req scores) := by
  unfold itemsOf
  rw [mapM_eq_some_iff, List.forall₂_map_right_iff, List.forall₂_same]
  rintro ⟨s, i⟩ hmem
  obtain ⟨hi, -⟩ := List.getElem?_eq_some_iff.mp (List.mem_zipIdx_iff_getElem?.mp hmem)
  unfold rankedItem
  split_ifs with hreturn
  · rw [List.getElem?_eq_getElem (hlen ▸ hi)]
    rfl
  · rfl

variable [LinearOrder F]

/-- The results with their places, sorted. -/
def rankedItems (req : RerankRequest) (scores : List F) : List (Ranked F × Nat) :=
  ranking Ranked.relevanceScore (itemsOf req scores)

theorem mem_rankedItems {i : Nat} : (x, i) ∈ rankedItems req scores ↔ i = x.index ∧
    scores[x.index]? = some x.relevanceScore ∧
      x.document = if req.returnDocuments then req.documents[x.index]? else none := by
  unfold rankedItems itemsOf
  rw [mem_ranking, List.getElem?_map, List.getElem?_zipIdx]
  constructor
  · intro h
    obtain ⟨p, hp, rfl⟩ := Option.map_eq_some_iff.mp h
    obtain ⟨s, hs, rfl⟩ := Option.map_eq_some_iff.mp hp
    rw [Nat.zero_add]
    exact ⟨rfl, hs, rfl⟩
  · rintro ⟨rfl, hs, hdocument⟩
    rw [hs]
    simp only [Option.map_some, Nat.zero_add, ← hdocument]

theorem length_rankedItems : (rankedItems req scores).length = scores.length := by
  unfold rankedItems itemsOf
  rw [length_ranking, List.length_map, List.length_zipIdx]

theorem pairwise_rankedItems :
    (rankedItems req scores).Pairwise (Outranks Ranked.relevanceScore) := pairwise_ranking

/-- What is sorted and cut: a first part of the ranking. -/
theorem keep_descending : keep req.topN (descending Ranked.relevanceScore (itemsOf req scores)) =
    ((rankedItems req scores).take (kept req.topN scores.length)).map Prod.fst := by
  have hlen : ((rankedItems req scores).map Prod.fst).length = scores.length := by
    rw [List.length_map, length_rankedItems]
  rw [keep_eq_take, descending_eq, List.map_take, ← hlen]
  rfl

/-! ## The reply -/

/-- The best of the documents, by their scores. -/
structure Ranks (score : String → Option F) (req : RerankRequest) (results : List (Ranked F)) :
    Prop where
  length : results.length = (keep req.topN req.documents).length
  scored : ∀ x ∈ results, ∃ doc, req.documents[x.index]? = some doc ∧
    score doc = some x.relevanceScore ∧
      x.document = if req.returnDocuments then some doc else none
  ordered : results.Pairwise fun x y => y.relevanceScore < x.relevanceScore ∨
    x.relevanceScore = y.relevanceScore ∧ x.index < y.index
  best : ∀ x ∈ results, ∀ j doc, req.documents[j]? = some doc → (∀ y ∈ results, y.index ≠ j) →
    ∃ s, score doc = some s ∧
      (s < x.relevanceScore ∨ x.relevanceScore = s ∧ x.index < j)

/-- The first part of a ranking holds the best. -/
theorem ranks_keep (h : req.documents.mapM score = some scores) :
    Ranks score req (keep req.topN (descending Ranked.relevanceScore (itemsOf req scores))) := by
  have hall := mapM_eq_some_iff.mp h
  have hlen : req.documents.length = scores.length := hall.length_eq
  have hscore {i : Nat} {doc : String} {s : F} (hdoc : req.documents[i]? = some doc)
      (hs : scores[i]? = some s) : score doc = some s := by
    obtain ⟨hi, rfl⟩ := List.getElem?_eq_some_iff.mp hdoc
    obtain ⟨hi', rfl⟩ := List.getElem?_eq_some_iff.mp hs
    exact hall.get hi hi'
  rw [keep_descending]
  refine ⟨?_, ?_, ?_, ?_⟩
  · rw [List.length_map, List.length_take, length_rankedItems, keep_eq_take, List.length_take, hlen]
  · intro x hx
    obtain ⟨⟨x, i⟩, hmem, rfl⟩ := List.mem_map.mp hx
    obtain ⟨-, hs, hdocument⟩ := mem_rankedItems.mp (List.mem_of_mem_take hmem)
    have hi := (List.getElem?_eq_some_iff.mp hs).1
    have hdoc := List.getElem?_eq_getElem (hlen ▸ hi : x.index < req.documents.length)
    refine ⟨_, hdoc, hscore hdoc hs, ?_⟩
    rw [hdocument, hdoc]
  · rw [List.pairwise_map]
    have hindex : ∀ p ∈ (rankedItems req scores).take (kept req.topN scores.length),
        p.2 = p.1.index := fun p hp => (mem_rankedItems.mp (List.mem_of_mem_take hp)).1
    refine (pairwise_rankedItems.sublist (List.take_sublist _ _)).imp_of_mem ?_
    rintro p q hp hq (hlt | ⟨heq, hlt⟩)
    · exact .inl hlt
    · exact .inr ⟨heq, hindex p hp ▸ hindex q hq ▸ hlt⟩
  · intro x hx j doc hdoc hnot
    obtain ⟨⟨x, i⟩, hmem, rfl⟩ := List.mem_map.mp hx
    obtain ⟨rfl, -⟩ := mem_rankedItems.mp (List.mem_of_mem_take hmem)
    have hj := (List.getElem?_eq_some_iff.mp hdoc).1
    have hs := List.getElem?_eq_getElem (hlen ▸ hj : j < scores.length)
    have hin : (⟨j, scores[j], if req.returnDocuments then req.documents[j]? else none⟩, j) ∈
        rankedItems req scores := mem_rankedItems.mpr ⟨rfl, hs, rfl⟩
    refine ⟨_, hscore hdoc hs, ?_⟩
    have hout := pairwise_take pairwise_rankedItems hmem hin fun hkept =>
      hnot _ (List.mem_map.mpr ⟨_, hkept, rfl⟩) rfl
    exact hout

variable [One F] [Add F] [Neg F] [Div F]

/-- **The reply** to a request with documents. -/
theorem rerank_of_scores (hmodel : rerankers.get name = some r) (hname : req.model = some name)
    (hrate : ∀ ps, r.logits ps = ps.map rate) :
    rerank exp rerankers req =
      if req.documents = [] then .error ⟨400, "'documents' must be non-empty"⟩
      else ((req.documents.mapM fun doc => sigmoid exp (rate (req.query, doc))).map fun scores =>
          (⟨name, keep req.topN (descending Ranked.relevanceScore (itemsOf req scores)),
            r.countTokens (req.documents.map fun doc => (req.query, doc)),
            r.countTokens (req.documents.map fun doc => (req.query, doc))⟩ : Reranking F)).elim
        (.error ⟨500, "Error reranking: math range error"⟩) .ok := by
  unfold rerank
  rw [hname, resolveReranker_of_get hmodel]
  simp only [bind, Except.bind, rerankScores_eq hrate]
  by_cases hnil : req.documents = []
  · rw [if_pos hnil, hnil]
    rfl
  · rw [if_neg hnil, if_neg (by simpa using hnil)]
    cases hscores : req.documents.mapM fun doc => sigmoid exp (rate (req.query, doc)) with
    | none => rfl
    | some scores =>
      have hlen : req.documents.length = scores.length := (mapM_eq_some_iff.mp hscores).length_eq
      simp only [mapM_rankedItem hlen.symm]
      rfl

variable [Zero F]

omit [LinearOrder F] in
/-- `/v1/score` has the scores by index. -/
theorem score_of_documents (hmodel : rerankers.get name = some r)
    (hrate : ∀ ps, r.logits ps = ps.map rate) (hne : req.documents ≠ [])
    (h : req.documents.mapM (fun doc => sigmoid exp (rate (req.query, doc))) = some scores) :
    Embedding.score exp rerankers (some name) (.one req.query) (.many req.documents) =
      .ok ⟨name, scores.mapIdx fun i s => ⟨i, "score", s⟩,
        r.countTokens (req.documents.map fun doc => (req.query, doc)),
        r.countTokens (req.documents.map fun doc => (req.query, doc))⟩ := by
  have hpairs : pairsOf (.one req.query) (.many req.documents) =
      .ok (req.documents.map fun doc => (req.query, doc)) := rfl
  have hscores : ((req.documents.map fun doc => (req.query, doc)).mapM fun p => sigmoid exp (rate p)) =
      some scores := List.mapM_map.trans h
  rw [score_of_pairs hmodel hpairs hrate, if_neg (by simpa using hne), hscores]
  rfl

/-- **Reranking returns the best**: where the reranker rates each pair by itself, a request is refused
as bad exactly when it has no documents, there is a reply when each document has a score, and the
reply holds the documents that outrank all the others, in that order, with their scores and texts. A
`top_n` cuts the reply to the request without it, and each score is the one that `/v1/score` gives to
the pair. -/
theorem rerank_best (hmodel : rerankers.get name = some r)
    (hname : req.model = some name) (hrate : ∀ ps, r.logits ps = ps.map rate) :
    ((∃ detail, rerank exp rerankers req = .error ⟨400, detail⟩) ↔ req.documents = []) ∧
    (∀ reply, rerank exp rerankers req = .ok reply →
      Ranks (fun doc => sigmoid exp (rate (req.query, doc))) req reply.results ∧
      (∃ full, rerank exp rerankers { req with topN := none } = .ok full ∧
        reply.results = keep req.topN full.results) ∧
      ∃ scores, Embedding.score exp rerankers (some name) (.one req.query)
          (.many req.documents) = .ok scores ∧ scores.promptTokens = reply.promptTokens ∧
        ∀ x ∈ reply.results, ∃ y, scores.data[x.index]? = some y ∧ y.score = x.relevanceScore) ∧
    ((∃ reply, rerank exp rerankers req = .ok reply) ↔
      req.documents ≠ [] ∧ ∀ doc ∈ req.documents, (sigmoid exp (rate (req.query, doc))).isSome) := by
  have hall : (req.documents.mapM fun doc => sigmoid exp (rate (req.query, doc))).isSome ↔ _ :=
    mapM_isSome_iff
  have hfull : rerank exp rerankers { req with topN := none } = _ :=
    rerank_of_scores hmodel hname hrate
  rw [rerank_of_scores hmodel hname hrate, hfull]
  by_cases hnil : req.documents = []
  · rw [if_pos hnil]
    simp [hnil]
  · rw [if_neg hnil, if_neg hnil]
    cases hscores : req.documents.mapM fun doc => sigmoid exp (rate (req.query, doc)) with
    | none =>
      rw [hscores] at hall
      refine ⟨by simp [hnil], by simp, ?_⟩
      constructor
      · simp
      · exact fun h => absurd (hall.mpr h.2) (by simp)
    | some scores =>
      rw [hscores] at hall
      refine ⟨by simp [hnil], ?_, fun _ => ⟨hnil, hall.mp rfl⟩, fun _ => ⟨_, rfl⟩⟩
      rintro reply hreply
      cases hreply
      have hranks := ranks_keep hscores
      refine ⟨hranks, ⟨_, rfl, rfl⟩, _, score_of_documents hmodel hrate hnil hscores, rfl, ?_⟩
      intro x hx
      change x ∈ keep req.topN (descending Ranked.relevanceScore (itemsOf req scores)) at hx
      rw [keep_descending] at hx
      obtain ⟨⟨x, i⟩, hmem, rfl⟩ := List.mem_map.mp hx
      obtain ⟨-, hs, -⟩ := mem_rankedItems.mp (List.mem_of_mem_take hmem)
      refine ⟨⟨x.index, "score", x.relevanceScore⟩, ?_, rfl⟩
      rw [List.getElem?_mapIdx, hs]
      rfl

/-- A reranker that rates a document by its length. -/
noncomputable def longest : Reranker ℝ where
  logits ps := ps.map fun p => (p.2.length : ℝ)
  countTokens ps := ps.length
  batchSize := 2
  batchSize_pos := Nat.two_pos

/-- Four documents, two of them equally long; all but the last are asked for. -/
theorem rerank_best_longest :
    let req : RerankRequest := ⟨"q", ["a", "ccc", "bb", "ddd"], some "r", some (-1), true⟩
    ((∃ reply, rerank mathExp [("r", longest)] req = .ok reply) ↔ req.documents ≠ [] ∧
      ∀ doc ∈ req.documents, (sigmoid mathExp (doc.length : ℝ)).isSome) ∧
      (keep req.topN (descending Ranked.relevanceScore (itemsOf req [1, 3, 2, 3]))).map
        Ranked.index = [1, 3, 2] :=
  ⟨(@rerank_best ℝ mathExp longest (fun p => p.2.length)
    ⟨"q", ["a", "ccc", "bb", "ddd"], some "r", some (-1), true⟩ [("r", longest)] "r" _ _ _ _ _ _
    rfl rfl fun _ => rfl).2.2, by simp [keep, upTo, descending, itemsOf, List.mergeSort]⟩

end Results

end Llmops.Embedding
