import Llmops.Eval.Datasets

/-!
# The detail of a listed sample (`eval_reports.py`)

The list spans all the files of a dataset, the detail is looked up by the index alone, in the reviews
and in the predictions: the first row in the order of the files. Indices start anew in every subset.

* `Finished`: what the files of a finished run hold;
* `detail_agrees_iff`: the detail of every listed row is that of the row exactly if samples of the
  dataset with the same index are the same in what is shown of them.
-/

namespace Llmops.Eval

open Lib

section Rows

variable (py : Python) (disk : Disk) (runDir dataset : String)

/-- The rows of the review files. -/
def reviewRows : List (Path × Json) := valuesOf py (reviewFiles disk runDir dataset)

/-- The rows of the prediction files. -/
def predRows : List (Path × Json) := valuesOf py (predFiles disk runDir dataset)

/-- An object with this index. -/
def indexed (i : Scalar) (p : Path × Json) : Bool := p.2.asObj.any fun d => hasIndex d i

/-- The prediction with the same subset and index as a review: the first one in the file that is
called as the file of the review. -/
def predictionOf (path : Path) (i : Scalar) : Option (Dict Json) :=
  (((predRows py disk runDir dataset).filter fun q => q.1.place = path.place).find?
    (indexed i)).bind fun q => q.2.asObj

/-- The files of a finished run: a review has a target, a prediction a prompt and an answer, and there
is one for each index of a subset where there is the other. -/
structure Finished : Prop where
  target : ∀ p ∈ reviewRows py disk runDir dataset, ∀ d, p.2 = .obj d → field d "target" ≠ .null
  prediction : ∀ p ∈ predRows py disk runDir dataset, ∃ d, p.2 = .obj d ∧
    (field d "messages").truthy = true ∧ (answerAndPerf d).isSome
  paired : ∀ place i, (∃ p ∈ reviewRows py disk runDir dataset, p.1.place = place ∧ indexed i p) ↔
    ∃ p ∈ predRows py disk runDir dataset, p.1.place = place ∧ indexed i p

/-- The detail of every listed row is the detail of that row. -/
def DetailAgrees (rows : List Row) : Prop :=
  ∀ p row, (p, row) ∈ (reviewRows py disk runDir dataset).zip rows →
    ∀ i, row.index.scalar = some i → ∃ d pred, sample py disk runDir dataset i = some (some d) ∧
      predictionOf py disk runDir dataset p.1 i = some pred ∧
      d.scores = row.scores ∧ d.correct = row.correct ∧
      d.target.bind (fun t => truncate py (.str t)) = row.target ∧
      d.prompt = field pred "messages" ∧ (answerAndPerf pred).map Prod.fst = some d.answer

/-- Samples with the same index have the same scores and target, prompt and answer. -/
def IndexTells : Prop :=
  ∀ p ∈ reviewRows py disk runDir dataset, ∀ q ∈ reviewRows py disk runDir dataset,
    ∀ d e i, p.2 = .obj d → q.2 = .obj e → hasIndex d i = true → hasIndex e i = true →
      (scoreOf py d).map Score.value = (scoreOf py e).map Score.value ∧
      truncate py (.str (asText (field d "target"))) =
        truncate py (.str (asText (field e "target"))) ∧
      ∀ pred pred', predictionOf py disk runDir dataset p.1 i = some pred →
        predictionOf py disk runDir dataset q.1 i = some pred' →
        field pred "messages" = field pred' "messages" ∧
        (answerAndPerf pred).map Prod.fst = (answerAndPerf pred').map Prod.fst

end Rows

/-! ## The first row with an index -/

section First

variable {py : Python} {disk : Disk} {runDir dataset : String} {kind : Kind} {i : Scalar}
  {values : List (Path × Json)} {p q : Path × Json} {d : Dict Json}

theorem indexed_iff : indexed i p = true ↔ ∃ d, p.2 = .obj d ∧ hasIndex d i = true := by
  unfold indexed
  rw [Option.any_eq_true]
  simp only [Json.asObj_eq_some]

theorem findRow_eq (h : ∀ p ∈ values, p.2.asObj.isSome) :
    findRow i values = some ((values.find? (indexed i)).bind fun p => p.2.asObj) := by
  induction values with
  | nil => rfl
  | cons p values ih =>
    obtain ⟨hp, hvalues⟩ := List.forall_mem_cons.mp h
    obtain ⟨d, hd⟩ := Option.isSome_iff_exists.mp hp
    have hindexed : indexed i p = hasIndex d i := by
      unfold indexed
      rw [hd, Option.any_some]
    obtain ⟨path, r⟩ := p
    simp only [findRow, hd, Option.bind_eq_bind, Option.bind_some, List.find?_cons, hindexed]
    cases hasIndex d i with
    | true => simp [hd]
    | false => simpa using ih hvalues

/-- The rows stand in the order of their files. -/
theorem pairwise_valuesOf :
    (valuesOf py (filesOf disk kind runDir dataset)).Pairwise fun p q => p.1.place ≤ q.1.place := by
  unfold valuesOf filesOf
  rw [List.pairwise_flatMap]
  refine ⟨fun f _ => ?_, ?_⟩
  · rw [List.pairwise_map]
    exact List.pairwise_of_forall fun _ _ => le_rfl
  · refine (List.pairwise_insertionSort _ _).imp fun {f g} hle p hp q hq => ?_
    obtain ⟨_, _, rfl⟩ := List.mem_map.mp hp
    obtain ⟨_, _, rfl⟩ := List.mem_map.mp hq
    exact hle

/-- The first row with an index stands in the first file with it. -/
theorem place_le_of_find (h : values.Pairwise fun p q => p.1.place ≤ q.1.place)
    (hfind : values.find? (indexed i) = some p) (hq : q ∈ values) (hi : indexed i q = true) :
    p.1.place ≤ q.1.place := by
  obtain ⟨-, before, after, rfl, hbefore⟩ := List.find?_eq_some_iff_append.mp hfind
  rcases List.mem_append.mp hq with hq | hq
  · have := hbefore q hq
    rw [hi] at this
    cases this
  · rcases List.mem_cons.mp hq with rfl | hq
    · exact le_rfl
    · exact (List.pairwise_cons.mp (List.pairwise_append.mp h).2.1).1 q hq

/-- The first row with an index is the first one of its file. -/
theorem find_filter_of_find {k : Path × Json → Bool} (hfind : values.find? (indexed i) = some p)
    (hk : k p = true) : (values.filter k).find? (indexed i) = some p := by
  obtain ⟨hi, before, after, rfl, hbefore⟩ := List.find?_eq_some_iff_append.mp hfind
  refine List.find?_eq_some_iff_append.mpr ⟨hi, before.filter k, after.filter k, ?_, fun q hq =>
    hbefore q (List.mem_of_mem_filter hq)⟩
  rw [List.filter_append, List.filter_cons, if_pos hk]

end First

/-! ## Rows and details -/

section Details

variable {py : Python} {disk : Disk} {runDir dataset : String} {i : Scalar} {path : Path}
  {p : Path × Json} {r : Json} {d e : Dict Json} {row : Row} {rows : List Row} {s t : Score}

/-- Mean and correctness are those of the value. -/
theorem score_eq_some (h : scoreOf py d = some s) :
    (let nums := s.value.filterMap fun p => number p.2
    if nums.isEmpty then some ⟨s.value, none, false⟩
    else (py.mean nums).map fun mean =>
      (⟨s.value, some mean, decide (1 / 2 ≤ mean.value)⟩ : Score)) = some s := by
  unfold scoreOf at h
  simp only [Option.bind_eq_bind, Option.bind_eq_some_iff] at h
  obtain ⟨sc, -, v, -, value, -, h⟩ := h
  split_ifs at h with hempty
  · cases h
    exact if_pos hempty
  · obtain ⟨mean, hmean, h⟩ := Option.bind_eq_some_iff.mp h
    cases h
    simp only [hempty, hmean]
    rfl

theorem score_of_value (hs : scoreOf py d = some s) (ht : scoreOf py e = some t)
    (h : s.value = t.value) : s = t := by
  have hs' := score_eq_some hs
  have ht' := score_eq_some ht
  rw [h] at hs'
  exact Option.some.inj (hs'.symm.trans ht')

/-- What a row takes from its review. -/
theorem compactRow_eq_some (h : compactRow py path r = some row) : ∃ d s, r = .obj d ∧
    scoreOf py d = some s ∧ row.index = field d "index" ∧ row.scores = s.value ∧
    row.correct = s.correct ∧ row.target = truncate py (.str (asText (field d "target"))) := by
  unfold compactRow at h
  simp only [Option.bind_eq_bind, Option.bind_eq_some_iff] at h
  obtain ⟨d, hd, sc, -, s, hs, extracted, -, prediction, -, h⟩ := h
  cases h
  exact ⟨d, s, Json.asObj_eq_some.mp hd, hs, rfl, rfl, rfl, rfl⟩

theorem detailOf_eq {answer : Json} {perf : Option Perf} (hs : scoreOf py d = some s)
    (htarget : field d "target" ≠ .null) (hprompt : (field e "messages").truthy = true)
    (hanswer : answerAndPerf e = some (answer, perf)) :
    detailOf py i d e = some ⟨i, field e "messages", answer, some (asText (field d "target")),
      s.value, s.correct, perf⟩ := by
  unfold detailOf
  simp only [hanswer, hs, Option.bind_eq_bind, Option.bind_some, orElse, hprompt, if_true]
  rfl

theorem row_of_zip (hrows : compactRows py disk runDir dataset = some rows)
    (hp : (p, row) ∈ (reviewRows py disk runDir dataset).zip rows) :
    compactRow py p.1 p.2 = some row :=
  @eq_of_mem_zip _ _ (fun p : Path × Json => compactRow py p.1 p.2) _ _ _ _ hrows hp

/-- The first prediction with the index of a review is the review's own, for the first review. -/
theorem predictionOf_first {p₁ q₁ : Path × Json} (hfin : Finished py disk runDir dataset)
    (hp₁ : (reviewRows py disk runDir dataset).find? (indexed i) = some p₁)
    (hq₁ : (predRows py disk runDir dataset).find? (indexed i) = some q₁) :
    predictionOf py disk runDir dataset p₁.1 i = q₁.2.asObj := by
  have hpmem := List.mem_of_find?_eq_some hp₁
  have hqmem := List.mem_of_find?_eq_some hq₁
  -- each of the two stands in the first file of its kind with the index
  have hle : q₁.1.place ≤ p₁.1.place := by
    obtain ⟨q, hq, hplace, hi⟩ := (hfin.paired _ i).mp ⟨p₁, hpmem, rfl, List.find?_some hp₁⟩
    rw [← hplace]
    exact place_le_of_find pairwise_valuesOf hq₁ hq hi
  have hge : p₁.1.place ≤ q₁.1.place := by
    obtain ⟨p, hp, hplace, hi⟩ := (hfin.paired _ i).mpr ⟨q₁, hqmem, rfl, List.find?_some hq₁⟩
    rw [← hplace]
    exact place_le_of_find pairwise_valuesOf hp₁ hp hi
  unfold predictionOf
  rw [find_filter_of_find hq₁ (by simpa using le_antisymm hle hge), Option.bind_some]

/-- **The sample** with an index is that of the first review with it and its own prediction. -/
theorem sample_eq (hfin : Finished py disk runDir dataset)
    (hrows : compactRows py disk runDir dataset = some rows)
    (hp : p ∈ reviewRows py disk runDir dataset) (hi : indexed i p = true) :
    ∃ q d e, q ∈ reviewRows py disk runDir dataset ∧ q.2 = .obj d ∧ hasIndex d i = true ∧
      predictionOf py disk runDir dataset q.1 i = some e ∧ (field e "messages").truthy = true ∧
      (answerAndPerf e).isSome ∧
      sample py disk runDir dataset i = (detailOf py i d e).map some := by
  have hobjects : ∀ p ∈ reviewRows py disk runDir dataset, p.2.asObj.isSome := fun p hp => by
    obtain ⟨row, hzip⟩ := exists_mem_zip_left hrows hp
    obtain ⟨d, s, hd, -⟩ := compactRow_eq_some (row_of_zip hrows hzip)
    rw [hd]
    rfl
  have hpreds : ∀ q ∈ predRows py disk runDir dataset, q.2.asObj.isSome := fun q hq => by
    obtain ⟨e, he, -⟩ := hfin.prediction q hq
    rw [he]
    rfl
  obtain ⟨p₁, hp₁⟩ := Option.isSome_iff_exists.mp (List.find?_isSome.mpr ⟨p, hp, hi⟩)
  obtain ⟨q, hq, -, hqi⟩ := (hfin.paired _ i).mp ⟨p, hp, rfl, hi⟩
  obtain ⟨q₁, hq₁⟩ := Option.isSome_iff_exists.mp (List.find?_isSome.mpr ⟨q, hq, hqi⟩)
  obtain ⟨d, hd, hdi⟩ := indexed_iff.mp (List.find?_some hp₁)
  obtain ⟨e, he, hmessages, hanswer⟩ := hfin.prediction q₁ (List.mem_of_find?_eq_some hq₁)
  refine ⟨p₁, d, e, List.mem_of_find?_eq_some hp₁, hd, hdi, ?_, hmessages, hanswer, ?_⟩
  · rw [predictionOf_first hfin hp₁ hq₁, he]
    rfl
  · have hreview : findRow i (valuesOf py (reviewFiles disk runDir dataset)) = some (some d) := by
      change findRow i (reviewRows py disk runDir dataset) = _
      rw [findRow_eq hobjects, hp₁, Option.bind_some, hd]
      rfl
    have hpred : findRow i (valuesOf py (predFiles disk runDir dataset)) = some (some e) := by
      change findRow i (predRows py disk runDir dataset) = _
      rw [findRow_eq hpreds, hq₁, Option.bind_some, he]
      rfl
    unfold sample
    rw [hreview, hpred]
    cases hdetail : detailOf py i d e with
    | none => simp [hdetail]
    | some detail => simp [hdetail]

/-- A review with an index has a prediction with it. -/
theorem exists_predictionOf (hfin : Finished py disk runDir dataset)
    (hp : p ∈ reviewRows py disk runDir dataset) (hi : indexed i p = true) :
    ∃ pred, predictionOf py disk runDir dataset p.1 i = some pred := by
  obtain ⟨q, hq, hplace, hqi⟩ := (hfin.paired _ i).mp ⟨p, hp, rfl, hi⟩
  have hfound : (((predRows py disk runDir dataset).filter fun q => q.1.place = p.1.place).find?
      (indexed i)).isSome :=
    List.find?_isSome.mpr ⟨q, List.mem_filter.mpr ⟨hq, by simpa using hplace⟩, hqi⟩
  obtain ⟨q₁, hq₁⟩ := Option.isSome_iff_exists.mp hfound
  obtain ⟨e, he, -⟩ := indexed_iff.mp (List.find?_some hq₁)
  refine ⟨e, ?_⟩
  unfold predictionOf
  rw [hq₁, Option.bind_some, he]
  rfl

/-- Rows whose details are theirs tell the samples with one index apart. -/
theorem tells_of_agrees (hrows : compactRows py disk runDir dataset = some rows)
    (h : DetailAgrees py disk runDir dataset rows) : IndexTells py disk runDir dataset := by
  intro p hp q hq d e i hpd hqe hdi hei
  obtain ⟨row, hrow⟩ := exists_mem_zip_left hrows hp
  obtain ⟨row', hrow'⟩ := exists_mem_zip_left hrows hq
  obtain ⟨d', s, hd', hs, hindex, hscores, -, htarget⟩ :=
    compactRow_eq_some (row_of_zip hrows hrow)
  obtain ⟨e', t, he', ht, hindex', hscores', -, htarget'⟩ :=
    compactRow_eq_some (row_of_zip hrows hrow')
  cases hpd.symm.trans hd'
  cases hqe.symm.trans he'
  obtain ⟨detail, pred, hsample, hpred, hsc, -, htg, hprompt, hanswer⟩ :=
    h p row hrow i (by rw [hindex]; simpa [hasIndex] using hdi)
  obtain ⟨detail', pred', hsample', hpred', hsc', -, htg', hprompt', hanswer'⟩ :=
    h q row' hrow' i (by rw [hindex']; simpa [hasIndex] using hei)
  cases hsample.symm.trans hsample'
  refine ⟨?_, ?_, fun a b ha hb => ?_⟩
  · rw [hs, ht, Option.map_some, Option.map_some, ← hscores, ← hscores', ← hsc, ← hsc']
  · rw [← htarget, ← htarget', ← htg, ← htg']
  · cases hpred.symm.trans ha
    cases hpred'.symm.trans hb
    exact ⟨hprompt.symm.trans hprompt', hanswer.trans hanswer'.symm⟩

/-- Where samples with one index are the same, the details of a row are those of its sample. -/
theorem agrees_of_tells (hfin : Finished py disk runDir dataset)
    (hrows : compactRows py disk runDir dataset = some rows)
    (h : IndexTells py disk runDir dataset) : DetailAgrees py disk runDir dataset rows := by
  intro p row hrow i hi
  have hp : p ∈ reviewRows py disk runDir dataset := (List.of_mem_zip hrow).1
  obtain ⟨d₀, s₀, hd₀, hs₀, hindex, hscores, hcorrect, htarget⟩ :=
    compactRow_eq_some (row_of_zip hrows hrow)
  have hi₀ : hasIndex d₀ i = true := by
    rw [hindex] at hi
    simpa [hasIndex] using hi
  have hpi : indexed i p = true := indexed_iff.mpr ⟨d₀, hd₀, hi₀⟩
  obtain ⟨q, d, e, hq, hqd, hdi, hpred, hmessages, hanswer, hsample⟩ :=
    sample_eq hfin hrows hp hpi
  obtain ⟨row', hrow'⟩ := exists_mem_zip_left hrows hq
  obtain ⟨d', s, hd', hs, -⟩ := compactRow_eq_some (row_of_zip hrows hrow')
  cases hqd.symm.trans hd'
  obtain ⟨⟨answer, perf⟩, hanswer⟩ := Option.isSome_iff_exists.mp hanswer
  obtain ⟨pred, hpred₀⟩ := exists_predictionOf hfin hp hpi
  obtain ⟨hvalue, htg, hpreds⟩ := h q hq p hp d d₀ i hqd hd₀ hdi hi₀
  obtain ⟨hprompt, hans⟩ := hpreds e pred hpred hpred₀
  rw [hs, hs₀, Option.map_some, Option.map_some] at hvalue
  cases score_of_value hs hs₀ (Option.some.inj hvalue)
  rw [detailOf_eq hs (hfin.target q hq d hqd) hmessages hanswer] at hsample
  refine ⟨_, pred, hsample, hpred₀, hscores.symm, hcorrect.symm, ?_, hprompt, ?_⟩
  · rw [htarget, ← htg]
    rfl
  · rw [← hans, hanswer]
    rfl

/-- **The details** of the listed rows are those of the rows exactly if samples of the dataset with the
same index are the same. -/
theorem detail_agrees_iff (hfin : Finished py disk runDir dataset)
    (hrows : compactRows py disk runDir dataset = some rows) :
    DetailAgrees py disk runDir dataset rows ↔ IndexTells py disk runDir dataset :=
  ⟨tells_of_agrees hrows, agrees_of_tells hfin hrows⟩

end Details

/-! ## Finished runs, checked -/

section Check

variable (py : Python) (disk : Disk) (runDir dataset : String)

/-- The file and the index of a row. -/
def keyOf (p : Path × Json) : (String ×ₗ String) × Option Scalar :=
  (p.1.place, p.2.asObj.bind fun d => (field d "index").scalar)

def checkFinished : Bool :=
  ((reviewRows py disk runDir dataset).all fun p =>
    p.2.asObj.all fun d => field d "target" matches .str _) &&
  ((predRows py disk runDir dataset).all fun q => q.2.asObj.any fun d =>
    (field d "messages").truthy && (answerAndPerf d).isSome) &&
  decide ((reviewRows py disk runDir dataset).map keyOf = (predRows py disk runDir dataset).map keyOf)

variable {py disk runDir dataset} {values : List (Path × Json)} {i : Scalar}
  {place : String ×ₗ String}

theorem mem_map_keyOf : (∃ p ∈ values, p.1.place = place ∧ indexed i p = true) ↔
    (place, some i) ∈ values.map keyOf := by
  rw [List.mem_map]
  refine exists_congr fun p => and_congr_right fun _ => ?_
  unfold keyOf indexed
  rw [Prod.mk.injEq]
  refine and_congr_right fun _ => ?_
  cases p.2.asObj with
  | none => simp
  | some d => simp [hasIndex]

theorem Finished.of_check (h : checkFinished py disk runDir dataset = true) :
    Finished py disk runDir dataset := by
  unfold checkFinished at h
  obtain ⟨h, hkeys⟩ := Bool.and_eq_true_iff.mp h
  obtain ⟨htarget, hpred⟩ := Bool.and_eq_true_iff.mp h
  rw [List.all_eq_true] at htarget hpred
  refine ⟨fun p hp d hd hnull => ?_, fun q hq => ?_, fun place i => ?_⟩
  · have := htarget p hp
    rw [hd, Json.asObj, Option.all_some, hnull] at this
    cases this
  · obtain ⟨d, hd, hok⟩ := (Option.any_eq_true _ _).mp (hpred q hq)
    exact ⟨d, Json.asObj_eq_some.mp hd, Bool.and_eq_true_iff.mp hok⟩
  · rw [mem_map_keyOf, mem_map_keyOf, of_decide_eq_true hkeys]

/-- Indices of which each stands in one review only tell the samples. -/
theorem indexTells_of_nodup
    (h : ((reviewRows py disk runDir dataset).map fun p => (keyOf p).2).Nodup) :
    IndexTells py disk runDir dataset := by
  intro p hp q hq d e i hd he hdi hei
  have hindex {r : Path × Json} {d : Dict Json} (hr : r.2 = .obj d) (hi : hasIndex d i = true) :
      (keyOf r).2 = some i := by
    rw [keyOf, hr]
    exact of_decide_eq_true hi
  obtain rfl : p = q :=
    List.inj_on_of_nodup_map h hp hq ((hindex hd hdi).trans (hindex he hei).symm)
  cases hd.symm.trans he
  refine ⟨rfl, rfl, fun pred pred' hpred hpred' => ?_⟩
  cases hpred.symm.trans hpred'
  exact ⟨rfl, rfl⟩

end Check

/-! ## Two subsets -/

/-- A review with an index and a target. -/
def reviewOf (index : Int) (target : String) : Json :=
  .obj [("index", .int index), ("target", .str target)]

/-- The prediction with the same index. -/
def predOf (index : Int) (prompt : String) : Json :=
  .obj [("index", .int index), ("messages", .arr [.str prompt])]

/-- `json.loads` on the lines of these values. -/
def twoValues : Python where
  loads s := [reviewOf 1 "A", reviewOf 1 "B", reviewOf 2 "B", predOf 1 "p", predOf 1 "q",
    predOf 2 "q"].find? fun v => dumps false v = s
  mean _ := none
  printable c := c.toNat < 128

/-- A subset of MMLU with one sample. -/
def subsetFiles (subset : String) (index : Int) (target prompt : String) : Disk :=
  [(⟨"1", .reviews, "m", "mmlu_" ++ subset ++ ".jsonl"⟩, dumps false (reviewOf index target)),
    (⟨"1", .predictions, "m", "mmlu_" ++ subset ++ ".jsonl"⟩, dumps false (predOf index prompt))]

/-- The files of two subsets, the index of the second one given. -/
def subsetsFrom (index : Int) : Disk :=
  subsetFiles "anatomy" 1 "A" "p" ++ subsetFiles "law" index "B" "q"

/-- The index starts anew in the second subset. -/
def twoSubsets : Disk := subsetsFrom 1

/-- A row whose target is not that of the sample with its index. -/
def misplaced (row : Row) : Bool :=
  row.index.scalar = some (.num 1) && ((sample twoValues twoSubsets "1" "mmlu" (.num 1)).any fun d =>
    d.any fun d => d.target.bind (fun t => truncate twoValues (.str t)) ≠ row.target)

/-- Indices that start anew in the second subset: its sample has the detail of the first one's. -/
theorem second_subset : ∃ rows, Finished twoValues twoSubsets "1" "mmlu" ∧
    compactRows twoValues twoSubsets "1" "mmlu" = some rows ∧
    ¬ DetailAgrees twoValues twoSubsets "1" "mmlu" rows := by
  have hany : (compactRows twoValues twoSubsets "1" "mmlu").any (fun rows => rows.any misplaced) =
      true := by decide +kernel
  obtain ⟨rows, hrows, hrow⟩ := (Option.any_eq_true _ _).mp hany
  refine ⟨rows, Finished.of_check (by decide +kernel), hrows, fun h => ?_⟩
  obtain ⟨row, hmem, hrow⟩ := List.any_eq_true.mp hrow
  obtain ⟨hindex, hsample⟩ := Bool.and_eq_true_iff.mp hrow
  obtain ⟨p, hp⟩ := exists_mem_zip_right hrows hmem
  obtain ⟨d, -, hd, -, -, -, htarget, -⟩ := h p row hp _ (of_decide_eq_true hindex)
  obtain ⟨d', hd', hne⟩ := (Option.any_eq_true _ _).mp hsample
  rw [hd] at hd'
  cases hd'
  exact of_decide_eq_true hne htarget

/-- Two subsets that go on counting. -/
theorem detail_agrees_subsetsFrom : ∃ rows,
    compactRows twoValues (subsetsFrom 2) "1" "mmlu" = some rows ∧ rows.length = 2 ∧
      DetailAgrees twoValues (subsetsFrom 2) "1" "mmlu" rows := by
  have hany : (compactRows twoValues (subsetsFrom 2) "1" "mmlu").any (·.length = 2) = true := by
    decide +kernel
  obtain ⟨rows, hrows, hlength⟩ := (Option.any_eq_true _ _).mp hany
  exact ⟨rows, hrows, of_decide_eq_true hlength,
    (detail_agrees_iff (Finished.of_check (by decide +kernel)) hrows).mpr
      (indexTells_of_nodup (by decide +kernel))⟩

end Llmops.Eval
