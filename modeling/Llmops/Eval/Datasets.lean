import Llmops.Lib.Conversion
import Llmops.Eval.Reports

/-!
# Which files are a dataset's (`eval_reports.py`, `dataset_service.py`)

The name of a file joins a dataset and a subset by an underscore, which dataset names have too. The
files of a dataset are found by its name and an underscore.

* `isOf_stem`: the names that belong to a dataset;
* `catalogue_overlap`: the datasets of the catalogue of which one begins as another one ends;
* `unmixed_iff`: the files of the datasets of a run are told apart exactly if none of these meet, and
  then the rows of the datasets are the rows that were written.
-/

namespace Llmops.Eval

open Lib

/-- The keys of `EVAL_CATALOG`. -/
def evalKeys : List String :=
  ["mmlu", "arc", "hellaswag", "gsm8k", "ifeval", "truthful_qa", "gpqa_diamond", "mmlu_pro",
    "mmlu_redux", "super_gpqa", "trivia_qa", "ceval", "cmmlu", "iquiz", "bbh", "logi_qa", "math_500",
    "competition_math", "aime24", "aime25", "mgsm", "mmmlu", "tool_bench", "general_fc",
    "needle_haystack", "longbench_v2", "frames", "openai_mrcr", "simple_qa", "chinese_simple_qa",
    "humaneval"]

/-- A file that an eval writes for a dataset, or for a subset of it. -/
structure Written where
  kind : Kind
  model : String
  dataset : String
  subset : Option String
  text : String

/-- `<dataset>` or `<dataset>_<subset>`. -/
def Written.stem (w : Written) : String :=
  match w.subset with
  | none => w.dataset
  | some s => w.dataset ++ "_" ++ s

def Written.file (w : Written) (runDir : String) : Path × String :=
  (⟨runDir, w.kind, w.model, w.stem ++ jsonl⟩, w.text)

/-- A run over distinct datasets of the catalogue, with its files. -/
structure EvalRun where
  dir : String
  datasets : List String
  distinct : datasets.Nodup
  catalogued : ∀ d ∈ datasets, d ∈ evalKeys
  files : List Written
  owned : ∀ w ∈ files, w.dataset ∈ datasets

def EvalRun.disk (r : EvalRun) : Disk := r.files.map fun w => w.file r.dir

/-- The files that are found for a dataset are its own. -/
def Unmixed (r : EvalRun) : Prop :=
  ∀ d ∈ r.datasets, ∀ w ∈ r.files, w.file r.dir ∈ filesOf r.disk w.kind r.dir d ↔ w.dataset = d

/-- What MMLU-Pro and MMLU-Redux are called after the name of MMLU. -/
def variants : List String := ["pro", "redux"]

/-- No files of MMLU-Pro or MMLU-Redux beside MMLU, and no subset of MMLU that is called as one of
them, beside it; no directory of a model is hidden. -/
structure Apart (r : EvalRun) : Prop where
  variant : ∀ w ∈ r.files, ∀ v ∈ variants, w.dataset = "mmlu_" ++ v → "mmlu" ∉ r.datasets
  subset : ∀ w ∈ r.files, ∀ v ∈ variants, w.dataset = "mmlu" → "mmlu_" ++ v ∈ r.datasets →
    ∀ s ∈ w.subset, s ≠ v ∧ startsWith s (v ++ "_") = false
  visible : ∀ w ∈ r.files, startsWith w.model "." = false

/-! ## Names -/

section Names

variable {d e s stem : String} {w : Written}

/-- **The names** that are found for a dataset: its own, and what begins with it and an underscore. -/
theorem isOf_stem :
    isOf d (stem ++ jsonl) = true ↔ stem = d ∨ startsWith stem (d ++ "_") = true := by
  unfold isOf
  rw [Bool.or_eq_true, Bool.and_eq_true, decide_eq_true_iff, startsWith_iff, startsWith_iff,
    List.isSuffixOf_iff_suffix, or_comm]
  have hlen : d.length + 1 = (d ++ "_").toList.length := by
    rw [String.toList_append, List.length_append, String.length_toList]
    rfl
  rw [hlen, String.toList_append (s := stem)]
  refine or_congr ?_ ⟨fun h => ?_, fun h => ?_⟩
  · rw [← String.toList_inj, ← String.toList_inj, String.toList_append, String.toList_append,
      List.append_left_inj]
  · obtain ⟨hpre, hsuf⟩ := h
    have hle := hsuf.length_le
    rw [List.length_drop, List.length_append] at hle
    have hfit := hpre.length_le
    refine List.prefix_of_prefix_length_le hpre (List.prefix_append _ _) ?_
    have hpos : 0 < jsonl.toList.length := by decide
    omega
  · obtain ⟨t, ht⟩ := h
    refine ⟨?_, ?_⟩
    · rw [← ht, List.append_assoc]
      exact List.prefix_append _ _
    · rw [← ht, List.append_assoc, List.drop_left]
      exact List.suffix_append _ _

/-- **The catalogue**: one key and an underscore begin another one and an underscore for MMLU only. -/
theorem catalogue_overlap (hd : d ∈ evalKeys) (he : e ∈ evalKeys) (hne : d ≠ e)
    (h : (d ++ "_").toList <+: (e ++ "_").toList) : d = "mmlu" ∧ ∃ v ∈ variants, e = "mmlu_" ++ v := by
  have hall : ∀ d ∈ evalKeys, ∀ e ∈ evalKeys, d ≠ e → (d ++ "_").toList <+: (e ++ "_").toList →
      d = "mmlu" ∧ ∃ v ∈ variants, e = "mmlu_" ++ v := by decide +kernel
  exact hall d hd e he hne h

theorem toList_variant (v : String) :
    ("mmlu_" ++ v).toList = ("mmlu" ++ "_").toList ++ v.toList := by
  rw [String.toList_append]
  rfl

theorem toList_underscore : (d ++ "_").toList = d.toList ++ "_".toList := String.toList_append

theorem prefix_underscore : d.toList <+: (d ++ "_").toList := by
  rw [toList_underscore]
  exact List.prefix_append _ _

theorem toList_stem (h : w.subset = some s) :
    w.stem.toList = (w.dataset ++ "_").toList ++ s.toList := by
  unfold Written.stem
  rw [h]
  exact String.toList_append

/-- A variant is found for MMLU. -/
theorem startsWith_variant {v : String} (h : w.dataset = "mmlu_" ++ v) :
    ("mmlu" ++ "_").toList <+: w.stem.toList := by
  have hpre : ("mmlu" ++ "_").toList <+: w.dataset.toList := by
    rw [h, toList_variant]
    exact List.prefix_append _ _
  cases hs : w.subset with
  | none =>
    unfold Written.stem
    rw [hs]
    exact hpre
  | some s =>
    rw [toList_stem hs]
    exact (hpre.trans prefix_underscore).trans (List.prefix_append _ _)

/-- The files of another dataset of the catalogue that are found for a dataset. -/
theorem isOf_other (hd : d ∈ evalKeys) (hw : w.dataset ∈ evalKeys) (hne : w.dataset ≠ d) :
    isOf d (w.stem ++ jsonl) = true ↔
      (∃ v ∈ variants, w.dataset = "mmlu_" ++ v ∧ d = "mmlu") ∨
      ∃ v ∈ variants, w.dataset = "mmlu" ∧ d = "mmlu_" ++ v ∧
        ∃ s ∈ w.subset, s = v ∨ startsWith s (v ++ "_") = true := by
  rw [isOf_stem, startsWith_iff]
  constructor
  · intro h
    cases hs : w.subset with
    | none =>
      have hstem : w.stem = w.dataset := by
        unfold Written.stem
        rw [hs]
      rw [hstem] at h
      obtain ⟨hmmlu, v, hv, he⟩ := catalogue_overlap hd hw hne.symm
        ((h.resolve_left hne).trans prefix_underscore)
      exact .inl ⟨v, hv, he, hmmlu⟩
    | some s =>
      have hstem := toList_stem hs
      rcases h with h | h
      · -- the file has the name of the dataset
        have hd' : d.toList = (w.dataset ++ "_").toList ++ s.toList := by rw [← h, hstem]
        obtain ⟨hmmlu, v, hv, he⟩ := catalogue_overlap hw hd hne
          (List.IsPrefix.trans ⟨_, hd'.symm⟩ prefix_underscore)
        refine .inr ⟨v, hv, hmmlu, he, s, rfl, .inl ?_⟩
        rw [he, toList_variant, hmmlu, List.append_right_inj, String.toList_inj] at hd'
        exact hd'.symm
      · rw [hstem] at h
        rcases le_total (d ++ "_").toList.length (w.dataset ++ "_").toList.length with hle | hle
        · obtain ⟨hmmlu, v, hv, he⟩ := catalogue_overlap hd hw hne.symm
            (List.prefix_of_prefix_length_le h (List.prefix_append _ _) hle)
          exact .inl ⟨v, hv, he, hmmlu⟩
        · obtain ⟨hmmlu, v, hv, he⟩ := catalogue_overlap hw hd hne
            (List.prefix_of_prefix_length_le (List.prefix_append _ _) h hle)
          refine .inr ⟨v, hv, hmmlu, he, s, rfl, .inr (startsWith_iff.mpr ?_)⟩
          rw [toList_underscore, he, toList_variant, hmmlu, List.append_assoc,
            List.prefix_append_right_inj] at h
          rw [toList_underscore]
          exact h
  · rintro (⟨v, -, he, rfl⟩ | ⟨v, -, he, rfl, s, hs, h⟩)
    · exact .inr (startsWith_variant he)
    · have hstem := toList_stem hs
      rw [he] at hstem
      rcases h with rfl | h
      · left
        rw [← String.toList_inj, hstem, toList_variant]
      · right
        rw [startsWith_iff, toList_underscore] at h
        rw [hstem, toList_underscore, toList_variant, List.append_assoc, List.prefix_append_right_inj]
        exact h

end Names

/-! ## The files of a run -/

section Runs

variable {r : EvalRun} {w : Written} {d : String} {py : Python} {kind : Kind}

theorem mem_filesOf {disk : Disk} {runDir : String} {f : Path × String} :
    f ∈ filesOf disk kind runDir d ↔ f ∈ disk ∧ f.1.runDir = runDir ∧ f.1.kind = kind ∧
      startsWith f.1.model "." = false ∧ isOf d f.1.name = true := by
  unfold filesOf
  rw [List.mem_insertionSort, List.mem_filter]
  simp only [Bool.and_eq_true, decide_eq_true_eq, Bool.not_eq_true', and_assoc]

theorem isOf_self : isOf w.dataset (w.stem ++ jsonl) = true := by
  rw [isOf_stem, startsWith_iff]
  cases hs : w.subset with
  | none =>
    left
    unfold Written.stem
    rw [hs]
  | some s =>
    right
    rw [toList_stem hs]
    exact List.prefix_append _ _

/-- A file is found for a dataset by its name only. -/
theorem mem_filesOf_file (hw : w ∈ r.files) : w.file r.dir ∈ filesOf r.disk w.kind r.dir d ↔
    startsWith w.model "." = false ∧ isOf d (w.stem ++ jsonl) = true := by
  rw [mem_filesOf]
  have hmem : w.file r.dir ∈ r.disk := List.mem_map.mpr ⟨w, hw, rfl⟩
  exact ⟨fun h => h.2.2.2, fun h => ⟨hmem, rfl, rfl, h⟩⟩

theorem mmlu_ne_variant : ∀ v ∈ variants, "mmlu" ≠ "mmlu_" ++ v := by decide

/-- **The datasets of a run** are told apart exactly if none of MMLU's files and its variants' meet. -/
theorem unmixed_iff_apart : Unmixed r ↔ Apart r := by
  constructor
  · intro h
    have hvisible : ∀ w ∈ r.files, startsWith w.model "." = false := fun w hw =>
      ((mem_filesOf_file hw).mp ((h _ (r.owned w hw) w hw).mpr rfl)).1
    have hother : ∀ d ∈ r.datasets, ∀ w ∈ r.files, isOf d (w.stem ++ jsonl) = true →
        w.dataset = d := fun d hd w hw hof =>
      (h d hd w hw).mp ((mem_filesOf_file hw).mpr ⟨hvisible w hw, hof⟩)
    refine ⟨fun w hw v hv he hmem => ?_, fun w hw v hv he hmem s hs => ?_, hvisible⟩
    · have hof := isOf_stem.mpr (.inr (startsWith_iff.mpr (startsWith_variant he)))
      have hsame := hother "mmlu" hmem w hw hof
      exact mmlu_ne_variant v hv (hsame.symm.trans he)
    · have hne : w.dataset ≠ "mmlu_" ++ v := by
        rw [he]
        exact mmlu_ne_variant v hv
      have hnot : ¬ ∃ s ∈ w.subset, s = v ∨ startsWith s (v ++ "_") = true := fun hsub =>
        hne (hother _ hmem w hw ((isOf_other (r.catalogued _ hmem)
          (r.catalogued _ (r.owned w hw)) hne).mpr (.inr ⟨v, hv, he, rfl, hsub⟩)))
      push Not at hnot
      exact ⟨(hnot s hs).1, Bool.eq_false_iff.mpr (hnot s hs).2⟩
  · intro h d hd w hw
    rw [mem_filesOf_file hw]
    constructor
    · rintro ⟨-, hof⟩
      by_contra hne
      rcases (isOf_other (r.catalogued d hd) (r.catalogued _ (r.owned w hw)) hne).mp hof with
        ⟨v, hv, he, rfl⟩ | ⟨v, hv, he, rfl, s, hs, hsub⟩
      · exact h.variant w hw v hv he hd
      · obtain ⟨hs', hstart⟩ := h.subset w hw v hv he hd s hs
        rcases hsub with rfl | hsub
        · exact hs' rfl
        · rw [hstart] at hsub
          cases hsub
    · rintro rfl
      exact ⟨h.visible w hw, isOf_self⟩

end Runs

/-! ## The rows of a run -/

section Rows

variable {r : EvalRun} {w : Written} {d : String} {py : Python}

/-- The review files that are found for a dataset of a run whose datasets are told apart. -/
theorem filesOf_perm (h : Apart r) (hd : d ∈ r.datasets) : (reviewFiles r.disk r.dir d).Perm
    (((r.files.filter fun w => w.kind = .reviews).filter fun w => w.dataset = d).map
      fun w => w.file r.dir) := by
  unfold reviewFiles filesOf EvalRun.disk
  refine (List.perm_insertionSort _ _).trans ?_
  rw [List.filter_map, List.filter_filter]
  refine List.Perm.of_eq (congrArg _ (List.filter_congr fun w hw => ?_))
  have hown : startsWith w.model "." = false ∧ isOf d (w.stem ++ jsonl) = true ↔ w.dataset = d :=
    (mem_filesOf_file hw).symm.trans (unmixed_iff_apart.mpr h d hd w hw)
  rw [Bool.eq_iff_iff]
  simp only [Function.comp_apply, Written.file, decide_true, Bool.true_and, Bool.and_eq_true,
    Bool.not_eq_true', decide_eq_true_eq, and_assoc, hown]
  exact and_comm

/-- The rows of the datasets are the rows that were written, each once. -/
def Attributed (py : Python) (r : EvalRun) : Prop :=
  ∀ rows : String → List Row,
    (∀ d ∈ r.datasets, compactRows py r.disk r.dir d = some (rows d)) →
    ∃ written, ((valuesOf py (r.disk.filter fun f => f.1.kind = .reviews)).mapM fun p =>
        compactRow py p.1 p.2) = some written ∧
      (r.datasets.flatMap rows).Perm written ∧
      (r.datasets.map fun d => (rows d).length).sum = written.length

theorem attributed_of_apart (h : Apart r) : Attributed py r := by
  intro rows hrows
  let reviews := r.files.filter fun w => w.kind = .reviews
  have hreviews : r.disk.filter (fun f => f.1.kind = .reviews) =
      reviews.map fun w => w.file r.dir := by
    unfold EvalRun.disk
    rw [List.filter_map]
    rfl
  have hfiles : (r.datasets.flatMap fun d => reviewFiles r.disk r.dir d).Perm
      (r.disk.filter fun f => f.1.kind = .reviews) := by
    rw [hreviews]
    refine (List.Perm.flatMap_left r.datasets fun d hd => filesOf_perm h hd).trans ?_
    rw [← List.map_flatMap]
    exact (flatMap_filter_perm r.distinct fun w hw =>
      r.owned w (List.mem_of_mem_filter hw)).map _
  have hvalues : (r.datasets.flatMap fun d => valuesOf py (reviewFiles r.disk r.dir d)).Perm
      (valuesOf py (r.disk.filter fun f => f.1.kind = .reviews)) := by
    unfold valuesOf
    rw [← List.flatMap_assoc]
    exact hfiles.flatMap_right _
  obtain ⟨written, hwritten, hperm⟩ := mapM_perm (mapM_flatMap hrows) hvalues
  refine ⟨written, hwritten, hperm, ?_⟩
  rw [← hperm.length_eq, List.length_flatMap]

/-- **Datasets do not mix** exactly if none of MMLU's files and its variants' meet; then every row is a
row of one dataset. -/
theorem unmixed_iff (py : Python) (r : EvalRun) :
    (Unmixed r ↔ Apart r) ∧ (Apart r → Attributed py r) :=
  ⟨unmixed_iff_apart, attributed_of_apart⟩

end Rows

/-- MMLU and MMLU-Pro in one run. -/
def mmluRun : EvalRun where
  dir := "1"
  datasets := ["mmlu", "mmlu_pro"]
  distinct := by decide
  catalogued := by decide
  files := [⟨.reviews, "m", "mmlu", some "law", ""⟩, ⟨.reviews, "m", "mmlu_pro", some "law", ""⟩]
  owned := by simp

/-- The reviews of MMLU-Pro are found for MMLU too. -/
theorem mmluRun_mixed : ¬ Unmixed mmluRun := by
  intro h
  have hpro : (⟨.reviews, "m", "mmlu_pro", some "law", ""⟩ : Written) ∈ mmluRun.files := by
    simp [mmluRun]
  exact (unmixed_iff_apart.mp h).variant _ hpro "pro" (by decide) rfl (by decide)

end Llmops.Eval
