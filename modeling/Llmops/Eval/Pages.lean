import Llmops.Eval.Reports
import Llmops.Lib.Lru
import Llmops.Lib.Run

/-!
# Pages of a run that is still written (`eval_reports.py`, `api/eval.py`)

The rows of a dataset are memoised for each run directory, while the endpoint serves runs that are
still writing their files.

* `fresh_reach`: the memoised rows are those of the files in every run without a write to files whose
  rows are memoised;
* `pages_reflect`: in such a run every page is the page of the files, and the pages of a filter put
  together are its rows;
* `stale_page`: a page, a line more, and the same page.
-/

namespace Llmops.Eval

open Lib

/-- The memoised rows, by run directory and dataset. -/
abbrev Cache := List ((String × String) × List Row)

/-- The files, and the memory of the process. -/
structure Served where
  disk : Disk
  cache : Cache

section Samples

variable (py : Python)

/-- `_compact_rows`, `@functools.lru_cache(maxsize=16)`. -/
def cachedRows (disk : Disk) (cache : Cache) (runDir dataset : String) : Option (List Row) × Cache :=
  Lru.call 16 cache (runDir, dataset) (compactRows py disk runDir dataset)

/-- `samples`: the rows are asked for three times. -/
def samples (s : Served) (runDir dataset : String) (filter : Filter) (page : Int) (pageSize : Nat) :
    Option Page × Cache :=
  match cachedRows py s.disk s.cache runDir dataset with
  | (none, cache) => (none, cache)
  | (some rows, cache) =>
    match cachedRows py s.disk cache runDir dataset with
    | (none, cache) => (none, cache)
    | (some forCorrect, cache) =>
      match cachedRows py s.disk cache runDir dataset with
      | (none, cache) => (none, cache)
      | (some forAll, cache) =>
        let p := pageOf rows filter page pageSize
        (some { p with
          totalAll := forAll.length
          totalCorrect := (forCorrect.filter fun r => r.correct).length }, cache)

/-- `max(1, min(page_size, 200))`. -/
def sizeOf (pageSize : Int) : Nat := (max 1 (min pageSize 200)).toNat

/-- `get_run_samples`. -/
def getRunSamples (s : Served) (runDir dataset : String) (filter : Filter) (page pageSize : Int) :
    Option Page × Cache :=
  samples py s runDir dataset filter page (sizeOf pageSize)

/-- Write at the end of a file, which is created if it is not there. -/
def append (disk : Disk) (path : Path) (text : String) : Disk :=
  if disk.any fun f => f.1 = path then
    disk.map fun f => if f.1 = path then (f.1, f.2 ++ text) else f
  else disk ++ [(path, text)]

/-- What happens to a run: a write of the eval, or a page that is asked for. -/
inductive Event where
  | write (path : Path) (text : String)
  | ask (runDir dataset : String) (filter : Filter) (page pageSize : Int)

def serve (s : Served) : Event → Option Served
  | .write path text => some { s with disk := append s.disk path text }
  | .ask runDir dataset filter page pageSize =>
    some { s with cache := (getRunSamples py s runDir dataset filter page pageSize).2 }

/-- A write that changes no rows that are memoised. -/
def Quiet (s : Served) : Event → Prop
  | .write path text => ∀ p ∈ s.cache,
      compactRows py (append s.disk path text) p.1.1 p.1.2 = compactRows py s.disk p.1.1 p.1.2
  | .ask .. => True

end Samples

/-! ## One page -/

section Page

variable {py : Python} {s : Served} {runDir dataset : String} {filter : Filter} {page : Int}
  {pageSize : Nat} {rows rows' : List Row}

/-- The three reads of the rows give the same. -/
theorem samples_eq : samples py s runDir dataset filter page pageSize =
    ((cachedRows py s.disk s.cache runDir dataset).1.map fun rows => pageOf rows filter page pageSize,
      (cachedRows py s.disk s.cache runDir dataset).2) := by
  unfold samples
  cases hrows : cachedRows py s.disk s.cache runDir dataset with
  | mk rows cache =>
    cases rows with
    | none => rfl
    | some rows =>
      have hagain : cachedRows py s.disk cache runDir dataset = (some rows, cache) := by
        have h := Lru.call_again (compactRows py s.disk runDir dataset) (congrArg Prod.fst hrows)
        unfold cachedRows at hrows
        rw [hrows] at h
        exact h
      simp only [hagain, Option.map_some]
      rfl

/-- **The pages** of a filter put together. -/
theorem flatMap_pages (rows : List Row) (filter : Filter) (hsize : 0 < pageSize) :
    (List.range (((filter.keep rows).length + pageSize - 1) / pageSize)).flatMap (fun i : Nat =>
      (pageOf rows filter ((i : Int) + 1) pageSize).samples) = filter.keep rows := by
  have hpages : (fun i : Nat => (pageOf rows filter ((i : Int) + 1) pageSize).samples) =
      fun i => ((filter.keep rows).drop (i * pageSize)).take pageSize := by
    funext i
    have hpage : max 1 ((i : Int) + 1) = i + 1 := max_eq_right (by omega)
    simp only [pageOf, hpage, add_sub_cancel_right, Int.toNat_natCast]
  rw [hpages, List.flatMap_def]
  exact flatten_slices hsize

/-- Rows with the same pages are the same. -/
theorem rows_of_pages (h : ∀ page, pageOf rows .all page 1 = pageOf rows' .all page 1) :
    rows = rows' := by
  have hlen : rows.length = rows'.length := congrArg Page.totalAll (h 1)
  have hpages := flatMap_pages rows .all one_pos
  have hpages' := flatMap_pages rows' .all one_pos
  simp only [h, Filter.keep, hlen] at hpages
  simp only [Filter.keep] at hpages'
  exact hpages.symm.trans hpages'

end Page

/-! ## Runs -/

section Reflect

variable {py : Python} {s s' : Served} {e : Event} {runDir dataset : String} {filter : Filter}
  {page : Int} {pageSize : Nat}

/-- The memoised rows are those of the files. -/
def Current (py : Python) (s : Served) : Prop :=
  Lru.Fresh (fun key : String × String => compactRows py s.disk key.1 key.2) s.cache

/-- Every page that is asked for is the page of the files. -/
def Reflects (py : Python) (s : Served) : Prop :=
  ∀ runDir dataset filter page pageSize, (getRunSamples py s runDir dataset filter page pageSize).1 =
    (compactRows py s.disk runDir dataset).map fun rows =>
      pageOf rows filter page (sizeOf pageSize)

/-- Pages that are asked for, and no writes. -/
def Asks : Served → Event → Prop
  | _, .ask .. => True
  | _, .write .. => False

/-- The pages of a filter are the whole of it, also if other pages are asked for in between. -/
def Whole (py : Python) (s : Served) : Prop :=
  ∀ runDir dataset filter pageSize rows, compactRows py s.disk runDir dataset = some rows →
    ∀ states : Nat → Served, (∀ i, Reach (serve py) Asks s (states i)) → ∃ parts,
      (List.range (((filter.keep rows).length + sizeOf pageSize - 1) / sizeOf pageSize)).mapM
        (fun i : Nat => (getRunSamples py (states i) runDir dataset filter ((i : Int) + 1)
          pageSize).1.map Page.samples) = some parts ∧
      parts.flatten = filter.keep rows

/-- Pages are right exactly where the memoised rows are. -/
theorem reflects_iff (hnodup : (s.cache.map Prod.fst).Nodup) : Reflects py s ↔ Current py s := by
  rw [Current, Lru.fresh_iff 16 hnodup]
  constructor
  · rintro h ⟨runDir, dataset⟩
    have hpages := fun page => h runDir dataset .all page 1
    simp only [getRunSamples, samples_eq] at hpages
    change (cachedRows py s.disk s.cache runDir dataset).1 = compactRows py s.disk runDir dataset
    cases hcached : (cachedRows py s.disk s.cache runDir dataset).1 with
    | none =>
      have := hpages 1
      rw [hcached, Option.map_none, eq_comm, Option.map_eq_none_iff] at this
      exact this.symm
    | some rows =>
      rw [hcached] at hpages
      cases hrows : compactRows py s.disk runDir dataset with
      | none =>
        rw [hrows] at hpages
        exact absurd (hpages 1) (by simp)
      | some rows' =>
        rw [hrows] at hpages
        exact congrArg some (rows_of_pages fun page => Option.some.inj (hpages page))
  · intro h runDir dataset filter page pageSize
    rw [getRunSamples, samples_eq]
    exact congrArg (Option.map _) (h (runDir, dataset))

/-- **One step**: a page leaves the rows right and each memoised once, and a write does if it is
quiet, and only then. -/
theorem serve_step (hnodup : (s.cache.map Prod.fst).Nodup) (h : serve py s e = some s') :
    (s'.cache.map Prod.fst).Nodup ∧ (Current py s → (Current py s' ↔ Quiet py s e)) := by
  cases e with
  | write path text =>
    obtain rfl := Option.some.inj h
    exact ⟨hnodup, fun hcur => Lru.Fresh.change_iff hcur⟩
  | ask runDir dataset filter page pageSize =>
    obtain rfl := Option.some.inj h
    simp only [getRunSamples, samples_eq]
    exact ⟨Lru.nodup_call hnodup, fun hcur => iff_of_true
      (Lru.Fresh.call hcur (runDir, dataset)) trivial⟩

theorem sizeOf_pos (pageSize : Int) : 0 < sizeOf pageSize := by
  unfold sizeOf
  omega

/-- Pages leave the files as they are, and right rows right. -/
theorem reach_asks (hnodup : (s.cache.map Prod.fst).Nodup) (hcur : Current py s)
    (h : Reach (serve py) Asks s s') :
    s'.disk = s.disk ∧ (s'.cache.map Prod.fst).Nodup ∧ Current py s' := by
  refine Reach.invariant (I := fun u => u.disk = s.disk ∧ (u.cache.map Prod.fst).Nodup ∧
    Current py u) ⟨rfl, hnodup, hcur⟩ (fun {a b e} ha hG he => ?_) h
  obtain ⟨hdisk, hnodup, hcur⟩ := ha
  obtain ⟨hnodup', hiff⟩ := serve_step hnodup he
  cases e with
  | write path text => exact hG.elim
  | ask runDir dataset filter page pageSize =>
    refine ⟨?_, hnodup', (hiff hcur).mpr trivial⟩
    rw [← hdisk, ← Option.some.inj he]

theorem whole_of_current (hnodup : (s.cache.map Prod.fst).Nodup) (hcur : Current py s) :
    Whole py s := by
  intro runDir dataset filter pageSize rows hrows states hstates
  have hpage : ∀ i : Nat, (getRunSamples py (states i) runDir dataset filter ((i : Int) + 1)
      pageSize).1.map Page.samples =
      some (pageOf rows filter ((i : Int) + 1) (sizeOf pageSize)).samples := fun i => by
    obtain ⟨hdisk, hnodup', hcur'⟩ := reach_asks hnodup hcur (hstates i)
    rw [(reflects_iff hnodup').mpr hcur', hdisk, hrows]
    rfl
  refine ⟨_, ?_, flatMap_pages rows filter (sizeOf_pos pageSize)⟩
  simp only [hpage]
  exact List.mapM_pure

/-- **Pages reflect the files** in all the states of a run exactly if no write of the run changes
rows that are memoised. -/
theorem pages_reflect {s₀ : Served} {es : List Event} (h₀ : s₀.cache = [])
    (hrun : run (serve py) s₀ es = some s) :
    (∀ fs, fs <+: es → ∀ u, run (serve py) s₀ fs = some u → Reflects py u ∧ Whole py u) ↔
      Along (serve py) (Quiet py) s₀ es := by
  have hnodup₀ : (s₀.cache.map Prod.fst).Nodup := by
    rw [h₀]
    exact List.nodup_nil
  have hcur₀ : Current py s₀ := by
    rw [Current, h₀]
    exact Lru.Fresh.nil
  rw [← Reach.forall_run_iff_along (I := fun u => (u.cache.map Prod.fst).Nodup) (G := anyEvent)
    hnodup₀ hcur₀ (fun hI _ he => serve_step hI he) (Reach.along_of_forall fun _ _ _ => trivial) hrun]
  refine forall₂_congr fun fs _ => forall₂_congr fun u hu => ?_
  have hnodup : (u.cache.map Prod.fst).Nodup :=
    Reach.invariant (I := fun u : Served => (u.cache.map Prod.fst).Nodup) hnodup₀
      (fun hI _ he => (serve_step hI he).1) (Reach.of_run hu)
  rw [reflects_iff hnodup]
  exact ⟨And.left, fun hcur => ⟨hcur, whole_of_current hnodup hcur⟩⟩

end Reflect

/-! ## A stale page -/

/-- Two reviews. -/
def reviewLine (n : Int) : String := "\x7b\"index\": " ++ toString n ++ "\x7d"

/-- `json.loads` on them. -/
def demo : Python where
  loads s := if s = reviewLine 1 then some (.obj [("index", .int 1)])
    else if s = reviewLine 2 then some (.obj [("index", .int 2)]) else none
  mean _ := none
  printable c := c.toNat < 128

/-- `reviews/m/gsm8k_main.jsonl` of the first run. -/
def reviewPath : Path := ⟨"1", .reviews, "m", "gsm8k_main.jsonl"⟩

/-- The first page of its samples. -/
def firstPage : Event := .ask "1" "gsm8k" .all 1 50

/-- A run with a review on the disk, which is asked for before the other is written. -/
def oneReview : Served := ⟨[(reviewPath, reviewLine 1 ++ "\n")], []⟩

/-- After a page and a line more the same page does not show the line. -/
theorem stale_page : ∃ u,
    run (serve demo) oneReview [firstPage, .write reviewPath (reviewLine 2 ++ "\n")] = some u ∧
      ¬ Reflects demo u := by
  refine ⟨_, rfl, fun h => ?_⟩
  have hpage := congrArg (Option.map Page.totalAll) (h "1" "gsm8k" .all 1 50)
  revert hpage
  decide +kernel

/-- A line that is written before the first page. -/
theorem pages_reflect_oneReview : ∃ u,
    run (serve demo) oneReview [.write reviewPath (reviewLine 2 ++ "\n"), firstPage] = some u ∧
      ((∀ fs, fs <+: [.write reviewPath (reviewLine 2 ++ "\n"), firstPage] →
        ∀ u, run (serve demo) oneReview fs = some u → Reflects demo u ∧ Whole demo u) ↔
      Along (serve demo) (Quiet demo) oneReview
        [.write reviewPath (reviewLine 2 ++ "\n"), firstPage]) :=
  ⟨_, rfl, pages_reflect rfl rfl⟩

end Llmops.Eval
