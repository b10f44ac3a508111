import Llmops.Lib.JsonText
import Llmops.Lib.Text
import Llmops.Lib.Scatter

/-!
# The samples of an eval run (`eval_reports.py`)

A run directory holds a file of reviews and a file of predictions for each subset of each dataset,
`reviews/<model>/<dataset>_<subset>.jsonl` and the same under `predictions`; a line of them is a JSON
object about one sample. The list of samples comes from the reviews, the detail of one from both.

* `json.loads`, the mean of a list of floats and the printable characters are parameters (`Python`).
* A dataset's name holds none of the characters that `glob` reads as a pattern, and no slash.
* `none` is an exception that leaves the function: a row that is no object, a score that is none.
-/

namespace Llmops.Eval

open Lib

inductive Kind where
  | reviews
  | predictions
  deriving DecidableEq, Repr

/-- `<run_dir>/<kind>/<model>/<name>`. -/
structure Path where
  runDir : String
  kind : Kind
  model : String
  name : String
  deriving DecidableEq, Repr

/-- The files with their texts, each path once. -/
abbrev Disk := List (Path × String)

/-- What is left to Python. -/
structure Python where
  /-- `json.loads`, `none` where it raises `ValueError`. -/
  loads : String → Option Json
  /-- `sum(nums) / len(nums)`, `none` where it overflows. -/
  mean : List (ℤ ⊕ PyFloat) → Option PyFloat
  printable : Char → Bool

/-! ## Files -/

/-- `.jsonl`. -/
def jsonl : String := ".jsonl"

/-- A name that `{dataset}_*.jsonl` or `{dataset}.jsonl` matches. -/
def isOf (dataset name : String) : Bool :=
  (startsWith name (dataset ++ "_") &&
      jsonl.toList.isSuffixOf (name.toList.drop (dataset.length + 1))) ||
    name = dataset ++ jsonl

/-- The order of the paths of one directory: no part of a path has a slash. -/
def Path.place (path : Path) : String ×ₗ String := toLex (path.model ++ "/", path.name)

/-- `sorted(glob.glob(...) + glob.glob(...))`, with the texts of the files. -/
def filesOf (disk : Disk) (kind : Kind) (runDir dataset : String) : Disk :=
  (disk.filter fun f => f.1.runDir = runDir && f.1.kind = kind && !startsWith f.1.model "." &&
    isOf dataset f.1.name).insertionSort fun f g => f.1.place ≤ g.1.place

/-- `_review_files`. -/
def reviewFiles (disk : Disk) (runDir dataset : String) : Disk := filesOf disk .reviews runDir dataset

/-- `_pred_files`. -/
def predFiles (disk : Disk) (runDir dataset : String) : Disk :=
  filesOf disk .predictions runDir dataset

/-- `for line in fh`: the lines of a text. A line that ends in both characters leaves an empty one,
which the loop skips. -/
def linesOf (text : String) : List String :=
  (text.toList.splitOnP fun c => c = '\n' || c = '\r').map .ofList

/-- The values of the lines, up to the first line that is no JSON. -/
def parsed (py : Python) : List String → List Json
  | [] => []
  | line :: lines =>
    if strip line = "" then parsed py lines
    else
      match py.loads (strip line) with
      | none => []
      | some r => r :: parsed py lines

/-- The values of the files, each with the path of its file. -/
def valuesOf (py : Python) (files : Disk) : List (Path × Json) :=
  files.flatMap fun f => (parsed py (linesOf f.2)).map fun r => (f.1, r)

/-! ## The list of samples -/

/-- `d.get(key)`, with `None` for what is missing. -/
def field (d : Dict Json) (key : String) : Json := (d.get key).getD .null

/-- `v.get(key)`, which only an object has. -/
def getField (v : Json) (key : String) : Option Json := v.asObj.map fun d => field d key

/-- `v or w`. -/
def orElse (v w : Json) : Json := if v.truthy then v else w

/-- `isinstance(v, (int, float))`. -/
def number : Json → Option (ℤ ⊕ PyFloat)
  | .bool b => some (.inl (if b then 1 else 0))
  | .int n => some (.inl n)
  | .float x => some (.inr x)
  | _ => none

/-- `(review.get("sample_score") or {}).get("score") or {}`. -/
def scoreField (review : Dict Json) : Option Json :=
  (getField (orElse (field review "sample_score") (.obj [])) "score").map fun v => orElse v (.obj [])

/-- What `_score_of` returns. -/
structure Score where
  value : Dict Json
  mean : Option PyFloat
  correct : Bool

/-- `_score_of`. -/
def scoreOf (py : Python) (review : Dict Json) : Option Score := do
  let sc ← scoreField review
  let value ← (orElse (← getField sc "value") (.obj [])).asObj
  let nums := value.filterMap fun p => number p.2
  if nums.isEmpty then
    return ⟨value, none, false⟩
  else
    let mean ← py.mean nums
    return ⟨value, some mean, decide (1 / 2 ≤ mean.value)⟩

/-- `_truncate`. -/
def truncate (py : Python) (v : Json) : Option String :=
  match v with
  | .null => none
  | v =>
    let s := strip (pyStr py.printable v)
    some (if s.length ≤ 240 then s else .ofList (s.toList.take 240) ++ "…")

/-- `_as_text`. -/
def asText : Json → String
  | .str s => s
  | v => dumps false v

/-- A row of the list. -/
structure Row where
  index : Json
  subset : String
  scores : Dict Json
  score : Option PyFloat
  correct : Bool
  extracted : Option String
  target : Option String
  preview : Option String

/-- `os.path.basename(path)[: -len(".jsonl")]`. -/
def subsetOf (path : Path) : String := .ofList (path.name.toList.take (path.name.length - jsonl.length))

/-- The row of a review. -/
def compactRow (py : Python) (path : Path) (r : Json) : Option Row := do
  let review ← r.asObj
  let sc ← scoreField review
  let score ← scoreOf py review
  let extracted ← getField sc "extracted_prediction"
  let prediction ← getField sc "prediction"
  return ⟨field review "index", subsetOf path, score.value, score.mean, score.correct,
    truncate py extracted, truncate py (.str (asText (field review "target"))), truncate py prediction⟩

/-- `_compact_rows`, without its cache. -/
def compactRows (py : Python) (disk : Disk) (runDir dataset : String) : Option (List Row) :=
  (valuesOf py (reviewFiles disk runDir dataset)).mapM fun p => compactRow py p.1 p.2

inductive Filter where
  | all
  | correct
  | wrong
  deriving DecidableEq, Repr

/-- The rows that a filter keeps. -/
def Filter.keep : Filter → List Row → List Row
  | all, rows => rows
  | correct, rows => rows.filter fun r => r.correct
  | wrong, rows => rows.filter fun r => !r.correct

/-- What `samples` returns. -/
structure Page where
  total : Nat
  totalAll : Nat
  totalCorrect : Nat
  page : Int
  pageSize : Nat
  samples : List Row

/-- A page of rows. -/
def pageOf (rows : List Row) (filter : Filter) (page : Int) (pageSize : Nat) : Page :=
  let kept := filter.keep rows
  let page := max 1 page
  let start := (page - 1).toNat * pageSize
  ⟨kept.length, rows.length, (rows.filter fun r => r.correct).length, page, pageSize,
    (kept.drop start).take pageSize⟩

/-! ## The detail of one sample -/

/-- `r.get("index") == index`, for an index that is no list and no object. -/
def hasIndex (r : Dict Json) (index : Scalar) : Bool := (field r "index").scalar = some index

/-- `_find_row` over the values of the files. -/
def findRow (index : Scalar) : List (Path × Json) → Option (Option (Dict Json))
  | [] => some none
  | (_, r) :: values => do
    let r ← r.asObj
    if hasIndex r index then return some r else findRow index values

/-- `d[key]`, where an exception is `none`. -/
def item (v : Json) (key : String) : Option Json := v.asObj.bind fun d => d.get key

/-- `pred["model_output"]["choices"][0]["message"]`. -/
def messageOf (pred : Dict Json) : Option Json := do
  let output ← pred.get "model_output"
  let choices ← item output "choices"
  let choice ← choices.asArr.bind fun xs => xs[0]?
  item choice "message"

structure Perf where
  latency : Json
  ttft : Json
  inputTokens : Json
  outputTokens : Json

/-- `_answer_and_perf`. -/
def answerAndPerf (pred : Dict Json) : Option (Json × Option Perf) :=
  match messageOf pred with
  | none => some (.null, none)
  | some msg => do
    let msg ← msg.asObj
    let pm := orElse (field msg "perf_metrics") (.obj [])
    if pm.truthy then
      let pm ← pm.asObj
      return (field msg "content", some ⟨field pm "latency", field pm "ttft", field pm "input_tokens",
        field pm "output_tokens"⟩)
    else return (field msg "content", none)

/-- What `sample` returns. -/
structure Detail where
  index : Scalar
  prompt : Json
  answer : Json
  target : Option String
  scores : Dict Json
  correct : Bool
  perf : Option Perf

/-- The detail from the two rows; a row that is missing counts as an empty one. -/
def detailOf (py : Python) (index : Scalar) (review pred : Dict Json) : Option Detail := do
  let (answer, perf) ← answerAndPerf pred
  let score ← scoreOf py review
  let prompt := orElse (field pred "messages") (orElse (field review "messages") (.arr []))
  let target := match field review "target" with
    | .null => none
    | v => some (asText v)
  return ⟨index, prompt, answer, target, score.value, score.correct, perf⟩

/-- `sample`. -/
def sample (py : Python) (disk : Disk) (runDir dataset : String) (index : Scalar) :
    Option (Option Detail) := do
  let review ← findRow index (valuesOf py (reviewFiles disk runDir dataset))
  let pred ← findRow index (valuesOf py (predFiles disk runDir dataset))
  if review.isNone && pred.isNone then return none
  else
    let detail ← detailOf py index (review.getD []) (pred.getD [])
    return some detail

end Llmops.Eval
