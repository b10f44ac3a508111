import Llmops.Lib.Flight
import Llmops.Lib.JsonText
import Llmops.Lib.Run
import Llmops.Lib.Text

/-!
# The download managers

`DownloadManager`, `DatasetDownloadManager` and `LoraDownloadManager`
(`services/downloads.py`, `dataset_downloads.py`, `lora_downloads.py`). The three are one machine:
`start` makes a job and a task, the task asks for the size, fetches, measures what it fetched and
ends, and a poller measures meanwhile. A `Member` says what is its own: what `start` makes of its
arguments, whether the size is asked for first, and which downloads are warmed afterwards.

* A job is an object that outlives its entry in `_jobs`; `Phase` is the `await` at which its task
  stands. Between two of them other tasks run, and what the executor answers is a part of the event.
* The poller runs from the end of the size lookup to the end of the task. What it measures while the
  task ends is dropped: `cancel` comes first.
* `printable` are the characters that `repr` does not escape, and a catalog is `_BY_KEY`, with the
  category that says what is warmed.
-/

namespace Llmops.Downloads

open Llmops.Lib

/-! ## The jobs -/

/-- `state`. -/
inductive JobState where
  | pending | downloading | completed | failed
  deriving DecidableEq, Repr

/-- `DownloadJob`, `DatasetDownloadJob` and `LoraDownloadJob`: `source` is the `label` of a dataset and
the `repo_id` of an adapter. -/
structure DownloadJob where
  key : String
  source : String
  state : JobState := .pending
  totalBytes : Option Nat := none
  downloadedBytes : Nat := 0
  error : Option String := none
  startedAt : ℚ
  updatedAt : ℚ
  warming : Bool := false
  deriving DecidableEq, Repr

/-- Where `_run` stands. -/
inductive Phase where
  | created | sizing | fetching | measuring | ended
  deriving DecidableEq, Repr

/-- A job and its task. -/
structure Task where
  job : DownloadJob
  phase : Phase := .created
  deriving DecidableEq, Repr

namespace Task

/-- `job.repo_id`, `job.key` and `job.name`. -/
def key (t : Task) : String := t.job.key

/-- `existing.state in ("pending", "downloading")`. -/
def inFlight (t : Task) : Bool := t.job.state = .pending || t.job.state = .downloading

/-- The poller measures. -/
def polls (t : Task) : Bool := t.phase = .fetching || t.phase = .measuring

end Task

/-! ## The managers -/

/-- What a manager has of its own. -/
structure Member (ρ : Type*) where
  request : ρ → Except String (String × String)
  sized : Bool
  warms : String → Bool := fun _ => false

/-- `DownloadManager.start`. -/
def modelDownloads : Member String where
  request repoId :=
    let repoId := strip repoId
    if repoId = "" then .error "repo_id is required" else .ok (repoId, repoId)
  sized := true

/-- An entry of the catalog. -/
structure Entry where
  label : String
  category : String
  deriving DecidableEq, Repr

/-- `DatasetDownloadManager.start`. -/
def datasetDownloads (catalog : Dict Entry) : Member String where
  request key :=
    match catalog.get key with
    | none => .error ("unknown dataset: " ++ key)
    | some entry => .ok (key, entry.label)
  sized := false
  warms key := (catalog.get key).any (·.category = "eval")

/-- A character of `_SAFE_NAME`. -/
def safeChar (c : Char) : Bool := c.isAlphanum || c = '.' || c = '_' || c = '-'

/-- `_SAFE_NAME.match`: `$` matches before a newline at the end too. -/
def safeName (name : String) : Bool :=
  let cs := name.toList
  let cs := if cs.getLast? = some '\n' then cs.dropLast else cs
  cs ≠ [] && cs.all safeChar

/-- `os.path.join` of two parts. -/
def joinPath (root name : String) : String :=
  if startsWith name "/" then name
  else if root = "" ∨ root.toList.getLast? = some '/' then root ++ name
  else root ++ "/" ++ name

/-- `adapter_dir`. -/
def adapterDir (printable : Char → Bool) (root name : String) : Except String String :=
  if name = "" ∨ name = "." ∨ name = ".." ∨ safeName name = false then
    .error ("invalid adapter name: " ++ reprStr printable name)
  else .ok (joinPath root name)

/-- `LoraDownloadManager.start`. -/
def loraDownloads (printable : Char → Bool) (root : String) : Member (String × Option String) where
  request args := do
    let repoId := strip args.1
    if repoId = "" then .error "repo_id is required"
    else
      let leaf := String.ofList ((repoId.toList.splitOn '/').getLastD [])
      let name := strip ((truthy args.2).getD leaf)
      let _ ← adapterDir printable root name
      .ok (name, repoId)
  sized := true

/-- A manager and the clock. -/
structure Manager where
  now : ℚ
  flights : Flights Task := {}

namespace Manager

/-- A new job under its key. -/
def launch (m : Manager) (key source : String) : Manager :=
  let job : DownloadJob := { key := key, source := source, startedAt := m.now, updatedAt := m.now }
  { m with flights := m.flights.launch Task.key { job := job } }

/-- `start`, once its arguments are checked. -/
def start (m : Manager) (key source : String) : Manager :=
  match m.flights.last key with
  | some existing => if existing.inFlight then m else m.launch key source
  | none => m.launch key source

/-- A write to a job. -/
def update (m : Manager) (i : Nat) (t : Task) : Manager :=
  { m with flights := m.flights.update i t }

/-- The `finally` of `_run`. -/
def land (m : Manager) (i : Nat) (job : DownloadJob) : Manager :=
  let t : Task := { job := { job with updatedAt := m.now }, phase := .ended }
  { m with flights := m.flights.land Task.key i t }

/-- `list`: the last jobs, the latest first. -/
def list (m : Manager) : List DownloadJob :=
  (m.flights.current.filterMap fun entry =>
    (m.flights.objects[entry.2]?).map Task.job).mergeSort fun j j' => j'.startedAt ≤ j.startedAt

end Manager

/-! ## The steps -/

/-- What happens to a manager. -/
inductive Event (ρ : Type*) where
  | wait (δ : ℚ)
  | start (args : ρ)
  | begin (i : Nat)
  | sized (i : Nat) (bytes : Option Nat)
  | fetched (i : Nat) (result : Except String Unit)
  | measured (i : Nat) (result : Except String Nat)
  | polled (i : Nat) (bytes : Nat)
  | warmed (i : Nat)

section Step

variable {ρ : Type*} (member : Member ρ)

/-- `_run` up to its first `await`. -/
def Task.begin (now : ℚ) (t : Task) : Task where
  job := { t.job with state := .downloading, updatedAt := now }
  phase := if member.sized then .sizing else .fetching

/-- The size that `_run` asked for, if it got one. -/
def Task.sized (bytes : Option Nat) (t : Task) : Task where
  job := { t.job with totalBytes := bytes }
  phase := .fetching

/-- `_run` when the download has been measured. -/
def DownloadJob.complete (bytes : Nat) (job : DownloadJob) : DownloadJob :=
  { job with
    downloadedBytes := bytes
    totalBytes := job.totalBytes.map fun total => if total = 0 then total else max total bytes
    state := .completed
    warming := member.warms job.key }

/-- `_run` when a call raised. -/
def DownloadJob.fail (error : String) (job : DownloadJob) : DownloadJob :=
  { job with state := .failed, error := some error }

/-- `_poll`. -/
def Task.poll (now : ℚ) (bytes : Nat) (t : Task) : Task :=
  { t with job := { t.job with downloadedBytes := bytes, updatedAt := now } }

/-- The end of `_warm_eval`. -/
def Task.warmed (now : ℚ) (t : Task) : Task :=
  { t with job := { t.job with warming := false, updatedAt := now } }

/-- One event; a `start` with bad arguments changes nothing. -/
def step (m : Manager) : Event ρ → Option Manager
  | .wait δ => if 0 ≤ δ then some { m with now := m.now + δ } else none
  | .start args =>
    match member.request args with
    | .error _ => some m
    | .ok (key, source) => some (m.start key source)
  | .begin i => do
    let t ← m.flights.objects[i]?
    guard (t.phase = .created)
    return m.update i (t.begin member m.now)
  | .sized i bytes => do
    let t ← m.flights.objects[i]?
    guard (t.phase = .sizing)
    return m.update i (t.sized bytes)
  | .fetched i result => do
    let t ← m.flights.objects[i]?
    guard (t.phase = .fetching)
    match result with
    | .ok _ => return m.update i { t with phase := .measuring }
    | .error e => return m.land i (t.job.fail e)
  | .measured i result => do
    let t ← m.flights.objects[i]?
    guard (t.phase = .measuring)
    match result with
    | .ok bytes => return m.land i (t.job.complete member bytes)
    | .error e => return m.land i (t.job.fail e)
  | .polled i bytes => do
    let t ← m.flights.objects[i]?
    guard (t.polls = true)
    return m.update i (t.poll m.now bytes)
  | .warmed i => do
    let t ← m.flights.objects[i]?
    guard (t.job.warming = true)
    return m.update i (t.warmed m.now)

/-- The managers of the runs from an empty one. -/
def Managed (m : Manager) : Prop := ∃ now, Reach (step member) anyEvent { now := now } m

end Step

end Llmops.Downloads
