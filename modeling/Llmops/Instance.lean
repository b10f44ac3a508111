import Mathlib

/-!
# The record of one model instance

`ModelState`, `ModelKind` and `Desired` (`llmops/state.py`), `LaunchSpec` and `ModelInstance`
(`llmops/instance.py`). A record keeps the fields that the manager, the reconciler and the event
classifier read. The fields that are only displayed (`pid`, `model_tag`, `last_error`, `log_path`,
`ready_at`, `updated_at`) are left out. Clock readings are exact rationals.
-/

namespace Llmops

/-- A reading of `time.time()`. -/
abbrev Time := ℚ

/-- A `Popen` handle. Handles are never reused, unlike the pids of the operating system. -/
abbrev Pid := Nat

/-- `ModelState`: what the reconciler has observed. -/
inductive ModelState where
  | stopped | starting | ready | sleeping | failed | stopping
  deriving DecidableEq, Repr

/-- `ModelKind`. -/
inductive ModelKind where
  | llm | embedding
  deriving DecidableEq, Repr

/-- `Desired`: what the user asked for. -/
inductive Desired where
  | running | asleep | stopped
  deriving DecidableEq, Repr

/-- `LaunchSpec`: everything needed to spawn one backend process. -/
structure LaunchSpec where
  key : String
  kind : ModelKind
  command : List String
  env : List (String × String)
  logPath : String
  host : String
  port : Int
  probeUrl : String
  engine : String := "vllm"
  capabilities : List String := []
  modelTag : Option String := none
  sleepEnabled : Bool := false
  deriving DecidableEq, Repr

/-- `ModelInstance`: the live record the registry holds for one key. -/
structure ModelInstance where
  key : String
  kind : ModelKind
  host : String
  port : Int
  spec : LaunchSpec
  engine : String := "vllm"
  desired : Desired := .stopped
  state : ModelState := .stopped
  proc : Option Pid := none
  managed : Bool := false
  startedAt : Option Time := none
  restartCount : Nat := 0
  nextRestartAt : Option Time := none
  wasFailed : Bool := false
  lastLogSize : Nat := 0
  lastProgressAt : Option Time := none

/-- The record `build_registry` adds for a spec: everything else at its default. -/
def ModelInstance.ofSpec (spec : LaunchSpec) : ModelInstance where
  key := spec.key
  kind := spec.kind
  host := spec.host
  port := spec.port
  spec := spec
  engine := spec.engine

end Llmops
