import Llmops.Node.Step

/-!
# The registry of one backend under overlay edits

`delete_overlay_model`, `update_overlay_model`, `create_overlay_model`, `resync_registry`,
`import_overlay` and `sync_overlay_from_store` (`llmops/manager.py:700-809, 957-1133`), seen from
one key and interleaved with everything of `Node/Step.lean`.

* A record is an object: a coroutine of the node that has taken one up goes on with it, whatever
  the registry says by then. `heap` are the records ever added for the key, `cur` the one the
  registry holds, `held` the one each coroutine has taken up. `step` runs a coroutine on its own
  record (`Host.focus`) and writes it back.
* A config is what it says of the key (`KeyConfig`). The overlay file and its merge are left out:
  each edit comes with the config that the merge results in.
* An edit is resumed at its awaits. Taking `registry.lock` is one, since a reconcile pass may hold
  it; a forced import also waits for the stops it makes, of this key or of others.
-/

namespace Llmops.Registry

open Node

/-- What a `RootConfig` says of the key: the engine of the launcher that lists it, and the spec
that `build_spec` of each engine's launcher resolves (`none` where it raises). -/
structure KeyConfig where
  engine : Option String := none
  build : String → Option LaunchSpec := fun _ => none

/-- `_resolve_specs(config).get(key)`. -/
def KeyConfig.spec (config : KeyConfig) : Option LaunchSpec := config.engine.bind config.build

/-- `_resolve_specs` does not raise on the key. -/
def KeyConfig.resolves (config : KeyConfig) : Bool := config.engine.isNone || config.spec.isSome

/-- The await an edit is suspended at. -/
inductive EditPc where
  | idle
  | deleteLock
  | deleteRow
  | deleteAssign
  | updateLock (rec : Nat) (spec : LaunchSpec)
  | createLock (spec : LaunchSpec)
  | importStopping (new : KeyConfig)
  | importSave (new : KeyConfig)
  | importLock (new : KeyConfig)
  | syncHydrate
  | syncLock (new : KeyConfig)

/-- One backend process with its registry, seen from one key. `launched` is the spec that the last
admitted start of a record hands to `spawn_process`. -/
structure Host (N : Type*) where
  world : World N
  heap : Nat → ModelInstance
  cur : Option Nat := none
  fresh : Nat := 0
  held : Nat → Nat := fun _ => 0
  config : KeyConfig := {}
  edit : Nat → EditPc := fun _ => .idle
  launched : Nat → Option LaunchSpec := fun _ => none

/-- An event of the node or of an edit. A request carries `ok`, whether its other checks pass
(`overlay_owns`, the kind, the ports, the schema), and the config it leads to. `config` is another
request (`set_autoscale`, a LoRA, an edit of another key) that replaced `self.config`. -/
inductive HostEvent (N : Type*) where
  | node (e : Event N)
  | config (new : KeyConfig)
  | delete (i : Nat) (ok : Bool) (new : KeyConfig)
  | update (i : Nat) (ok : Bool) (new : KeyConfig)
  | create (i : Nat) (ok : Bool) (new : KeyConfig)
  | importOverlay (i : Nat) (force othersBusy : Bool) (new : KeyConfig)
  | sync (i : Nat)
  | edit (i : Nat) (ok : Bool) (new : Option KeyConfig)

/-- A coroutine that acts on a record it has taken up before. -/
def holds {N : Type*} : Pc N → Bool
  | .idle | .call _ _ | .passLock | .passAssignments | .passNodes _ | .passRestarts _
  | .passRestartsLock _ _ | .passDesired _ | .passSnapshot _ _ | .replayDesired
  | .replayAssignments _ | .replayNodes _ _ | .replayStart _ _ => false
  | _ => true

variable {N : Type*}

/-! ## The node on the right record -/

/-- The record that coroutine `i` acts on next. -/
def Host.target (h : Host N) (i : Nat) : Option Nat :=
  if holds (h.world.pc i) then some (h.held i) else h.cur

/-- The node as a coroutine sees it that acts on record `r`. -/
def Host.focus (h : Host N) (r : Option Nat) : World N :=
  { h.world with inst := (r.map h.heap).getD h.world.inst, registered := h.cur.isSome }

/-- Coroutine `i` has made its step on record `r`. -/
def Host.settle (h : Host N) (r : Option Nat) (i : Nat) (w : World N) : Host N :=
  match r with
  | none => { h with world := w }
  | some r =>
    { h with
      world := w
      heap := Function.update h.heap r w.inst
      held := Function.update h.held i r
      launched := match w.pc i with
        | .startSpawn _ spec => Function.update h.launched r (some spec)
        | _ => h.launched }

/-- One event of the node. `build_spec` of the record's launcher reads `self.config`, and the
coroutine of an edit is not free for other requests. -/
def nodeStep [DecidableEq N] (cfg : Settings) (me : N) (h : Host N) : Event N → Option (Host N)
  | .run i inp =>
    let r := h.target i
    let w := h.focus r
    (Node.step cfg me w (.run i { inp with spec := h.config.build w.inst.engine })).map (h.settle r i)
  | e => (Node.step cfg me h.world e).map fun w => { h with world := w }

/-! ## The edits -/

/-- A record is refreshed from a resolved spec. -/
def respec (inst : ModelInstance) (spec : LaunchSpec) : ModelInstance :=
  { inst with engine := spec.engine, host := spec.host, port := spec.port, spec := spec }

namespace Host

def setRecord (h : Host N) (r : Nat) (inst : ModelInstance) : Host N :=
  { h with heap := Function.update h.heap r inst }

/-- `registry.add` of a new record. -/
def add (h : Host N) (spec : LaunchSpec) : Host N :=
  { h with heap := Function.update h.heap h.fresh (.ofSpec spec), cur := some h.fresh,
           fresh := h.fresh + 1 }

/-- `registry.remove`. -/
def remove (h : Host N) : Host N := { h with cur := none }

def goto (h : Host N) (i : Nat) (pc : EditPc) : Host N :=
  { h with edit := Function.update h.edit i pc }

/-- A section under `registry.lock` runs when nobody holds the lock. -/
def locked (h h' : Host N) : Option (Host N) := if h.world.lock = none then some h' else none

end Host

/-- The states in which an edit of the key is accepted. -/
def isDown (inst : ModelInstance) : Bool := inst.state = .stopped || inst.state = .failed

/-- The definition of the key would be removed or changed: a member of `affected`, and of the
`removed` and `changed` of a resync. -/
def affected (inst : ModelInstance) (new : KeyConfig) : Bool := new.spec ≠ some inst.spec

/-- `resync_registry`, on the key. -/
def resyncRegistry (h : Host N) (new : KeyConfig) : Host N :=
  match new.spec, h.cur with
  | none, _ => h.remove
  | some spec, none => h.add spec
  | some spec, some r =>
    if (h.heap r).spec ≠ spec then h.setRecord r (respec (h.heap r) spec) else h

/-- A request of an edit, up to its first await. A request that is refused changes nothing. -/
def requestStep (h : Host N) : HostEvent N → Option (Host N)
  | .delete i ok new =>
    match h.cur with
    | some r =>
      if ok = true ∧ isDown (h.heap r) = true then
        some ({ h with config := new }.goto i .deleteLock)
      else some h
    | none => some h
  | .update i ok new =>
    match h.cur with
    | some r =>
      if ok = true ∧ isDown (h.heap r) = true then
        match new.spec with
        | some spec => some ({ h with config := new }.goto i (.updateLock r spec))
        -- no launcher, or `build_spec` raises: the config has been replaced by then
        | none => some { h with config := new }
      else some h
    | none => some h
  | .create i ok new =>
    match h.cur with
    | some _ => some h
    | none =>
      if ok = true then
        match new.spec with
        | some spec => some ({ h with config := new }.goto i (.createLock spec))
        | none => some { h with config := new }
      else some h
  | .importOverlay i force othersBusy new =>
    if new.resolves = false ∨ othersBusy = true ∧ force = false then some h
    else match h.cur with
    | some r =>
      if affected (h.heap r) new = true ∧ isDown (h.heap r) = false then
        if force then
          some ({ h with world := h.world.goto i (.call .user .stop) }.goto i (.importStopping new))
        else some h
      else some (h.goto i (.importSave new))
    | none => some (h.goto i (.importSave new))
  | .sync i => some (h.goto i .syncHydrate)
  | _ => none

/-- An edit is resumed from its await. `ok` is whether the await succeeded; for a hydrate, `new`
is the config that the newest overlay of the store leads to, if it has one that is valid. -/
def editStep (h : Host N) (i : Nat) (ok : Bool) (new : Option KeyConfig) : Option (Host N) :=
  match h.edit i with
  | .idle => none
  | .deleteLock => h.locked (h.remove.goto i .deleteRow)
  | .deleteRow =>
    let store := if ok then { h.world.store with desired := none } else h.world.store
    some ({ h with world := { h.world with store := store } }.goto i .deleteAssign)
  | .deleteAssign =>
    let store := if ok then { h.world.store with assignment := none } else h.world.store
    some ({ h with world := { h.world with store := store } }.goto i .idle)
  | .updateLock r spec => h.locked ((h.setRecord r (respec (h.heap r) spec)).goto i .idle)
  | .createLock spec => h.locked ((h.add spec).goto i .idle)
  | .importStopping new =>
    -- the stop has returned or raised
    if h.world.pc i matches .idle then some (h.goto i (.importSave new)) else none
  | .importSave new => some ({ h with config := new }.goto i (.importLock new))
  | .importLock new => h.locked ((resyncRegistry h new).goto i .idle)
  | .syncHydrate =>
    match new with
    | some new => some (h.goto i (.syncLock new))
    | none => some (h.goto i .idle)
  | .syncLock new =>
    h.locked
      (if ok = true ∧ new.resolves = true then
        { resyncRegistry h new with config := new }.goto i .idle
      else h.goto i .idle)

/-- The coroutine that an event of the node gives something new to do. -/
def requested : Event N → Option Nat
  | .request i _ | .pass i | .replay i => some i
  | _ => none

/-- The coroutine of a new edit. -/
def HostEvent.editor : HostEvent N → Option Nat
  | .delete i _ _ | .update i _ _ | .create i _ _ | .importOverlay i _ _ _ | .sync i => some i
  | _ => none

/-- One event. A coroutine makes one edit or one request at a time. -/
def step [DecidableEq N] (cfg : Settings) (me : N) (h : Host N) (e : HostEvent N) :
    Option (Host N) :=
  match e with
  | .node e =>
    if (requested e).all (fun i => h.edit i matches .idle) then nodeStep cfg me h e else none
  | .config new => some { h with config := new }
  | .edit i ok new => editStep h i ok new
  | e =>
    if e.editor.all (fun i => (h.edit i matches .idle) && (h.world.pc i matches .idle)) then
      requestStep h e
    else none

end Llmops.Registry
