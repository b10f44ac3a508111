import Llmops.Lib.Run

/-!
# The overlay file and its snapshots

The overlay of the models in Postgres mode: one file for each replica, which its backend and the
router next to it share, and the newest row of `config_versions`, which all of them share.

* A mutating `/api` request (`Request`) takes the content of the file, runs its handler, and
  snapshots the file after the response if the content differs
  (`core/config_versioning.py:25-65`). Its handler loads the file, applies its change and saves,
  without an await in between (`create_overlay_model`, `update_overlay_model`,
  `delete_overlay_model`, `set_autoscale`, `set_fallback`, `_persist_lora`); an import replaces the
  whole overlay and snapshots it itself before it goes on (`llmops/manager.py:1034-1097`).
* `snapshot_overlay` reads the file, asks for the newest row and inserts its own if that differs
  (`llmops_store.py:646-661`).
* `hydrate_overlay_from_store` (`services/overlay.py:116-130`, and the router's
  `overlay.py:77-95`) fetches the newest row and then overwrites the file. A backend does this in
  every sync pass, a router in every `/reload`, so also while `set_fallback` awaits the reload it
  triggers.

An overlay assigns a value to every field (`none` and the like being values), and a change sets
some of them. Contents are compared where the source compares their hashes. The baseline row of the
startup is there. A backend runs one coroutine at a time (`running`); a router is a process of its
own.
-/

namespace Llmops.Overlay

/-- The fields a request sets. -/
abbrev Change (F V : Type*) := F → Option V

/-- The handler's edit of the overlay it has loaded. -/
def Change.apply {F V : Type*} (change : Change F V) (overlay : F → V) : F → V :=
  fun f => (change f).getD (overlay f)

/-- Where a request is. `before` is the content that the middleware read first. -/
inductive ReqPc (F V : Type*) where
  | idle
  | body (before : F → V)
  | loaded (before overlay : F → V)
  | ownRead (before : F → V)
  | ownSelect (before blob : F → V)
  | ownInsert (before blob : F → V)
  | saved (before : F → V)
  | read
  | select (blob : F → V)
  | insert (blob : F → V)
  | done (ok : Bool)

/-- A mutating request: the replica it is sent to, the fields it sets, and the place of its save
among all saves. -/
structure Request (R F V : Type*) where
  home : R
  change : Change F V
  importing : Bool := false
  pc : ReqPc F V := .idle
  stamp : Option Nat := none

/-- The replicas' files, the newest snapshot, the requests, and the contents that hydrations have
fetched (for a replica, by its router or its backend) and not yet written. -/
structure Fleet (R F V : Type*) where
  file : R → F → V
  newest : F → V
  req : Nat → Request R F V
  running : R → Option Nat := fun _ => none
  hydrate : Nat → Option (R × Bool × (F → V)) := fun _ => none
  clock : Nat := 0

inductive OverlayEvent (R : Type*) where
  | begin (k : Nat)
  | load (k : Nat)
  | save (k : Nat)
  | read (k : Nat)
  | respond (k : Nat) (ok : Bool)
  | store (k : Nat) (ok : Bool)
  | fetch (i : Nat) (r : R) (router : Bool)
  | write (i : Nat)

variable {R F V : Type*} [DecidableEq R]

namespace Fleet

/-- Request `k` goes on at `pc`. -/
def goto (c : Fleet R F V) (k : Nat) (pc : ReqPc F V) : Fleet R F V :=
  { c with req := Function.update c.req k { c.req k with pc := pc } }

/-- `save_overlay`, on replica `r`. -/
def setFile (c : Fleet R F V) (r : R) (overlay : F → V) : Fleet R F V :=
  { c with file := Function.update c.file r overlay }

end Fleet

/-- The handler raised, or returned; then the middleware compares. -/
def respondStep [DecidableEq (F → V)] (c : Fleet R F V) (k : Nat) (ok : Bool) :
    Option (Fleet R F V) :=
  let q := c.req k
  let after (before : F → V) : ReqPc F V :=
    if ok then if c.file q.home = before then .done true else .read else .done false
  match q.pc with
  | .body before => if c.running q.home = none then some (c.goto k (after before)) else none
  | .saved before => if c.running q.home = none then some (c.goto k (after before)) else none
  | .loaded _ _ =>
    -- the merged config did not validate: the handler raises before it saves
    if ok then none
    else some ({ c with running := Function.update c.running q.home none }.goto k (.done false))
  | _ => none

/-- The store has answered, or failed. A snapshot that fails is only logged. -/
def storeStep [DecidableEq (F → V)] (c : Fleet R F V) (k : Nat) (ok : Bool) :
    Option (Fleet R F V) :=
  match (c.req k).pc with
  | .ownSelect before blob =>
    some (c.goto k (if ok = true ∧ c.newest ≠ blob then .ownInsert before blob else .saved before))
  | .ownInsert before blob =>
    some ((if ok then { c with newest := blob } else c).goto k (.saved before))
  | .select blob =>
    some (c.goto k (if ok = true ∧ c.newest ≠ blob then .insert blob else .done true))
  | .insert blob => some ((if ok then { c with newest := blob } else c).goto k (.done true))
  | _ => none

/-- One event. -/
def step [DecidableEq (F → V)] (c : Fleet R F V) : OverlayEvent R → Option (Fleet R F V)
  | .begin k =>
    match (c.req k).pc with
    | .idle =>
      if c.running (c.req k).home = none then some (c.goto k (.body (c.file (c.req k).home)))
      else none
    | _ => none
  | .load k =>
    let r := (c.req k).home
    match (c.req k).pc with
    | .body before =>
      if c.running r = none then
        some ({ c with running := Function.update c.running r (some k) }.goto k
          (.loaded before (c.file r)))
      else none
    | _ => none
  | .save k =>
    let q := c.req k
    match q.pc with
    | .loaded before overlay =>
      let pc := if q.importing then .ownRead before else .saved before
      some { c with
        file := Function.update c.file q.home (q.change.apply overlay)
        running := Function.update c.running q.home none
        req := Function.update c.req k { q with pc := pc, stamp := some c.clock }
        clock := c.clock + 1 }
    | _ => none
  | .read k =>
    match (c.req k).pc with
    | .ownRead before => some (c.goto k (.ownSelect before (c.file (c.req k).home)))
    | .read => some (c.goto k (.select (c.file (c.req k).home)))
    | _ => none
  | .respond k ok => respondStep c k ok
  | .store k ok => storeStep c k ok
  | .fetch i r router =>
    some { c with hydrate := Function.update c.hydrate i (some (r, router, c.newest)) }
  | .write i =>
    match c.hydrate i with
    | none => none
    | some (r, router, overlay) =>
      if router = true ∨ c.running r = none then
        some ({ c with hydrate := Function.update c.hydrate i none }.setFile r overlay)
      else none

end Llmops.Overlay
