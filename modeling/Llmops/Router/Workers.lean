import Llmops.Router.Marks

/-!
# Several router workers

`POST /reload`, `/drain`, `/undrain` and `/routing` (`router.py:39-158`) and the drain refresh of
`poll_metrics_forever` (`metrics_poller.py:100-106`), for any number of worker processes behind
one port (`gunicorn.conf.py`). A request is delivered to one of them. The workers share the
overlay file (in Postgres mode also the current overlay of the database, which a `/reload` writes
to the file first) and the drain table of the store. What `load_config_with_overlay` makes of an
overlay is a parameter, `none` when it raises.

* `converged_iff`: once every worker has completed a poll, the drain marks agree. The
  configurations and strategies agree exactly when the last `/reload` and the last `/routing` that
  each worker served bring the same: a poll carries neither.
* `routing_reaches_one`: two workers, one `/routing`.
-/

namespace Llmops.Router

open Llmops.Lib

/-! ## The workers and what they share -/

/-- The overlay file, and in Postgres mode the current overlay of the database. -/
structure Disk (ω : Type*) where
  file : ω
  snapshot : Option ω := none

/-- `hydrate_overlay_from_store`. -/
def Disk.hydrate {ω : Type*} (d : Disk ω) : Disk ω := { d with file := d.snapshot.getD d.file }

/-- The routing inputs of one worker, on its `app.state`. -/
structure Worker (γ : Type*) where
  config : γ
  routingStrategy : String
  draining : Marks := fun _ => none

/-- The workers, and what they share. -/
structure Cluster (W γ ω : Type*) where
  now : Time
  disk : Disk ω
  store : Marks
  worker : W → Worker γ

/-- What happens: a request to worker `w`, a pass of its poller, time, the backend changing the
overlay. A store write of `/drain` and `/undrain` may fail, and so may the read of a poller. -/
inductive ControlEvent (W ω : Type*) where
  | reload (w : W)
  | routing (w : W) (strategy : String)
  | drain (w : W) (b : Backend) (ttl : Time) (stored : Bool)
  | undrain (w : W) (b : Backend) (stored : Bool)
  | poll (w : W) (answered : Bool)
  | pass (t : Time)
  | save (overlay : ω)
  | publish (overlay : ω)

/-- `STRATEGIES`. -/
def strategies : List String :=
  ["round_robin", "random", "least_inflight", "least_load", "p2c", "session_affinity",
    "prefix_affinity"]

/-- `if not model_key or not instance_id`: the request is refused with a 400. -/
def Backend.named (b : Backend) : Bool := b.modelKey ≠ "" && b.instanceId ≠ ""

variable {W γ ω : Type*}

/-- What an event does to the overlay. -/
def Disk.step (d : Disk ω) : ControlEvent W ω → Disk ω
  | .reload _ => d.hydrate
  | .save overlay => { d with file := overlay }
  | .publish overlay => { d with snapshot := some overlay }
  | _ => d

/-- The state after an event. -/
def Cluster.step [DecidableEq W] (load : ω → Option γ) (s : Cluster W γ ω) :
    ControlEvent W ω → Cluster W γ ω
  | .reload w =>
    { s with
      disk := s.disk.hydrate
      worker := Function.update s.worker w { s.worker w with
        config := (load s.disk.hydrate.file).getD (s.worker w).config } }
  | .routing w strategy =>
    if strategy ∈ strategies then
      { s with
        worker := Function.update s.worker w { s.worker w with routingStrategy := strategy } }
    else s
  | .drain w b ttl stored =>
    if b.named then
      { s with
        store := if stored then markDraining s.store b ttl s.now else s.store
        worker := Function.update s.worker w { s.worker w with
          draining := markDraining (s.worker w).draining b ttl s.now } }
    else s
  | .undrain w b stored =>
    if b.named then
      { s with
        store := if stored then clearDraining s.store b else s.store
        worker := Function.update s.worker w { s.worker w with
          draining := clearDraining (s.worker w).draining b } }
    else s
  | .poll w answered =>
    { s with
      worker := Function.update s.worker w { s.worker w with
        draining := if answered then listDraining s.store s.now else (s.worker w).draining } }
  | .pass t => { s with now := max s.now t }
  | .save overlay => { s with disk := { s.disk with file := overlay } }
  | .publish overlay => { s with disk := { s.disk with snapshot := some overlay } }

/-- The state after a list of events. -/
def Cluster.run [DecidableEq W] (load : ω → Option γ) (s : Cluster W γ ω)
    (es : List (ControlEvent W ω)) : Cluster W γ ω :=
  es.foldl (Cluster.step load) s

/-- Workers that have just started from the same files and environment. -/
def Cluster.boot (now : Time) (disk : Disk ω) (store : Marks) (config : γ) (strategy : String) :
    Cluster W γ ω where
  now := now
  disk := disk
  store := store
  worker := fun _ => { config := config, routingStrategy := strategy }

/-- **All workers have the same routing inputs.** -/
structure Cluster.Converged (s : Cluster W γ ω) : Prop where
  config : ∀ w w', (s.worker w).config = (s.worker w').config
  strategy : ∀ w w', (s.worker w).routingStrategy = (s.worker w').routingStrategy
  draining : ∀ w w',
    listDraining (s.worker w).draining s.now = listDraining (s.worker w').draining s.now

/-- What the last `/reload` of worker `w` loaded. -/
def lastLoad [DecidableEq W] (load : ω → Option γ) (w : W) :
    Disk ω → List (ControlEvent W ω) → Option γ
  | _, [] => none
  | d, .reload w' :: es =>
    (lastLoad load w (d.step (.reload w' : ControlEvent W ω)) es).or
      (if w' = w then load d.hydrate.file else none)
  | d, e :: es => lastLoad load w (d.step e) es

/-- The strategy of the last `/routing` of worker `w`. -/
def lastStrategy [DecidableEq W] (w : W) : List (ControlEvent W ω) → Option String
  | [] => none
  | .routing w' strategy :: es =>
    (lastStrategy w es).or (if w' = w ∧ strategy ∈ strategies then some strategy else none)
  | _ :: es => lastStrategy w es

/-! ## Which requests carry what -/

variable [DecidableEq W] {load : ω → Option γ} {s : Cluster W γ ω}

theorem Cluster.disk_step (e : ControlEvent W ω) : (s.step load e).disk = s.disk.step e := by
  cases e <;> simp only [Cluster.step, Disk.step] <;> split_ifs <;> rfl

theorem Cluster.config_step (w : W) (e : ControlEvent W ω) :
    ((s.step load e).worker w).config =
      (lastLoad load w s.disk [e]).getD (s.worker w).config := by
  cases e with
  | reload w' =>
    simp only [Cluster.step, lastLoad, Option.none_or, Function.update_apply]
    rcases eq_or_ne w w' with rfl | hw
    · simp
    · simp [hw, hw.symm]
  | _ =>
    simp only [Cluster.step, lastLoad, Option.getD_none]
    try split_ifs
    all_goals first
      | rfl
      | simp only [Function.update_apply]
        split_ifs with hw <;> simp [hw]

theorem Cluster.strategy_step (w : W) (e : ControlEvent W ω) :
    ((s.step load e).worker w).routingStrategy =
      (lastStrategy w [e]).getD (s.worker w).routingStrategy := by
  cases e with
  | routing w' strategy =>
    simp only [Cluster.step, lastStrategy, Option.none_or]
    rcases eq_or_ne w w' with rfl | hw
    · split_ifs <;> simp_all
    · split_ifs <;> simp_all
  | _ =>
    simp only [Cluster.step, lastStrategy, Option.getD_none]
    try split_ifs
    all_goals first
      | rfl
      | simp only [Function.update_apply]
        split_ifs with hw <;> simp [hw]

theorem lastLoad_cons (w : W) (d : Disk ω) (e : ControlEvent W ω) (es : List (ControlEvent W ω)) :
    lastLoad load w d (e :: es) = (lastLoad load w (d.step e) es).or (lastLoad load w d [e]) := by
  cases e <;> simp [lastLoad, Disk.step]

theorem lastStrategy_cons (w : W) (e : ControlEvent W ω) (es : List (ControlEvent W ω)) :
    lastStrategy w (e :: es) = (lastStrategy w es).or (lastStrategy w [e]) := by
  cases e <;> simp [lastStrategy]

theorem Cluster.run_cons (e : ControlEvent W ω) (es : List (ControlEvent W ω)) :
    s.run load (e :: es) = (s.step load e).run load es := rfl

theorem Cluster.run_append (es fs : List (ControlEvent W ω)) :
    s.run load (es ++ fs) = (s.run load es).run load fs := List.foldl_append

/-- After a run a worker has the configuration that its last `/reload` loaded. -/
theorem Cluster.config_run (w : W) (es : List (ControlEvent W ω)) :
    ((s.run load es).worker w).config =
      (lastLoad load w s.disk es).getD (s.worker w).config := by
  induction es generalizing s with
  | nil => rfl
  | cons e es ih =>
    rw [Cluster.run_cons, ih, lastLoad_cons, Cluster.config_step, Cluster.disk_step,
      Option.getD_or]

/-- After a run a worker has the strategy that its last `/routing` named. -/
theorem Cluster.strategy_run (w : W) (es : List (ControlEvent W ω)) :
    ((s.run load es).worker w).routingStrategy =
      (lastStrategy w es).getD (s.worker w).routingStrategy := by
  induction es generalizing s with
  | nil => rfl
  | cons e es ih =>
    rw [Cluster.run_cons, ih, lastStrategy_cons, Cluster.strategy_step, Option.getD_or]

/-! ## The polls at the end -/

/-- The events after the last request: polls, and time. -/
def ControlEvent.idle : ControlEvent W ω → Prop
  | .poll _ _ | .pass _ => True
  | _ => False

theorem lastLoad_idle (w : W) (d : Disk ω) {es : List (ControlEvent W ω)}
    (h : ∀ e ∈ es, e.idle) : lastLoad load w d es = none := by
  induction es generalizing d with
  | nil => rfl
  | cons e es ih =>
    have he := h e List.mem_cons_self
    rw [lastLoad_cons, ih _ fun e' he' => h e' (List.mem_cons_of_mem _ he')]
    cases e <;> first | rfl | exact he.elim

theorem lastStrategy_idle (w : W) {es : List (ControlEvent W ω)} (h : ∀ e ∈ es, e.idle) :
    lastStrategy w es = none := by
  induction es with
  | nil => rfl
  | cons e es ih =>
    have he := h e List.mem_cons_self
    rw [lastStrategy_cons, ih fun e' he' => h e' (List.mem_cons_of_mem _ he')]
    cases e <;> first | rfl | exact he.elim

/-- A worker that has polled: its marks that are not expired are those of the store. -/
def Cluster.Polled (s : Cluster W γ ω) (w : W) : Prop :=
  listDraining (s.worker w).draining s.now = listDraining s.store s.now

theorem Cluster.polled_poll (w : W) : ((s.step load (.poll w true)).Polled w) := by
  simp [Cluster.Polled, Cluster.step, listDraining_listDraining le_rfl]

/-- A worker that has polled stays so while there are no requests. -/
theorem Cluster.Polled.step {w : W} {e : ControlEvent W ω} (h : s.Polled w) (he : e.idle) :
    (s.step load e).Polled w := by
  cases e with
  | poll w' answered =>
    rcases eq_or_ne w w' with rfl | hw
    · cases answered
      · simpa [Cluster.Polled, Cluster.step] using h
      · exact Cluster.polled_poll w
    · simpa [Cluster.Polled, Cluster.step, Function.update_of_ne hw] using h
  | pass t =>
    have hle : s.now ≤ max s.now t := le_max_left _ _
    have hnow : (s.step load (.pass t)).now = max s.now t := rfl
    have hlist := congrArg (listDraining · (max s.now t)) h
    simp only [listDraining_listDraining hle] at hlist
    rw [Cluster.Polled, hnow]
    exact hlist
  | _ => exact he.elim

theorem Cluster.polled_run {w : W} {es : List (ControlEvent W ω)} (h : ∀ e ∈ es, e.idle)
    (hw : s.Polled w ∨ .poll w true ∈ es) : (s.run load es).Polled w := by
  induction es generalizing s with
  | nil => exact hw.resolve_right List.not_mem_nil
  | cons e es ih =>
    refine ih (fun e' he' => h e' (List.mem_cons_of_mem _ he')) ?_
    rcases hw with hw | hw
    · exact .inl (hw.step (h e List.mem_cons_self))
    · rcases List.mem_cons.mp hw with rfl | hw
      · exact .inl (Cluster.polled_poll w)
      · exact .inr hw

/-- **The routers converge**, after any requests `es` and polls `ps` of every worker, exactly when
the last `/reload` and the last `/routing` of each worker bring the same. -/
theorem converged_iff (load : ω → Option γ) (now : Time) (disk : Disk ω) (store : Marks)
    (config : γ) (strategy : String) (es ps : List (ControlEvent W ω)) (hps : ∀ e ∈ ps, e.idle)
    (hall : ∀ w : W, .poll w true ∈ ps) :
    ((Cluster.boot now disk store config strategy).run load (es ++ ps)).Converged ↔
      (∀ w w' : W, (lastLoad load w disk es).getD config = (lastLoad load w' disk es).getD config) ∧
      ∀ w w' : W, (lastStrategy w es).getD strategy = (lastStrategy w' es).getD strategy := by
  set s := (Cluster.boot (W := W) now disk store config strategy).run load es with hs
  rw [Cluster.run_append, ← hs]
  have hconfig : ∀ w : W, ((s.run load ps).worker w).config =
      (lastLoad load w disk es).getD config := by
    intro w
    rw [Cluster.config_run, lastLoad_idle w _ hps, hs, Cluster.config_run]
    rfl
  have hstrategy : ∀ w : W, ((s.run load ps).worker w).routingStrategy =
      (lastStrategy w es).getD strategy := by
    intro w
    rw [Cluster.strategy_run, lastStrategy_idle w hps, hs, Cluster.strategy_run]
    rfl
  constructor
  · intro h
    refine ⟨fun w w' => ?_, fun w w' => ?_⟩
    · rw [← hconfig, ← hconfig]
      exact h.config w w'
    · rw [← hstrategy, ← hstrategy]
      exact h.strategy w w'
  · rintro ⟨h1, h2⟩
    refine ⟨fun w w' => ?_, fun w w' => ?_, fun w w' => ?_⟩
    · rw [hconfig, hconfig]
      exact h1 w w'
    · rw [hstrategy, hstrategy]
      exact h2 w w'
    · exact (Cluster.polled_run hps (.inr (hall w))).trans
        (Cluster.polled_run hps (.inr (hall w'))).symm

/-- Two workers, each of them reloaded after the overlay changed, and a drain that reaches one. -/
theorem converged_reloaded :
    ((Cluster.boot 0 ⟨1, none⟩ (fun _ => none) 1 "least_load" : Cluster Bool Nat Nat).run some
      ([.save 2, .reload true, .drain true ⟨"m", "a"⟩ 60 true, .reload false] ++
        [.poll true true, .pass 1, .poll false true])).Converged :=
  (converged_iff some 0 ⟨1, none⟩ (fun _ => none) 1 "least_load" _ _
    (by
      intro e he
      simp only [List.mem_cons, List.not_mem_nil, or_false] at he
      rcases he with rfl | rfl | rfl <;> trivial)
    (by
      intro w
      cases w <;> simp)).mpr (by decide)

/-- One `/routing` to one of two workers: the other keeps its strategy, whatever it polls. -/
theorem routing_reaches_one :
    ¬ ((Cluster.boot 0 ⟨1, none⟩ (fun _ => none) 1 "least_load" : Cluster Bool Nat Nat).run some
      ([.routing true "round_robin"] ++ [.poll true true, .poll false true])).Converged :=
  fun h => absurd (h.strategy true false) (by decide)

end Llmops.Router
