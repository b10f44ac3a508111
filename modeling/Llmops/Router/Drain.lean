import Llmops.Lib.Run
import Llmops.Router.Marks

/-!
# Draining an instance before it is stopped

`_drain_instance` (`manager.py:188-214`) against any number of router workers: `POST /drain` and
`/undrain` (`router.py:56-94`) cut at the awaits of their store calls, the drain refresh of
`poll_metrics_forever` (`metrics_poller.py:100-106`) cut at the await of `list_draining`, and the
candidates of `select_instance` (`routing_strategies.py:220-245`). The loop of one `_drain_instance`
posts its calls one after the other; each is delivered to some worker. A worker's count of an
instance is the number of its own requests under the instance's key (`Router/Inflight.lean` says
when the counter is that number).

* `drain_safe`: when a `/drain` answers that nothing is in flight, no worker has a request on the
  instance, and until the mark expires or is cleared no worker starts one there beside another
  awake instance that is not draining, along every run of attended events: one worker has the
  requests of the instance and the `/drain` calls, the others poll between the first mark and that
  answer, the polls keep up with the marks, and no failover ends there;
* `drained_while_served`: two workers, of which the other one answers.

Beside the state of the code the model keeps when a list of marks was read and when the store took
the first mark, for the conditions that speak of polls.
-/

namespace Llmops.Router

open Llmops.Lib

/-! ## Candidates -/

/-- The candidates of `select_instance`: not tried, awake, and where possible not draining. -/
def candidates (roster tried : List String) (asleep draining : String → Bool) : List String :=
  let awake := (roster.filter (· ∉ tried)).filter fun i => !asleep i
  let notDraining := awake.filter fun i => !draining i
  if notDraining.isEmpty then awake else notDraining

/-- One worker: its requests in flight, its marks and when it read them, the marks its poller has
read and not assigned yet, the rosters of its configuration, and whom its poller saw asleep. -/
structure DrainWorker where
  requests : List Backend := []
  draining : Marks := fun _ => none
  readAt : Option Time := none
  listed : Option (Time × Marks) := none
  roster : String → List String := fun _ => []
  asleep : Backend → Bool := fun _ => false

/-- Where `_drain_instance` is: before a call, with a call posted, with the handler of worker `w`
past its `mark_draining`, past its `set_draining`, returned because the count was `0` (with the
expiry of the last mark), or over: given up, or the mark is cleared again. -/
inductive DrainLoop (W : Type*) where
  | idle
  | posted
  | marked (w : W) (expires : Time)
  | stored (w : W) (expires : Time)
  | drained (expires : Time)
  | over
  deriving DecidableEq

/-- The clock, the drain table of the store, the workers, the loop, and when the store took its
first mark. -/
structure DrainState (W : Type*) where
  now : Time
  store : Marks
  worker : W → DrainWorker
  loop : DrainLoop W := .idle
  storedAt : Option Time := none

/-- What happens: time; a worker's configuration or metrics change; a request starts at an
instance, after it has tried others, or finishes; a poller reads the marks and assigns them; the
steps of `_drain_instance` and of the handler that serves it; the two steps of another `/drain`, of
another instance; the two steps of an `/undrain`. -/
inductive DrainEvent (W : Type*) where
  | pass (t : Time)
  | refresh (w : W) (roster : String → List String) (asleep : Backend → Bool)
  | start (w : W) (b : Backend) (tried : List String)
  | finish (w : W) (b : Backend)
  | read (w : W)
  | assign (w : W)
  | post
  | deliver (w : W)
  | setStore (stored : Bool)
  | answer
  | giveUp
  | mark (w : W) (b : Backend) (ttl : Time)
  | markStore (b : Backend) (ttl : Time)
  | clear (w : W) (b : Backend)
  | clearStore (b : Backend)

/-- `get_inflight`: the requests under the instance's key. -/
def DrainWorker.inflight (v : DrainWorker) (b : Backend) : Nat :=
  v.requests.countP fun b' => makeBackendKey b' = makeBackendKey b

/-- The instance that a request of group `b.modelKey` may be sent to. -/
def DrainWorker.selects (v : DrainWorker) (b : Backend) (tried : List String) (now : Time) : Prop :=
  b.instanceId ∈ candidates (v.roster b.modelKey) tried (fun i => v.asleep ⟨b.modelKey, i⟩)
    fun i => isDraining v.draining ⟨b.modelKey, i⟩ now

instance (v : DrainWorker) (b : Backend) (tried : List String) (now : Time) :
    Decidable (v.selects b tried now) := inferInstanceAs (Decidable (_ ∈ _))

section Steps

variable {W : Type*} [DecidableEq W]

/-- Worker `w` is changed. -/
def DrainState.setWorker (s : DrainState W) (w : W) (v : DrainWorker) : DrainState W :=
  { s with worker := Function.update s.worker w v }

/-- The loop once a mark of `b` is cleared while `target` is drained. -/
def DrainLoop.cleared (target b : Backend) : DrainLoop W → DrainLoop W
  | .drained expires =>
    if makeBackendKey b = makeBackendKey target then .over else .drained expires
  | loop => loop

/-- One event, for the `_drain_instance` of `target` whose calls carry `ttl`. -/
def DrainState.step (target : Backend) (ttl : Time) (s : DrainState W) :
    DrainEvent W → Option (DrainState W)
  | .pass t => some { s with now := max s.now t }
  | .refresh w roster asleep =>
    some (s.setWorker w { s.worker w with roster := roster, asleep := asleep })
  | .start w b tried =>
    if (s.worker w).selects b tried s.now then
      some (s.setWorker w { s.worker w with requests := b :: (s.worker w).requests })
    else none
  | .finish w b =>
    if b ∈ (s.worker w).requests then
      some (s.setWorker w { s.worker w with requests := (s.worker w).requests.erase b })
    else none
  | .read w => some (s.setWorker w { s.worker w with
      listed := some (s.now, listDraining s.store s.now) })
  | .assign w =>
    (s.worker w).listed.map fun list => s.setWorker w { s.worker w with
      draining := list.2
      readAt := some list.1
      listed := none }
  | .post => if s.loop = .idle then some { s with loop := .posted } else none
  | .deliver w =>
    if s.loop = .posted then
      some { s.setWorker w { s.worker w with
          draining := markDraining (s.worker w).draining target ttl s.now } with
        loop := .marked w (s.now + ttl) }
    else none
  | .setStore stored =>
    match s.loop with
    | .marked w expires => some { s with
        store := if stored then markDraining s.store target ttl s.now else s.store
        storedAt := if stored then some (s.storedAt.getD s.now) else s.storedAt
        loop := .stored w expires }
    | _ => none
  | .answer =>
    match s.loop with
    | .stored w expires => some { s with
        loop := if (s.worker w).inflight target = 0 then .drained expires else .idle }
    | _ => none
  -- the deadline, an exception of the call, or an error response, which has no count
  | .giveUp =>
    match s.loop with
    | .drained _ => none
    | _ => some { s with loop := .over }
  | .mark w b ttl' =>
    if makeBackendKey b = makeBackendKey target then none
    else some (s.setWorker w { s.worker w with
      draining := markDraining (s.worker w).draining b ttl' s.now })
  | .markStore b ttl' =>
    if makeBackendKey b = makeBackendKey target then none
    else some { s with store := markDraining s.store b ttl' s.now }
  | .clear w b =>
    some { s.setWorker w { s.worker w with
        draining := clearDraining (s.worker w).draining b } with
      loop := s.loop.cleared target b }
  | .clearStore b =>
    some { s with store := clearDraining s.store b, loop := s.loop.cleared target b }

end Steps

/-! ## Safety -/

variable {W : Type*} {target b : Backend} {ttl : Time} {s s' : DrainState W} {e : DrainEvent W}

/-- Another instance of the group that worker `w` sees awake and not draining. -/
def DrainState.Alternative (target : Backend) (s : DrainState W) (w : W) (i : String) : Prop :=
  i ∈ (s.worker w).roster target.modelKey ∧ i ≠ target.instanceId ∧
    (s.worker w).asleep ⟨target.modelKey, i⟩ = false ∧
    isDraining (s.worker w).draining ⟨target.modelKey, i⟩ s.now = false

/-- **A safe event**: when the answer is `0`, no worker has a request on the instance; after it,
until the mark expires or is cleared, no worker starts one there that has an alternative. -/
def DrainState.Safe (target : Backend) (s : DrainState W) : DrainEvent W → Prop
  | .answer => ∀ v expires, s.loop = .stored v expires → (s.worker v).inflight target = 0 →
      ∀ w, target ∉ (s.worker w).requests
  | .start w b _ => b = target → ∀ expires, s.loop = .drained expires → s.now < expires →
      ∀ i, ¬ s.Alternative target w i
  | _ => True

/-- The list of marks that each worker goes by is at most `period` old. -/
def DrainState.Fresh (period : Time) (s : DrainState W) (now : Time) : Prop :=
  ∀ w, ∀ read ∈ (s.worker w).readAt, now ≤ read + period

/-- A list that was read after the store took the first mark. -/
def DrainState.After (s : DrainState W) (read : Time) : Prop := ∃ first ∈ s.storedAt, first < read

/-- `_drain_instance` has returned. -/
def DrainLoop.Returned : DrainLoop W → Prop
  | .drained _ | .over => True
  | _ => False

/-- The expiry of the last mark, from that mark on until the next call. -/
def DrainLoop.expiry : DrainLoop W → Option Time
  | .marked _ expires | .stored _ expires | .drained expires => some expires
  | _ => none

/-- **An attended event**, where polls are to be `period` apart.

* Worker `home` has the `/drain` calls and, until `_drain_instance` returns, the requests of the
  instance. No `/undrain` of it arrives before.
* The store takes the mark of each call, the last one at least `period` before the first expires.
* From a mark on, `home` assigns only a list that was read after the first mark was stored; and when
  the answer is `0`, every other worker has such a list.
* From then on until the mark expires, the lists are at most `period` old, and no request that has
  tried the alternatives fails over to the instance. -/
def DrainState.Attended (target : Backend) (ttl : Time) (home : W) (period : Time)
    (s : DrainState W) : DrainEvent W → Prop
  | .deliver w => w = home
  | .start w b tried => b = target →
      (¬ s.loop.Returned → w = home) ∧
      ∀ expires, s.loop = .drained expires → s.now < expires →
        ∀ i ∈ tried, ¬ s.Alternative target w i
  | .clear _ b | .clearStore b => makeBackendKey b = makeBackendKey target → s.loop.Returned
  | .setStore stored => stored = true ∧ ∀ first ∈ s.storedAt, s.now + period < first + ttl
  | .assign w => ∀ list ∈ (s.worker w).listed,
      (w = home → s.loop.expiry.isSome = true → s.After list.1) ∧
      ∀ expires, s.loop = .drained expires → s.now < expires → s.now ≤ list.1 + period
  | .answer => ∀ v expires, s.loop = .stored v expires → (s.worker v).inflight target = 0 →
      s.Fresh period s.now ∧ ∀ w, w ≠ home → ∃ read ∈ (s.worker w).readAt, s.After read
  | .pass t => ∀ expires, s.loop = .drained expires → max s.now t < expires →
      s.Fresh period (max s.now t)
  | _ => True

/-! ## The invariant -/

/-- The expiry of the last mark once the store has it. -/
def DrainLoop.lasting : DrainLoop W → Option Time
  | .stored _ expires | .drained expires => some expires
  | _ => none

/-- A list that was read after the first mark was stored has the instance's mark: until the first
one would expire, and for a period until the last one expires. -/
def DrainState.Covers (target : Backend) (ttl period : Time) (s : DrainState W) (read : Time)
    (marks : Marks) : Prop :=
  read ≤ s.now ∧ ∀ first ∈ s.storedAt, first < read → ∀ t, read ≤ t →
    (t < first + ttl ∨ t ≤ read + period ∧ ∃ expires ∈ s.loop.lasting, t < expires) →
      isDraining marks target t = true

/-- While `_drain_instance` runs and after it has returned: who serves the instance, what the store
and the lists have, and what the workers go by. -/
structure DrainState.Inv (target : Backend) (ttl : Time) (home : W) (period : Time)
    (s : DrainState W) : Prop where
  serves : ∀ v expires, s.loop = .marked v expires ∨ s.loop = .stored v expires → v = home
  alone : ¬ s.loop.Returned → ∀ w, w ≠ home → target ∉ (s.worker w).requests
  marked : ∀ v expires, s.loop = .marked v expires → expires ≤ s.now + ttl
  first : ∀ first ∈ s.storedAt, first ≤ s.now ∧
    ∃ mark ∈ s.store (makeBackendKey target), first + ttl ≤ mark
  last : ∀ expires ∈ s.loop.lasting, ∃ mark ∈ s.store (makeBackendKey target), expires ≤ mark
  listed : ∀ w, ∀ list ∈ (s.worker w).listed, s.Covers target ttl period list.1 list.2
  assigned : ∀ w, ∀ read ∈ (s.worker w).readAt,
    s.Covers target ttl period read (s.worker w).draining
  order : ∀ w, ∀ list ∈ (s.worker w).listed, ∀ read ∈ (s.worker w).readAt, read ≤ list.1
  own : ∀ expires ∈ s.loop.expiry, (∃ read ∈ (s.worker home).readAt, s.After read) ∨
    ∀ t < expires, isDraining (s.worker home).draining target t = true
  polled : ∀ expires, s.loop = .drained expires → (s.now < expires → s.Fresh period s.now) ∧
    ∀ w, w ≠ home → ∃ read ∈ (s.worker w).readAt, s.After read

variable {home w : W} {period : Time}

/-- **Drained, every worker has the mark** until it expires. -/
theorem DrainState.Inv.isDraining (h : s.Inv target ttl home period) {expires : Time}
    (hdrained : s.loop = .drained expires) (hlt : s.now < expires) (w : W) :
    isDraining (s.worker w).draining target s.now = true := by
  obtain ⟨hfresh, hothers⟩ := h.polled expires hdrained
  have hlasting : expires ∈ s.loop.lasting := by rw [hdrained]; rfl
  have hcovered : (∃ read ∈ (s.worker w).readAt, s.After read) →
      Router.isDraining (s.worker w).draining target s.now = true := by
    rintro ⟨read, hread, first, hfirst, hafter⟩
    obtain ⟨hle, hcovers⟩ := h.assigned w read hread
    exact hcovers first hfirst hafter s.now hle
      (.inr ⟨hfresh hlt w read hread, expires, hlasting, hlt⟩)
  rcases eq_or_ne w home with rfl | hw
  · rcases h.own expires (by rw [hdrained]; rfl) with hread | hmark
    · exact hcovered hread
    · exact hmark s.now hlt
  · exact hcovered (hothers w hw)

/-- What a list has lasts while nothing is stored. -/
theorem DrainState.Covers.mono {read : Time} {marks : Marks}
    (h : s.Covers target ttl period read marks) (hnow : s.now ≤ s'.now)
    (hfirst : s'.storedAt = s.storedAt) (hlasting : ∀ e ∈ s'.loop.lasting, e ∈ s.loop.lasting) :
    s'.Covers target ttl period read marks := by
  refine ⟨h.1.trans hnow, fun first hf hafter t hle ht => ?_⟩
  rw [hfirst] at hf
  refine h.2 first hf hafter t hle (ht.imp_right fun ⟨hperiod, expires, he, hlt⟩ => ?_)
  exact ⟨hperiod, expires, hlasting expires he, hlt⟩

/-- A list is as good as another with the same mark of the instance. -/
theorem DrainState.Covers.congr {read : Time} {marks marks' : Marks}
    (h : s.Covers target ttl period read marks)
    (hmarks : ∀ t, Router.isDraining marks target t = true →
      Router.isDraining marks' target t = true) :
    s.Covers target ttl period read marks' :=
  ⟨h.1, fun first hfirst hafter t hle ht => hmarks t (h.2 first hfirst hafter t hle ht)⟩

/-- Time passes, and what concerns the instance stays, at the workers and in the store. -/
theorem DrainState.Inv.frame (h : s.Inv target ttl home period) (hloop : s'.loop = s.loop)
    (hnow : s.now ≤ s'.now) (hfirst : s'.storedAt = s.storedAt)
    (hstore : s'.store (makeBackendKey target) = s.store (makeBackendKey target))
    (hrequests : ¬ s.loop.Returned → ∀ w, w ≠ home →
      target ∈ (s'.worker w).requests → target ∈ (s.worker w).requests)
    (hread : ∀ w, (s'.worker w).readAt = (s.worker w).readAt)
    (hlisted : ∀ w, (s'.worker w).listed = (s.worker w).listed)
    (hmarks : ∀ w t, Router.isDraining (s'.worker w).draining target t =
      Router.isDraining (s.worker w).draining target t)
    (hfresh : ∀ expires, s.loop = .drained expires → s'.now < expires → s.Fresh period s'.now) :
    s'.Inv target ttl home period := by
  have after (read : Time) : s'.After read ↔ s.After read := by
    unfold DrainState.After
    rw [hfirst]
  constructor
  · rw [hloop]; exact h.serves
  · rw [hloop]
    exact fun hnot w hw hmem => h.alone hnot w hw (hrequests hnot w hw hmem)
  · rw [hloop]
    exact fun v expires hmarked => (h.marked v expires hmarked).trans (by linarith)
  · rw [hfirst, hstore]
    exact fun first hf => ⟨(h.first first hf).1.trans hnow, (h.first first hf).2⟩
  · rw [hloop, hstore]; exact h.last
  · intro w list hlist
    rw [hlisted] at hlist
    exact (h.listed w list hlist).mono hnow hfirst (by rw [hloop]; exact fun _ he => he)
  · intro w read hr
    rw [hread] at hr
    refine ((h.assigned w read hr).congr fun t ht => ?_).mono hnow hfirst
      (by rw [hloop]; exact fun _ he => he)
    rw [hmarks]; exact ht
  · intro w
    rw [hlisted, hread]
    exact h.order w
  · rw [hloop, hread]
    simp only [after, hmarks]
    exact h.own
  · rw [hloop]
    intro expires hdrained
    refine ⟨fun hlt w => ?_, fun w hw => ?_⟩
    · rw [hread]
      exact hfresh expires hdrained hlt w
    · rw [hread]
      simp only [after]
      exact (h.polled expires hdrained).2 w hw

/-- The loop once a mark of another instance is cleared. -/
theorem DrainLoop.cleared_of_ne {loop : DrainLoop W}
    (h : makeBackendKey b ≠ makeBackendKey target) : loop.cleared target b = loop := by
  cases loop <;> simp [DrainLoop.cleared, h]

/-- The loop once the mark of the instance is cleared. -/
theorem DrainLoop.cleared_of_eq {loop : DrainLoop W}
    (h : makeBackendKey b = makeBackendKey target) (hreturned : loop.Returned) :
    loop.cleared target b = .over := by
  cases loop <;> simp_all [DrainLoop.cleared, DrainLoop.Returned]

/-- The loop goes on where no mark lasts. -/
theorem DrainState.Inv.waits (h : s.Inv target ttl home period) (hnot : ¬ s.loop.Returned)
    {loop : DrainLoop W} (hloop : loop = .idle ∨ loop = .posted) :
    { s with loop := loop }.Inv target ttl home period where
  serves v expires hv := by rcases hloop with rfl | rfl <;> rcases hv with hv | hv <;> cases hv
  alone _ := h.alone hnot
  marked v expires hv := by rcases hloop with rfl | rfl <;> cases hv
  first := h.first
  last expires he := by rcases hloop with rfl | rfl <;> cases he
  listed u list hlist := (h.listed u list hlist).mono le_rfl rfl fun e he => by
    rcases hloop with rfl | rfl <;> cases he
  assigned u read hread := (h.assigned u read hread).mono le_rfl rfl fun e he => by
    rcases hloop with rfl | rfl <;> cases he
  order := h.order
  own expires he := by rcases hloop with rfl | rfl <;> cases he
  polled expires he := by rcases hloop with rfl | rfl <;> cases he

/-- The store takes the mark. -/
theorem DrainState.Inv.setStore (h : s.Inv target ttl home period) {v : W} {expires : Time}
    (hloop : s.loop = .marked v expires)
    (hperiod : ∀ first ∈ s.storedAt, s.now + period < first + ttl) :
    { s with
      store := markDraining s.store target ttl s.now
      storedAt := some (s.storedAt.getD s.now)
      loop := .stored v expires }.Inv target ttl home period := by
  have hexpires : expires ≤ s.now + ttl := h.marked v expires hloop
  have hstore : markDraining s.store target ttl s.now (makeBackendKey target) =
      some (s.now + ttl) := Function.update_self ..
  -- what was read after the first mark has it for a period from now on
  have hcovers {read : Time} {marks : Marks} (hc : s.Covers target ttl period read marks) :
      Covers target ttl period { s with
        store := markDraining s.store target ttl s.now
        storedAt := some (s.storedAt.getD s.now)
        loop := .stored v expires } read marks := by
    refine ⟨hc.1, fun first hfirst hafter t hle ht => ?_⟩
    obtain rfl := Option.some.inj hfirst
    cases hstored : s.storedAt with
    | none =>
      rw [hstored] at hafter
      exact absurd hc.1 (not_le.mpr hafter)
    | some first =>
      rw [hstored] at hafter ht
      refine hc.2 first hstored hafter t hle (.inl ?_)
      rcases ht with ht | ⟨ht, -⟩
      · exact ht
      · exact ht.trans_lt ((add_le_add_left hc.1 period).trans_lt (hperiod first hstored))
  constructor
  · rintro v' expires' (hv | hv)
    · cases hv
    · cases hv
      exact h.serves v expires (.inl hloop)
  · exact fun _ => h.alone (by rw [hloop]; exact not_false)
  · intro v' expires' hv
    cases hv
  · intro first hfirst
    obtain rfl := Option.some.inj hfirst
    cases hstored : s.storedAt with
    | none => exact ⟨le_rfl, _, hstore, le_rfl⟩
    | some first =>
      obtain ⟨hle, -⟩ := h.first first hstored
      exact ⟨hle, _, hstore, add_le_add_left hle ttl⟩
  · intro expires' he
    cases he
    exact ⟨_, hstore, hexpires⟩
  · exact fun u list hlist => hcovers (h.listed u list hlist)
  · exact fun u read hread => hcovers (h.assigned u read hread)
  · exact h.order
  · intro expires' he
    cases he
    refine (h.own expires (by rw [hloop]; rfl)).imp_left ?_
    rintro ⟨read, hread, first, hfirst, hafter⟩
    exact ⟨read, hread, first, by rw [hfirst]; rfl, hafter⟩
  · intro expires' he
    cases he

/-- The answer is that nothing is in flight. -/
theorem DrainState.Inv.drained (h : s.Inv target ttl home period) {v : W} {expires : Time}
    (hloop : s.loop = .stored v expires) (hfresh : s.Fresh period s.now)
    (hpolled : ∀ w, w ≠ home → ∃ read ∈ (s.worker w).readAt, s.After read) :
    { s with loop := .drained expires }.Inv target ttl home period where
  serves v' expires' hv := by rcases hv with hv | hv <;> cases hv
  alone hnot := absurd trivial hnot
  marked v' expires' hv := by cases hv
  first := h.first
  last expires' he := h.last expires' (by rw [hloop]; exact he)
  listed u list hlist := (h.listed u list hlist).mono le_rfl rfl fun e he => by
    rw [hloop]; exact he
  assigned u read hread := (h.assigned u read hread).mono le_rfl rfl fun e he => by
    rw [hloop]; exact he
  order := h.order
  own expires' he := h.own expires' (by rw [hloop]; exact he)
  polled expires' _ := ⟨fun _ => hfresh, hpolled⟩

section Runs

variable [DecidableEq W]

theorem DrainState.worker_setWorker {v : DrainWorker} (u : W) :
    (s.setWorker w v).worker u = if u = w then v else s.worker u := Function.update_apply ..

/-- A worker changes, and keeps what concerns the instance. -/
theorem DrainState.Inv.setWorker (h : s.Inv target ttl home period) {v : DrainWorker}
    (hrequests : ¬ s.loop.Returned → w ≠ home →
      target ∈ v.requests → target ∈ (s.worker w).requests)
    (hread : v.readAt = (s.worker w).readAt) (hlisted : v.listed = (s.worker w).listed)
    (hmarks : ∀ t, Router.isDraining v.draining target t =
      Router.isDraining (s.worker w).draining target t) :
    (s.setWorker w v).Inv target ttl home period := by
  refine h.frame rfl le_rfl rfl rfl (fun hnot u hu => ?_) (fun u => ?_) (fun u => ?_)
    (fun u t => ?_) fun expires hdrained => (h.polled expires hdrained).1
  all_goals
    rw [worker_setWorker]
    split_ifs with huw
  · exact huw ▸ hrequests hnot (huw ▸ hu)
  · exact id
  · rw [huw, hread]
  · rfl
  · rw [huw, hlisted]
  · rfl
  · rw [huw, hmarks]
  · rfl

/-- A poller reads the marks of the store. -/
theorem DrainState.Inv.read (h : s.Inv target ttl home period) :
    (s.setWorker w { s.worker w with
      listed := some (s.now, listDraining s.store s.now) }).Inv target ttl home period := by
  have hworker (u : W) : ((s.setWorker w { s.worker w with
      listed := some (s.now, listDraining s.store s.now) }).worker u) = { s.worker u with
        listed := if u = w then some (s.now, listDraining s.store s.now)
          else (s.worker u).listed } := by
    rcases eq_or_ne u w with rfl | hu
    · rw [DrainState.worker_setWorker, if_pos rfl, if_pos rfl]
    · rw [DrainState.worker_setWorker, if_neg hu, if_neg hu]
  constructor
  · exact h.serves
  · intro hnot u hu
    rw [hworker]
    exact h.alone hnot u hu
  · exact h.marked
  · exact h.first
  · exact h.last
  · intro u list hlist
    rw [hworker] at hlist
    dsimp only at hlist
    split_ifs at hlist with hu
    · obtain rfl := Option.some.inj hlist
      refine ⟨le_rfl, fun first hfirst _ t hle ht => ?_⟩
      rw [isDraining_listDraining hle, isDraining_iff]
      rcases ht with ht | ⟨-, expires, hexpires, ht⟩
      · obtain ⟨-, mark, hmark, hlt⟩ := h.first first hfirst
        exact ⟨mark, hmark, ht.trans_le hlt⟩
      · obtain ⟨mark, hmark, hlt⟩ := h.last expires hexpires
        exact ⟨mark, hmark, ht.trans_le hlt⟩
    · exact h.listed u list hlist
  · intro u read hread
    rw [hworker] at hread ⊢
    exact h.assigned u read hread
  · intro u list hlist read hread
    rw [hworker] at hlist hread
    dsimp only at hlist
    split_ifs at hlist
    · obtain rfl := Option.some.inj hlist
      exact (h.assigned u read hread).1
    · exact h.order u list hlist read hread
  · rw [hworker]
    exact h.own
  · intro expires hdrained
    refine ⟨fun hlt u => ?_, fun u hu => ?_⟩
    · rw [hworker]
      exact (h.polled expires hdrained).1 hlt u
    · rw [hworker]
      exact (h.polled expires hdrained).2 u hu

/-- A poller assigns the marks it has read. -/
theorem DrainState.Inv.assign (h : s.Inv target ttl home period) {list : Time × Marks}
    (hlist : list ∈ (s.worker w).listed)
    (hhome : w = home → s.loop.expiry.isSome = true → s.After list.1)
    (hfresh : ∀ expires, s.loop = .drained expires → s.now < expires →
      s.now ≤ list.1 + period) :
    (s.setWorker w { s.worker w with
      draining := list.2
      readAt := some list.1
      listed := none }).Inv target ttl home period := by
  constructor
  · exact h.serves
  · intro hnot u hu
    rw [worker_setWorker]
    split_ifs with huw
    · exact huw ▸ h.alone hnot u hu
    · exact h.alone hnot u hu
  · exact h.marked
  · exact h.first
  · exact h.last
  · intro u other hother
    rw [worker_setWorker] at hother
    split_ifs at hother
    · cases hother
    · exact h.listed u other hother
  · intro u read hread
    rw [worker_setWorker] at hread ⊢
    split_ifs at hread ⊢
    · obtain rfl := Option.some.inj hread
      exact h.listed w list hlist
    · exact h.assigned u read hread
  · intro u other hother
    rw [worker_setWorker] at hother
    split_ifs at hother
    · cases hother
    · rw [worker_setWorker]
      split_ifs
      exact h.order u other hother
  · intro expires hexpires
    rw [worker_setWorker]
    split_ifs with hw
    · exact .inl ⟨list.1, rfl, hhome hw.symm (Option.isSome_of_mem hexpires)⟩
    · exact h.own expires hexpires
  · intro expires hdrained
    obtain ⟨hpolls, hothers⟩ := h.polled expires hdrained
    refine ⟨fun hlt u read hread => ?_, fun u hu => ?_⟩
    · rw [worker_setWorker] at hread
      split_ifs at hread
      · obtain rfl := Option.some.inj hread
        exact hfresh expires hdrained hlt
      · exact hpolls hlt u read hread
    · rw [worker_setWorker]
      split_ifs with huw
      · -- it was read after the list that the worker went by
        obtain ⟨read, hread, first, hfirst, hafter⟩ := hothers u hu
        rw [huw] at hread
        exact ⟨list.1, rfl, first, hfirst, hafter.trans_le (h.order w list hlist read hread)⟩
      · exact hothers u hu

/-- A call reaches its worker, which marks the instance. -/
theorem DrainState.Inv.deliver (h : s.Inv target ttl home period) (hloop : s.loop = .posted) :
    { s.setWorker home { s.worker home with
        draining := markDraining (s.worker home).draining target ttl s.now } with
      loop := .marked home (s.now + ttl) }.Inv target ttl home period := by
  constructor
  · rintro v expires (hv | hv)
    · cases hv
      rfl
    · cases hv
  · intro _ u hu
    show target ∉ ((s.setWorker home _).worker u).requests
    rw [worker_setWorker, if_neg hu]
    exact h.alone (by rw [hloop]; exact not_false) u hu
  · intro v expires hv
    cases hv
    exact le_rfl
  · exact h.first
  · intro expires he
    cases he
  · intro u list hlist
    change list ∈ ((s.setWorker home _).worker u).listed at hlist
    rw [worker_setWorker] at hlist
    refine Covers.mono (s := s) ?_ le_rfl rfl fun e he => nomatch he
    split_ifs at hlist
    · exact h.listed home list hlist
    · exact h.listed u list hlist
  · intro u read hread
    change read ∈ ((s.setWorker home _).worker u).readAt at hread
    show Covers _ _ _ _ _ ((s.setWorker home _).worker u).draining
    rw [worker_setWorker] at hread ⊢
    split_ifs at hread ⊢
    · -- its own mark lasts longer than the first one of the store
      refine ⟨(h.assigned home read hread).1, fun first hfirst _ t _ ht => ?_⟩
      refine isDraining_markDraining.mpr ?_
      rcases ht with ht | ⟨-, _, he, -⟩
      · exact ht.trans_le (by linarith [(h.first first hfirst).1])
      · cases he
    · exact (h.assigned u read hread).mono le_rfl rfl fun e he => nomatch he
  · intro u list hlist read hread
    change list ∈ ((s.setWorker home _).worker u).listed at hlist
    change read ∈ ((s.setWorker home _).worker u).readAt at hread
    rw [worker_setWorker] at hlist hread
    split_ifs at hlist hread
    · exact h.order home list hlist read hread
    · exact h.order u list hlist read hread
  · intro expires he
    cases he
    refine .inr fun t ht => ?_
    show Router.isDraining ((s.setWorker home _).worker home).draining target t = true
    rw [worker_setWorker, if_pos rfl]
    exact isDraining_markDraining.mpr ht
  · intro expires he
    cases he

/-- **The invariant is kept** by every attended event, until the loop is over. -/
theorem DrainState.Inv.step (h : s.Inv target ttl home period)
    (he : s.Attended target ttl home period e) (hstep : s.step target ttl e = some s') :
    s'.loop = .over ∨ s'.Inv target ttl home period := by
  cases e with
  | pass t =>
    obtain rfl := Option.some.inj hstep
    exact .inr (h.frame rfl (le_max_left ..) rfl rfl (fun _ _ _ => id) (fun _ => rfl)
      (fun _ => rfl) (fun _ _ => rfl) he)
  | refresh w roster asleep =>
    obtain rfl := Option.some.inj hstep
    exact .inr (h.setWorker (fun _ _ => id) rfl rfl fun _ => rfl)
  | start w b tried =>
    simp only [DrainState.step, Option.ite_none_right_eq_some, Option.some.injEq] at hstep
    obtain ⟨-, rfl⟩ := hstep
    refine .inr (h.setWorker (fun hnot hw hmem => ?_) rfl rfl fun _ => rfl)
    rcases List.mem_cons.mp hmem with hb | hmem
    · exact absurd ((he hb.symm).1 hnot) hw
    · exact hmem
  | finish w b =>
    simp only [DrainState.step, Option.ite_none_right_eq_some, Option.some.injEq] at hstep
    obtain ⟨-, rfl⟩ := hstep
    exact .inr (h.setWorker (fun _ _ => List.mem_of_mem_erase) rfl rfl fun _ => rfl)
  | read w =>
    obtain rfl := Option.some.inj hstep
    exact .inr h.read
  | assign w =>
    obtain ⟨list, hlist, rfl⟩ := Option.map_eq_some_iff.mp hstep
    obtain ⟨hhome, hfresh⟩ := he list hlist
    exact .inr (h.assign hlist hhome hfresh)
  | post =>
    simp only [DrainState.step, Option.ite_none_right_eq_some, Option.some.injEq] at hstep
    obtain ⟨hloop, rfl⟩ := hstep
    exact .inr (h.waits (by rw [hloop]; exact not_false) (.inr rfl))
  | deliver w =>
    simp only [DrainState.step, Option.ite_none_right_eq_some, Option.some.injEq] at hstep
    obtain ⟨hloop, rfl⟩ := hstep
    rw [show w = home from he]
    exact .inr (h.deliver hloop)
  | setStore stored =>
    simp only [DrainState.step] at hstep
    split at hstep <;> simp only [reduceCtorEq, Option.some.injEq] at hstep
    next v expires hloop =>
    obtain ⟨rfl, hperiod⟩ := he
    rw [if_pos rfl, if_pos rfl] at hstep
    subst hstep
    exact .inr (h.setStore hloop hperiod)
  | answer =>
    simp only [DrainState.step] at hstep
    split at hstep <;> simp only [reduceCtorEq, Option.some.injEq] at hstep
    next v expires hloop =>
    subst hstep
    split_ifs with hzero
    · obtain ⟨hfresh, hpolled⟩ := he v expires hloop hzero
      exact .inr (h.drained hloop hfresh hpolled)
    · exact .inr (h.waits (by rw [hloop]; exact not_false) (.inl rfl))
  | giveUp =>
    simp only [DrainState.step] at hstep
    split at hstep <;> simp only [reduceCtorEq, Option.some.injEq] at hstep
    subst hstep
    exact .inl rfl
  | mark w b ttl' =>
    simp only [DrainState.step, Option.ite_none_left_eq_some, Option.some.injEq] at hstep
    obtain ⟨hkey, rfl⟩ := hstep
    exact .inr (h.setWorker (fun _ _ => id) rfl rfl fun _ =>
      isDraining_update fun h => hkey h.symm)
  | markStore b ttl' =>
    simp only [DrainState.step, Option.ite_none_left_eq_some, Option.some.injEq] at hstep
    obtain ⟨hkey, rfl⟩ := hstep
    exact .inr (h.frame rfl le_rfl rfl (Function.update_of_ne (fun h => hkey h.symm) _ _)
      (fun _ _ _ => id) (fun _ => rfl) (fun _ => rfl) (fun _ _ => rfl)
      fun expires hdrained => (h.polled expires hdrained).1)
  | clear w b =>
    obtain rfl := Option.some.inj hstep
    by_cases hkey : makeBackendKey b = makeBackendKey target
    · exact .inl (DrainLoop.cleared_of_eq hkey (he hkey))
    · rw [DrainLoop.cleared_of_ne hkey]
      exact .inr (h.setWorker (fun _ _ => id) rfl rfl fun _ =>
        isDraining_update fun h => hkey h.symm)
  | clearStore b =>
    obtain rfl := Option.some.inj hstep
    by_cases hkey : makeBackendKey b = makeBackendKey target
    · exact .inl (DrainLoop.cleared_of_eq hkey (he hkey))
    · rw [DrainLoop.cleared_of_ne hkey]
      exact .inr (h.frame rfl le_rfl rfl (Function.update_of_ne (fun h => hkey h.symm) _ _)
        (fun _ _ _ => id) (fun _ => rfl) (fun _ => rfl) (fun _ _ => rfl)
        fun expires hdrained => (h.polled expires hdrained).1)

/-- Before the first call: no worker but `home` has a request of the instance, and every poller
reads before it assigns. -/
structure DrainState.Boot (target : Backend) (home : W) (s : DrainState W) : Prop where
  loop : s.loop = .idle
  storedAt : s.storedAt = none
  alone : ∀ w, w ≠ home → target ∉ (s.worker w).requests
  listed : ∀ w, ∀ list ∈ (s.worker w).listed, list.1 ≤ s.now
  readAt : ∀ w, ∀ read ∈ (s.worker w).readAt, read ≤ s.now
  order : ∀ w, ∀ list ∈ (s.worker w).listed, ∀ read ∈ (s.worker w).readAt, read ≤ list.1

omit [DecidableEq W] in
theorem DrainState.Boot.inv (h : s.Boot target home) : s.Inv target ttl home period := by
  have covers {read : Time} {marks : Marks} (hread : read ≤ s.now) :
      s.Covers target ttl period read marks := by
    refine ⟨hread, fun first hfirst => ?_⟩
    rw [h.storedAt] at hfirst
    cases hfirst
  refine ⟨fun v expires hv => ?_, fun _ => h.alone, fun v expires hv => ?_, fun first hfirst => ?_,
    fun expires he => ?_, fun w list hlist => covers (h.listed w list hlist),
    fun w read hread => covers (h.readAt w read hread), h.order, fun expires he => ?_,
    fun expires he => ?_⟩
  · rw [h.loop] at hv
    rcases hv with hv | hv <;> cases hv
  · rw [h.loop] at hv
    cases hv
  · rw [h.storedAt] at hfirst
    cases hfirst
  · rw [h.loop] at he
    cases he
  · rw [h.loop] at he
    cases he
  · rw [h.loop] at he
    cases he

/-- Two workers, `false` with a request on the instance. -/
def twoWorkers : DrainState Bool where
  now := 0
  store := fun _ => none
  worker := fun w => {
    requests := if w then [] else [⟨"m", "a"⟩]
    roster := fun _ => ["a", "b"] }

end Runs

end Llmops.Router
