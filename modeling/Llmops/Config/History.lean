import Llmops.Config.Versions
import Llmops.Lib.Cursor

/-!
# The pages of the version history

`list_config_versions` (`llmops_store.py:663-677`) over the histories of `Config/Versions`: requests,
rollbacks, starts and syncs record versions, other replicas add theirs and old ones are pruned, and a
client follows the cursor between any two of them.

All of these do two things to the table: `record_config_version` adds a row unless the newest has its
hash, and `prune_config_versions` keeps the newest rows (`Amends`). So the ids go down and no two
neighbours have one hash (`Ordered`), however the history went, and the table is a `Log`.

* `history_pages`: what a client that follows the cursor is shown.
-/

namespace Llmops.Config

open Lib Node

variable {H : Type} [DecidableEq H] {w : Setup} {digest : String → H} {postgres : Bool}
  {b b' c : Backend H} {vs : List (Version H)} {n : Nat}

/-! ## What happens to the table -/

/-- The rows that records and prunes make of those of `b`, and the next id. -/
inductive Amends (b : Backend H) : List (Version H) → Nat → Prop
  | refl : Amends b b.versions b.nextId
  | record {vs : List (Version H)} {n : Nat} (h : Amends b vs n) (sha : H) (blob : Json)
      (hne : vs.head?.map (·.sha256) ≠ some sha) : Amends b (⟨n, sha, blob⟩ :: vs) (n + 1)
  | prune {vs : List (Version H)} {n : Nat} (h : Amends b vs n) (keep : Nat) : Amends b (vs.take keep) n

/-- The table of `c` is one that records and prunes made of that of `b`. -/
def Backend.From (b c : Backend H) : Prop := Amends b c.versions c.nextId

omit [DecidableEq H] in
theorem from_refl (b : Backend H) : b.From b := Amends.refl

omit [DecidableEq H] in
theorem Backend.From.manager (h : b.From c) (m : Manager) : b.From { c with manager := m } := h

theorem Backend.From.record (h : b.From c) (blob : Json) (sha : H) : b.From (c.record blob sha) := by
  unfold Backend.record
  split_ifs with hsame
  · exact h
  · exact Amends.record h sha blob hsame

theorem Backend.From.snapshot (h : b.From c) (stored : Bool) : b.From (c.snapshot digest stored) := by
  unfold Backend.snapshot
  split
  · split_ifs
    · exact h.record _ _
    · exact h
  · exact h

theorem from_importOverlay (b : Backend H) (a : Around) (overlay : Json) (force : Bool) :
    b.From (b.importOverlay w digest postgres a overlay force).1 := by
  unfold Backend.importOverlay
  split
  · exact from_refl b
  · dsimp only
    split_ifs
    · exact ((from_refl b).record _ _).manager _
    · exact (from_refl b).manager _

theorem from_handle (b : Backend H) (a : Around) (r : Req) :
    b.From (b.handle w digest postgres a r).1 := by
  unfold Backend.handle
  split
  · exact from_importOverlay b a _ _
  · exact (from_refl b).manager _
  · split
    · exact from_refl b
    · exact (from_refl b).manager _
  · split
    · exact from_refl b
    · exact from_importOverlay b a _ _

theorem from_request (b : Backend H) (a : Around) (r : Req) :
    b.From (b.request w digest postgres a r).1 := by
  unfold Backend.request
  split
  · exact from_refl b
  · dsimp only
    split_ifs
    · exact (from_handle b a r).snapshot _
    · exact from_handle b a r

/-- **Whatever happens** records and prunes. -/
theorem from_happen {e : Happening} (he : happen w digest postgres b e = some b') : b.From b' := by
  cases e with
  | request a r =>
    cases he
    exact from_request b a r
  | sync a =>
    cases he
    unfold Backend.sync
    split
    · exact from_refl b
    · split_ifs
      · exact (from_refl b).manager _
      · exact from_refl b
  | start key gpu now =>
    obtain ⟨m, -, rfl⟩ := Option.map_eq_some_iff.mp he
    exact (from_refl b).manager m
  | runtime x keys =>
    cases he
    exact (from_refl b).manager _
  | prune keep =>
    cases he
    exact Amends.prune Amends.refl keep
  | foreign overlay =>
    unfold happen at he
    dsimp only at he
    split_ifs at he
    cases he
    exact (from_refl b).record _ _
  | restart stored =>
    simp only [happen, Backend.restart, Option.bind_eq_bind, Option.bind_eq_some_iff,
      Option.pure_def, Option.some.injEq] at he
    obtain ⟨m, -, rfl⟩ := he
    exact ((from_refl b).manager m).snapshot stored

/-! ## The table as a log -/

/-- The ids go down, the next one is above them, and neighbours have different hashes. -/
structure Ordered (vs : List (Version H)) (n : Nat) : Prop where
  sorted : vs.Pairwise fun v v' => v'.id < v.id
  below : ∀ v ∈ vs, v.id < n
  hashes : vs.IsChain fun v v' => v.sha256 ≠ v'.sha256

omit [DecidableEq H] in
theorem Ordered.amends (h : Ordered b.versions b.nextId) (hvs : Amends b vs n) : Ordered vs n := by
  induction hvs with
  | refl => exact h
  | record _ sha blob hne ih =>
    refine ⟨List.pairwise_cons.mpr ⟨fun v hv => ih.below v hv, ih.sorted⟩,
      List.forall_mem_cons.mpr ⟨Nat.lt_succ_self _, fun v hv => (ih.below v hv).trans
        (Nat.lt_succ_self _)⟩, List.isChain_cons.mpr ⟨fun v hv heq => hne ?_, ih.hashes⟩⟩
    rw [Option.mem_def.mp hv, Option.map_some, ← heq]
  | prune _ keep ih =>
    exact ⟨ih.sorted.take, fun v hv => ih.below v (List.mem_of_mem_take hv), ih.hashes.take keep⟩

omit [DecidableEq H] in
theorem Ordered.of_from (h : Ordered b.versions b.nextId) (hc : b.From c) :
    Ordered c.versions c.nextId := h.amends hc

/-- The table of a backend. -/
def Ordered.log (h : Ordered vs n) : Log (Version H) where
  rows := vs.map fun v => (v.id, v)
  next := n
  sorted := List.pairwise_map.mpr h.sorted
  below := by
    intro r hr
    obtain ⟨v, hv, rfl⟩ := List.mem_map.mp hr
    exact h.below v hv

omit [DecidableEq H] in
theorem Ordered.later (h : Ordered b.versions b.nextId) (hvs : Amends b vs n) :
    Log.Later h.log (h.amends hvs).log := by
  induction hvs with
  | refl => exact Log.later_refl _
  | record hvs sha blob hne ih =>
    refine ⟨ih.next.trans (Nat.le_succ _), fun r hr => ?_⟩
    rcases List.mem_cons.mp hr with rfl | hr
    · exact .inr ih.next
    · exact ih.rows r hr
  | prune hvs keep ih =>
    refine ⟨ih.next, fun r hr => ih.rows r ?_⟩
    obtain ⟨v, hv, rfl⟩ := List.mem_map.mp hr
    exact List.mem_map.mpr ⟨v, List.mem_of_mem_take hv, rfl⟩

/-- **The history is in order**, however it went. -/
theorem ordered_reach {file : Option Json} {s : Backend H} (hs : startup w digest file = some s)
    (h : Reach (happen w digest postgres) anyEvent s b) : Ordered b.versions b.nextId := by
  refine h.invariant (I := fun b => Ordered b.versions b.nextId) ?_ fun ho _ he =>
    ho.of_from (from_happen he)
  simp only [startup, Option.bind_eq_bind, Option.bind_eq_some_iff, Option.pure_def,
    Option.some.injEq] at hs
  obtain ⟨m, -, rfl⟩ := hs
  have hempty : Ordered ({ manager := m : Backend H }).versions 1 :=
    ⟨List.Pairwise.nil, by simp, List.isChain_nil⟩
  exact hempty.of_from ((from_refl _).snapshot true)

/-! ## The pages -/

/-- `list_config_versions`. -/
def listVersions (b : Backend H) (before : Option Nat) (limit : Int) : List (Version H) :=
  (b.versions.filter fun v => before.all (v.id < ·)).take (limitOf limit 500)

/-- What a client makes of a page. -/
def takeVersions (b : Backend H) (limit : Int) (r : Lib.Reader (Version H)) :
    Lib.Reader (Version H) :=
  r.take ((listVersions b r.before limit).map fun v => (v.id, v)) (limitOf limit 500)

omit [DecidableEq H] in
theorem page_log (h : Ordered b.versions b.nextId) (before : Option Nat) (limit : Int) :
    h.log.page (fun _ => true) before (limitOf limit 500) =
      (listVersions b before limit).map fun v => (v.id, v) := by
  unfold Log.page listVersions Ordered.log
  rw [List.filter_map, List.map_take]
  rfl

section Step

variable (w digest postgres)

/-- Something happens to the backend, or the client takes the next page. -/
def historyStep (limit : Int) (s : Backend H × Lib.Reader (Version H)) :
    Lib.Reader.Event Happening → Option (Backend H × Lib.Reader (Version H))
  | .change e => (happen w digest postgres s.1 e).map fun b => (b, s.2)
  | .read => if s.2.through then none else some (s.1, takeVersions s.1 limit s.2)

end Step

/-- **The pages of the version history**, in any run from a start of the backend: a client that
follows the cursor, while requests, rollbacks, prunes, restarts and other replicas go on, is shown
only versions that were there at its first page, each once and the newest first, and once it is
through, every one of them that has not been pruned. At any time the ids go down and no two
neighbours have the same content hash. -/
theorem history_pages {file : Option Json} {s b₀ : Backend H} {limit : Int}
    {r : Lib.Reader (Version H)} (hs : startup w digest file = some s)
    (h₀ : Reach (happen w digest postgres) anyEvent s b₀)
    (h : Reach (historyStep w digest postgres limit) anyEvent (b₀, takeVersions b₀ limit {}) (b, r)) :
    Ordered b.versions b.nextId ∧ (r.seen.Pairwise fun v v' => v'.1 < v.1) ∧
      (∀ v ∈ r.seen, v.2 ∈ b₀.versions ∧ v.1 = v.2.id) ∧
      (r.through = true → ∀ v ∈ b₀.versions, v ∈ b.versions → (v.id, v) ∈ r.seen) := by
  have ho₀ := ordered_reach hs h₀
  have hcovers : ∃ ho : Ordered b.versions b.nextId,
      Lib.Reader.Covers (fun _ => true) ho₀.log ho.log r := by
    refine h.invariant (I := fun s => ∃ ho : Ordered s.1.versions s.1.nextId,
      Lib.Reader.Covers (fun _ => true) ho₀.log ho.log s.2) ⟨ho₀, ?_⟩ ?_
    · have hfirst := Lib.Reader.covers_first (fun _ => true) ho₀.log (limitOf_pos limit 500)
      rwa [page_log] at hfirst
    · rintro ⟨b, r⟩ ⟨b', r'⟩ e ⟨ho, hcovers⟩ - he
      cases e with
      | change e =>
        obtain ⟨b'', hb, heq⟩ := Option.map_eq_some_iff.mp he
        cases heq
        exact ⟨ho.of_from (from_happen hb), hcovers.change (ho.later (from_happen hb))⟩
      | read =>
        simp only [historyStep] at he
        split_ifs at he with hthrough
        cases he
        have hread := hcovers.read (limitOf_pos limit 500) (by simpa using hthrough)
        rw [page_log] at hread
        exact ⟨ho, hread⟩
  obtain ⟨ho, hcovers⟩ := hcovers
  refine ⟨ho, hcovers.sorted, fun v hv => ?_, fun hthrough v hv₀ hv => ?_⟩
  · obtain ⟨hv₀, -, -⟩ := hcovers.seen v hv
    obtain ⟨v', hv', rfl⟩ := List.mem_map.mp hv₀
    exact ⟨hv', rfl⟩
  · exact hcovers.through hthrough (v.id, v) (List.mem_map_of_mem hv) (List.mem_map_of_mem hv₀) rfl

/-- Pages of one version each, a prune between them. -/
def browsed : List (Lib.Reader.Event Happening) := [.read, .change (.prune 2), .read]

theorem history_pages_edited : ∃ s b₀ b r, startup oneGroup id none = some s ∧
    run (happen oneGroup id false) s edited = some b₀ ∧
    run (historyStep oneGroup id false 1) (b₀, takeVersions b₀ 1 {}) browsed = some (b, r) ∧
    Ordered b.versions b.nextId ∧ (r.seen.Pairwise fun v v' => v'.1 < v.1) ∧
      (∀ v ∈ r.seen, v.2 ∈ b₀.versions ∧ v.1 = v.2.id) ∧
      (r.through = true → ∀ v ∈ b₀.versions, v ∈ b.versions → (v.id, v) ∈ r.seen) := by
  have hall : ((startup oneGroup id none).bind fun s =>
      (run (happen oneGroup id false) s edited).bind fun b₀ =>
        run (historyStep oneGroup id false 1) (b₀, takeVersions b₀ 1 {}) browsed).isSome = true := by
    decide +kernel
  obtain ⟨⟨b, r⟩, hall⟩ := Option.isSome_iff_exists.mp hall
  obtain ⟨s, hs, hall⟩ := Option.bind_eq_some_iff.mp hall
  obtain ⟨b₀, hb₀, hr⟩ := Option.bind_eq_some_iff.mp hall
  exact ⟨s, b₀, b, r, hs, hb₀, hr, history_pages hs (Reach.of_run hb₀) (Reach.of_run hr)⟩

end Llmops.Config
