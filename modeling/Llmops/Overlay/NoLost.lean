import Llmops.Overlay.Snapshot
import Mathlib

/-!
# No lost overlay update

`NoLost` says that the newest snapshot and the overlay file of its replica have what every
successful request set, unless a later request set the same field; and `Stays`, that no file that has
it loses it. The order of requests is that of their saves, and a request counts from its save on, as
an import snapshots its overlay before it responds.

The source does not ensure it. A request is exposed from the moment it loads the file until its
snapshot is in: a hydration overwrites the file with the newest row, which does not have the
change yet, and the middleware then sees no change; two replicas that load the same overlay
overwrite each other's snapshot; and a hydration that fetched its row before the snapshot writes the
old overlay over the file afterwards.

* `noLost_of_serial`: nothing is lost in runs in which exposed requests of different replicas do not
  overlap, start from the newest row, and are not hydrated away (`Serial`);
* `fallback_lost`: `set_fallback` and the reload it triggers.
-/

namespace Llmops.Overlay

open Llmops.Lib

variable {R F V : Type*}

/-! ## The property -/

/-- A request that saved after request `k`, and has not failed, set the field. -/
def Overwritten (c : Fleet R F V) (k : Nat) (f : F) : Prop :=
  ∃ k' n n', (c.req k).stamp = some n ∧ (c.req k').stamp = some n' ∧ n < n' ∧
    ((c.req k').change f).isSome = true ∧ (c.req k').pc ≠ .done false

/-- The overlay has what request `k` set. -/
def Contains (c : Fleet R F V) (overlay : F → V) (k : Nat) : Prop :=
  ∀ f v, (c.req k).change f = some v → overlay f = v ∨ Overwritten c k f

/-- A request that saved and returned success. -/
def Fleet.Succeeded (c : Fleet R F V) (k : Nat) : Prop :=
  (c.req k).pc = .done true ∧ (c.req k).stamp.isSome = true

/-- The newest snapshot has what the requests set that saved and returned success, and so has the
file of their replica. -/
def NoLost (c : Fleet R F V) : Prop :=
  ∀ k, c.Succeeded k → Contains c c.newest k ∧ Contains c (c.file (c.req k).home) k

/-- A request between its load and the end of its snapshot. -/
def Request.Open (q : Request R F V) : Prop :=
  match q.pc with
  | .loaded _ _ | .ownRead _ | .ownSelect _ _ | .ownInsert _ _ | .saved _ => True
  | .read | .select _ | .insert _ => q.stamp.isSome = true
  | _ => False

/-- Exposed requests keep to one replica at a time and to the newest row.

* A request loads the file only while no request of another replica is open, and the file is the
  newest snapshot unless a request of the same replica is open.
* A hydration that changes a file writes it only while no request of that replica is open, and while
  the row that it fetched is still the newest one.
* A request that has saved does not fail, and the store answers its snapshot. If the file is by
  then as it was before the request, it is the newest snapshot.
* A snapshot is inserted only if it is still what the file says, and by a request that saved (or
  if it is what the newest one says). -/
def Serial (c : Fleet R F V) : OverlayEvent R → Prop
  | .load k =>
    (∀ k', (c.req k').Open → (c.req k').home = (c.req k).home) ∧
      (c.file (c.req k).home = c.newest ∨ ∃ k', (c.req k').Open)
  | .write i => ∀ r router overlay, c.hydrate i = some (r, router, overlay) →
      overlay = c.file r ∨ overlay = c.newest ∧ ∀ k, (c.req k).Open → (c.req k).home ≠ r
  | .respond k ok => (c.req k).stamp.isSome = true → ok = true ∧
      ∀ before, (c.req k).pc = .saved before → c.file (c.req k).home = before →
        c.file (c.req k).home = c.newest
  | .store k ok => match (c.req k).pc with
    | .ownInsert _ blob => ok = true → blob = c.newest ∨ blob = c.file (c.req k).home
    | .select _ => (c.req k).stamp.isSome = true → ok = true
    | .insert blob => ((c.req k).stamp.isSome = true → ok = true) ∧
        (ok = true → blob = c.newest ∨
          (c.req k).stamp.isSome = true ∧ blob = c.file (c.req k).home)
    | _ => True
  | _ => True

/-! ## The invariant -/

theorem Request.open_of_loaded {q : Request R F V} {before overlay : F → V}
    (h : q.pc = .loaded before overlay) : q.Open := by
  unfold Request.Open
  rw [h]
  trivial

/-- What the middleware is about to insert. -/
def ReqPc.blob : ReqPc F V → Option (F → V)
  | .select blob | .insert blob => some blob
  | _ => none

/-- A request that has not saved yet. -/
def ReqPc.early : ReqPc F V → Bool
  | .idle | .body _ | .loaded _ _ => true
  | _ => false

structure Inv (c : Fleet R F V) : Prop where
  done : NoLost c
  file : ∀ k, (c.req k).Open → ∀ k', (c.req k').stamp.isSome = true →
    Contains c (c.file (c.req k).home) k'
  one : ∀ k k', (c.req k).Open → (c.req k').Open → (c.req k).home = (c.req k').home
  blob : ∀ k blob, (c.req k).pc.blob = some blob → (c.req k).stamp.isSome = true →
    Contains c blob k
  loaded : ∀ k before overlay, (c.req k).pc = .loaded before overlay →
    overlay = c.file (c.req k).home ∧ c.running (c.req k).home = some k
  early : ∀ k, (c.req k).pc.early = true → (c.req k).stamp = none
  kept : ∀ k, (c.req k).stamp.isSome = true → (c.req k).pc = .done true ∨ (c.req k).Open
  stamps : ∀ k n, (c.req k).stamp = some n → n < c.clock

variable {c c' : Fleet R F V} {k k' : Nat} {q : Request R F V} {overlay : F → V}

/-- Nothing that counted stops counting. -/
structure Grows (c c' : Fleet R F V) : Prop where
  change : ∀ k, (c'.req k).change = (c.req k).change
  stamp : ∀ k n, (c.req k).stamp = some n → (c'.req k).stamp = some n
  kept : ∀ k, (c.req k).stamp.isSome = true → (c.req k).pc ≠ .done false →
    (c'.req k).pc ≠ .done false

theorem Contains.mono (hg : Grows c c') (h : Contains c overlay k) : Contains c' overlay k := by
  intro f v hf
  rw [hg.change] at hf
  rcases h f v hf with hv | ⟨k', n, n', hn, hn', hlt, hch, hok⟩
  · exact .inl hv
  · refine .inr ⟨k', n, n', hg.stamp k n hn, hg.stamp k' n' hn', hlt, ?_, hg.kept k' ?_ hok⟩
    · rw [hg.change]; exact hch
    · rw [hn']; rfl

/-- Request `k` at `pc`. -/
def Request.at (q : Request R F V) (pc : ReqPc F V) : Request R F V := { q with pc := pc }

/-- What a request may count on when it goes on at `pc`. -/
structure Turn (c : Fleet R F V) (k : Nat) (pc : ReqPc F V) : Prop where
  done : pc = .done true → (c.req k).stamp.isSome = true →
    Contains c c.newest k ∧ Contains c (c.file (c.req k).home) k
  failed : pc = .done false → (c.req k).stamp = none
  one : ((c.req k).at pc).Open → ∀ k', (c.req k').Open → (c.req k').home = (c.req k).home
  file : ((c.req k).at pc).Open → ∀ k', (c.req k').stamp.isSome = true →
    Contains c (c.file (c.req k).home) k'
  blob : ∀ blob, pc.blob = some blob → (c.req k).stamp.isSome = true → Contains c blob k
  early : pc.early = true → (c.req k).stamp = none
  kept : (c.req k).stamp.isSome = true → pc = .done true ∨ ((c.req k).at pc).Open

/-- An open request goes on, and stays open or does not count on anything. -/
theorem Turn.of_open (inv : Inv c) {pc : ReqPc F V} (hopen : (c.req k).Open)
    (hdone : ∀ ok, pc ≠ .done ok) (hblob : pc.blob = none) (hearly : pc.early = false)
    (hkept : (c.req k).stamp.isSome = true → ((c.req k).at pc).Open) : Turn c k pc where
  done h := absurd h (hdone true)
  failed h := absurd h (hdone false)
  one _ k' hk' := inv.one k' k hk' hopen
  file _ := inv.file k hopen
  blob _ h := absurd (hblob.symm.trans h) nofun
  early h := absurd (hearly.symm.trans h) nofun
  kept h := .inr (hkept h)

theorem grows_goto {pc : ReqPc F V} (hreq : c'.req = (c.goto k pc).req)
    (hfailed : pc = .done false → (c.req k).stamp = none) : Grows c c' := by
  have req : ∀ j, c'.req j = if j = k then (c.req k).at pc else c.req j := fun j => by
    rw [hreq]
    exact Function.update_apply ..
  refine ⟨fun j => ?_, fun j n hn => ?_, fun j hs hok => ?_⟩ <;> rw [req] <;> split_ifs with hj
  · rw [hj]; rfl
  · rfl
  · rw [hj] at hn; exact hn
  · exact hn
  · intro hfail
    rw [hj, hfailed hfail] at hs
    cases hs
  · exact hok

theorem grows_same (hreq : c'.req = c.req) : Grows c c' := by
  refine ⟨fun j => ?_, fun j n hn => ?_, fun j _ hok => ?_⟩ <;> rw [hreq]
  · exact hn
  · exact hok

/-- **A request goes on**: neither a file nor the newest snapshot changes. -/
theorem Inv.goto (inv : Inv c) {pc : ReqPc F V} (ht : Turn c k pc) {running : R → Option Nat}
    (hloaded : ∀ before overlay, pc = .loaded before overlay →
      overlay = c.file (c.req k).home ∧ running (c.req k).home = some k)
    (hrun : ∀ j, j ≠ k → ∀ before overlay, (c.req j).pc = .loaded before overlay →
      running (c.req j).home = c.running (c.req j).home) :
    Inv { c.goto k pc with running := running } := by
  have req : ∀ j, (({ c.goto k pc with running := running } : Fleet R F V).req j) =
      if j = k then (c.req k).at pc else c.req j := fun j => Function.update_apply ..
  have hg : Grows c { c.goto k pc with running := running } := grows_goto rfl ht.failed
  refine ⟨fun j hsucc => ?_, fun j hj j' hs => ?_, fun j j' hj hj' => ?_, fun j b hb hs => ?_,
    fun j b o hp => ?_, fun j he => ?_, fun j hs => ?_, fun j n hn => ?_⟩
  · obtain ⟨hp, hs⟩ := hsucc
    rw [req] at hp hs ⊢
    split_ifs at hp hs ⊢ with hjk
    · obtain ⟨hnew, hfile⟩ := ht.done hp hs
      rw [hjk]
      exact ⟨hnew.mono hg, hfile.mono hg⟩
    · exact ⟨(inv.done j ⟨hp, hs⟩).1.mono hg, (inv.done j ⟨hp, hs⟩).2.mono hg⟩
  · rw [req] at hj hs ⊢
    have hs' : (c.req j').stamp.isSome = true := by
      split_ifs at hs with hjk
      · rw [hjk]; exact hs
      · exact hs
    split_ifs at hj ⊢ with hjk
    · exact (ht.file hj j' hs').mono hg
    · exact (inv.file j hj j' hs').mono hg
  · rw [req] at hj hj' ⊢
    rw [req]
    split_ifs at hj hj' ⊢
    · rfl
    · exact (ht.one hj j' hj').symm
    · exact ht.one hj' j hj
    · exact inv.one j j' hj hj'
  · rw [req] at hb hs
    split_ifs at hb hs with hjk
    · exact (hjk ▸ ht.blob b hb hs).mono hg
    · exact (inv.blob j b hb hs).mono hg
  · rw [req] at hp ⊢
    split_ifs at hp ⊢ with hjk
    · obtain ⟨ho, hr⟩ := hloaded b o hp
      rw [hjk]
      exact ⟨ho, hr⟩
    · obtain ⟨ho, hr⟩ := inv.loaded j b o hp
      exact ⟨ho, (hrun j hjk b o hp).trans hr⟩
  · rw [req] at he ⊢
    split_ifs at he ⊢ with hjk
    · exact ht.early he
    · exact inv.early j he
  · rw [req] at hs ⊢
    split_ifs at hs ⊢ with hjk
    · exact ht.kept hs
    · exact inv.kept j hs
  · rw [req] at hn
    split_ifs at hn with hjk
    · exact inv.stamps k n hn
    · exact inv.stamps j n hn

/-- A snapshot that has what every request set that saved. -/
theorem Inv.insert (inv : Inv c) {blob : F → V}
    (hblob : ∀ k, (c.req k).stamp.isSome = true → Contains c blob k) :
    Inv { c with newest := blob } :=
  ⟨fun k hk => ⟨hblob k hk.2, (inv.done k hk).2⟩, inv.file, inv.one, inv.blob, inv.loaded,
    inv.early, inv.kept, inv.stamps⟩

/-- What an open request set is in its file. -/
theorem Inv.own (inv : Inv c) (hopen : (c.req k).Open) (hs : (c.req k).stamp.isSome = true) :
    Contains c (c.file (c.req k).home) k := inv.file k hopen k hs

/-- A request that has not saved counts on nothing. -/
theorem Turn.of_unsaved {pc : ReqPc F V} (hs : (c.req k).stamp = none)
    (hopen : ¬ ((c.req k).at pc).Open) : Turn c k pc where
  done _ h := by rw [hs] at h; cases h
  failed _ := hs
  one h := absurd h hopen
  file h := absurd h hopen
  blob _ _ h := by rw [hs] at h; cases h
  early _ := hs
  kept h := by rw [hs] at h; cases h

theorem Inv.stay (inv : Inv c) {pc : ReqPc F V} (ht : Turn c k pc)
    (hpc : ∀ before overlay, pc ≠ .loaded before overlay) : Inv (c.goto k pc) :=
  inv.goto ht (fun before overlay h => absurd h (hpc before overlay)) fun _ _ _ _ _ => rfl

/-- The load: the file has what every request set that saved. -/
theorem Turn.of_load (inv : Inv c) (hs : (c.req k).stamp = none) {before : F → V}
    (hG : Serial c (.load k)) : Turn c k (.loaded before (c.file (c.req k).home)) where
  done h := nomatch h
  failed h := nomatch h
  one _ := hG.1
  file _ j hj := by
    by_cases hopen : ∃ j, (c.req j).Open
    · obtain ⟨j', hj'⟩ := hopen
      rw [← hG.1 j' hj']
      exact inv.file j' hj' j hj
    · rw [hG.2.resolve_right hopen]
      exact (inv.done j ⟨(inv.kept j hj).resolve_right fun ho => hopen ⟨j, ho⟩, hj⟩).1
  blob _ h := nomatch h
  early _ := hs
  kept h := by rw [hs] at h; cases h

section Files

variable [DecidableEq R]

/-- A file that no open request counts on is overwritten. -/
theorem Inv.setFile (inv : Inv c) {r : R}
    (hr : overlay = c.file r ∨ overlay = c.newest ∧ ∀ k, (c.req k).Open → (c.req k).home ≠ r) :
    Inv (c.setFile r overlay) := by
  rcases hr with rfl | ⟨hnew, hr⟩
  · rw [Fleet.setFile, Function.update_eq_self]
    exact inv
  · have other : ∀ k, (c.req k).Open →
        (c.setFile r overlay).file (c.req k).home = c.file (c.req k).home := fun k hk =>
      Function.update_of_ne (hr k hk) ..
    refine ⟨fun k hk => ⟨(inv.done k hk).1, ?_⟩, fun k hk k' hk' => ?_, inv.one, inv.blob,
      fun k b o hp => ?_, inv.early, inv.kept, inv.stamps⟩
    · show Contains c ((c.setFile r overlay).file (c.req k).home) k
      rcases eq_or_ne (c.req k).home r with hhome | hhome
      · rw [hhome, show (c.setFile r overlay).file r = overlay from Function.update_self .., hnew]
        exact (inv.done k hk).1
      · rw [show (c.setFile r overlay).file (c.req k).home = c.file (c.req k).home from
          Function.update_of_ne hhome ..]
        exact (inv.done k hk).2
    · show Contains c ((c.setFile r overlay).file (c.req k).home) k'
      rw [other k hk]
      exact inv.file k hk k' hk'
    · show o = (c.setFile r overlay).file (c.req k).home ∧ _
      rw [other k (Request.open_of_loaded hp)]
      exact inv.loaded k b o hp

/-- Request `k` has saved what it made of the overlay. -/
def Fleet.saved (c : Fleet R F V) (k : Nat) (pc : ReqPc F V) (overlay : F → V) : Fleet R F V :=
  { c with
    file := Function.update c.file (c.req k).home ((c.req k).change.apply overlay)
    running := Function.update c.running (c.req k).home none
    req := Function.update c.req k { c.req k with pc := pc, stamp := some c.clock }
    clock := c.clock + 1 }

theorem grows_saved {pc : ReqPc F V} (hfresh : (c.req k).stamp = none) :
    Grows c (c.saved k pc overlay) := by
  refine ⟨fun j => ?_, fun j n hn => ?_, fun j hs hok => ?_⟩ <;>
    rcases eq_or_ne j k with rfl | hj <;> unfold Fleet.saved <;> dsimp only
  · rw [Function.update_self]
  · rw [Function.update_of_ne hj]
  · rw [hfresh] at hn; cases hn
  · rw [Function.update_of_ne hj]; exact hn
  · rw [hfresh] at hs; cases hs
  · rw [Function.update_of_ne hj]; exact hok

/-- What was in the overlay stays there, or is set anew by the request that saves. -/
theorem contains_saved (inv : Inv c) {pc : ReqPc F V} (hfresh : (c.req k).stamp = none)
    (hpc : pc ≠ .done false) (hs : (c.req k').stamp.isSome = true) (h : Contains c overlay k') :
    Contains (c.saved k pc overlay) ((c.req k).change.apply overlay) k' := by
  have hg : Grows c (c.saved k pc overlay) := grows_saved hfresh
  have self : (c.saved k pc overlay).req k = { c.req k with pc := pc, stamp := some c.clock } :=
    Function.update_self ..
  intro f v hf
  have hold := h.mono hg f v hf
  cases hch : (c.req k).change f with
  | none => simpa only [Change.apply, hch, Option.getD_none] using hold
  | some u =>
    obtain ⟨n, hn⟩ := Option.isSome_iff_exists.mp hs
    refine .inr ⟨k, n, c.clock, hg.stamp k' n hn, by rw [self], inv.stamps k' n hn, ?_, ?_⟩
    · rw [self, hch]; rfl
    · rw [self]; exact hpc

/-- **A save** keeps in the file what the requests set before it, except where it sets the field
anew. -/
theorem Inv.save (inv : Inv c) {before : F → V} {pc : ReqPc F V}
    (hpc : (c.req k).pc = .loaded before overlay)
    (hpc' : pc = .ownRead before ∨ pc = .saved before) : Inv (c.saved k pc overlay) := by
  set c' : Fleet R F V := c.saved k pc overlay with hc'
  have hopen : (c.req k).Open := Request.open_of_loaded hpc
  obtain ⟨hover, hrun⟩ := inv.loaded k before overlay hpc
  have hfresh : (c.req k).stamp = none := inv.early k (by rw [hpc]; rfl)
  have self : c'.req k = { c.req k with pc := pc, stamp := some c.clock } :=
    Function.update_self ..
  have other : ∀ j, j ≠ k → c'.req j = c.req j := fun j hj => Function.update_of_ne hj ..
  have hg : Grows c c' := grows_saved hfresh
  have hnew : ∀ j, (c'.req j).stamp.isSome = true →
      Contains c' ((c.req k).change.apply overlay) j := by
    intro j hs
    rcases eq_or_ne j k with rfl | hj
    · intro f v hf
      rw [self] at hf
      exact .inl (by simp only [Change.apply, show (c.req j).change f = some v from hf,
        Option.getD_some])
    · rw [other j hj] at hs
      refine contains_saved inv hfresh ?_ hs ?_
      · rcases hpc' with rfl | rfl <;> nofun
      · rw [hover]
        exact inv.file k hopen j hs
  have hhome : ∀ j, (c'.req j).Open → (c'.req j).home = (c.req k).home := by
    intro j hj
    rcases eq_or_ne j k with rfl | hne
    · rw [self]
    · rw [other j hne] at hj ⊢
      exact inv.one j k hj hopen
  refine ⟨fun j hsucc => ?_, fun j hj j' hs => ?_, fun j j' hj hj' => ?_, fun j b hb hs => ?_,
    fun j b o hp => ?_, fun j he => ?_, fun j hs => ?_, fun j n hn => ?_⟩
  · obtain ⟨hp, hs⟩ := hsucc
    rcases eq_or_ne j k with rfl | hj
    · rw [self] at hp
      rcases hpc' with rfl | rfl <;> cases hp
    · have hs' := hs
      rw [other j hj] at hp hs ⊢
      refine ⟨(inv.done j ⟨hp, hs⟩).1.mono hg, ?_⟩
      rcases eq_or_ne (c.req j).home (c.req k).home with hhome | hhome
      · rw [hhome, show c'.file (c.req k).home = (c.req k).change.apply overlay from
          Function.update_self ..]
        exact hnew j hs'
      · rw [show c'.file (c.req j).home = c.file (c.req j).home from Function.update_of_ne hhome ..]
        exact (inv.done j ⟨hp, hs⟩).2.mono hg
  · rw [hhome j hj, show c'.file (c.req k).home = (c.req k).change.apply overlay from
      Function.update_self ..]
    exact hnew j' hs
  · rw [hhome j hj, hhome j' hj']
  · rcases eq_or_ne j k with rfl | hj
    · rw [self] at hb
      rcases hpc' with rfl | rfl <;> cases hb
    · rw [other j hj] at hb hs
      exact (inv.blob j b hb hs).mono hg
  · rcases eq_or_ne j k with rfl | hj
    · rw [self] at hp
      rcases hpc' with rfl | rfl <;> cases hp
    · rw [other j hj] at hp
      have hsame := inv.one j k (Request.open_of_loaded hp) hopen
      have hown := (inv.loaded j b o hp).2
      rw [hsame, hrun] at hown
      exact absurd (Option.some.inj hown).symm hj
  · rcases eq_or_ne j k with rfl | hj
    · rw [self] at he
      rcases hpc' with rfl | rfl <;> cases he
    · rw [other j hj] at he ⊢
      exact inv.early j he
  · rcases eq_or_ne j k with rfl | hj
    · rw [self]
      rcases hpc' with rfl | rfl <;> exact .inr trivial
    · rw [other j hj] at hs ⊢
      exact inv.kept j hs
  · rcases eq_or_ne j k with rfl | hj
    · rw [self] at hn
      cases hn
      exact Nat.lt_succ_self _
    · rw [other j hj] at hn
      exact Nat.lt_succ_of_lt (inv.stamps j n hn)

end Files

section Steps

variable [DecidableEq R] [DecidableEq (F → V)]

/-- The end of the handler. -/
theorem Inv.respond (inv : Inv c) {ok : Bool} (hG : Serial c (.respond k ok))
    (h : respondStep c k ok = some c') : Inv c' := by
  cases hpc : (c.req k).pc <;> simp only [respondStep, hpc, reduceCtorEq] at h
  case body before =>
    have hs : (c.req k).stamp = none := inv.early k (by rw [hpc]; rfl)
    split_ifs at h
    all_goals
      cases h
      refine inv.stay (.of_unsaved hs ?_) nofun
      simp [Request.at, Request.Open, hs]
  case saved before =>
    have hopen : (c.req k).Open := by
      unfold Request.Open
      rw [hpc]
      trivial
    by_cases hs : (c.req k).stamp.isSome = true
    · obtain ⟨rfl, hnewest⟩ := hG hs
      simp only [if_true] at h
      split_ifs at h with hrun hsame
      · cases h
        refine inv.stay ?_ nofun
        refine ⟨fun _ hs => ⟨?_, inv.own hopen hs⟩, nofun, fun ho => ho.elim, fun ho => ho.elim,
          nofun, nofun, fun _ => .inl rfl⟩
        rw [← hnewest before hpc hsame]
        exact inv.own hopen hs
      · cases h
        exact inv.stay (.of_open inv hopen nofun rfl rfl id) nofun
    · have hs : (c.req k).stamp = none := Option.not_isSome_iff_eq_none.mp hs
      split_ifs at h
      all_goals
        cases h
        refine inv.stay (.of_unsaved hs ?_) nofun
        simp [Request.at, Request.Open, hs]
  case loaded before overlay =>
    have hs : (c.req k).stamp = none := inv.early k (by rw [hpc]; rfl)
    have hrun := (inv.loaded k before overlay hpc).2
    split_ifs at h
    cases h
    refine inv.goto (.of_unsaved hs id) nofun fun j hj b o hp => ?_
    refine Function.update_of_ne (fun hsame => hj ?_) ..
    have hown := (inv.loaded j b o hp).2
    rw [hsame, hrun] at hown
    exact (Option.some.inj hown).symm

omit [DecidableEq R] [DecidableEq (F → V)] in
/-- What is inserted is the newest row already, or the file of an open request. -/
theorem Inv.commit (inv : Inv c) {blob : F → V}
    (hblob : blob = c.newest ∨ (c.req k).Open ∧ blob = c.file (c.req k).home) :
    Inv { c with newest := blob } := by
  rcases hblob with rfl | ⟨hopen, rfl⟩
  · exact inv
  · exact inv.insert (inv.file k hopen)

omit [DecidableEq R] [DecidableEq (F → V)] in
/-- A snapshot that is in the newest row, or about to be, has what its request set. -/
theorem Turn.of_snapshot (inv : Inv c) {pc : ReqPc F V} {blob : F → V}
    (hblob : (c.req k).pc.blob = some blob)
    (hpc : pc = .insert blob ∨ pc = .done true ∧
      ((c.req k).stamp.isSome = true → Contains c c.newest k)) : Turn c k pc := by
  have hopen : (c.req k).stamp.isSome = true → (c.req k).Open := fun hs => by
    cases hp : (c.req k).pc <;> simp_all [ReqPc.blob, Request.Open]
  rcases hpc with rfl | ⟨rfl, hdone⟩
  · refine ⟨nofun, nofun, fun ho => ?_, fun ho => ?_, fun b hb hs => ?_, nofun, fun hs => .inr hs⟩
    · exact fun k' hk' => inv.one k' k hk' (hopen ho)
    · exact inv.file k (hopen ho)
    · cases hb
      exact inv.blob k blob hblob hs
  · exact ⟨fun _ hs => ⟨hdone hs, inv.own (hopen hs) hs⟩, nofun, fun ho => ho.elim,
      fun ho => ho.elim, nofun, nofun, fun _ => .inl rfl⟩

omit [DecidableEq R] in
/-- The end of an await of the store. -/
theorem Inv.store (inv : Inv c) {ok : Bool} (hG : Serial c (.store k ok))
    (h : storeStep c k ok = some c') : Inv c' := by
  have isOpen : ∀ pc, (c.req k).pc = pc → ((c.req k).at pc).Open → (c.req k).Open := by
    intro pc hpc ho
    rw [← hpc] at ho
    exact ho
  cases hpc : (c.req k).pc <;> simp only [storeStep, hpc, reduceCtorEq] at h
  all_goals
    simp only [Serial, hpc] at hG
    cases h
  case ownSelect before blob =>
    have hopen := isOpen _ hpc trivial
    split_ifs
    · exact inv.stay (.of_open inv hopen nofun rfl rfl fun _ => trivial) nofun
    · exact inv.stay (.of_open inv hopen nofun rfl rfl fun _ => trivial) nofun
  case ownInsert before blob =>
    have hopen := isOpen _ hpc trivial
    cases ok with
    | false => exact inv.stay (.of_open inv hopen nofun rfl rfl fun _ => trivial) nofun
    | true =>
      have inv' := inv.commit ((hG rfl).imp_right fun hfile => ⟨hopen, hfile⟩)
      exact inv'.stay (.of_open inv' hopen nofun rfl rfl fun _ => trivial) nofun
  case select blob =>
    have hblob : (c.req k).pc.blob = some blob := by rw [hpc]; rfl
    split_ifs with hins
    · exact inv.stay (.of_snapshot inv hblob (.inl rfl)) nofun
    · refine inv.stay (.of_snapshot inv hblob (.inr ⟨rfl, fun hs => ?_⟩)) nofun
      have hsame : c.newest = blob := by
        by_contra hne
        exact hins ⟨hG hs, hne⟩
      rw [hsame]
      exact inv.blob k blob hblob hs
  case insert blob =>
    have hblob : (c.req k).pc.blob = some blob := by rw [hpc]; rfl
    cases ok with
    | false =>
      refine inv.stay (.of_snapshot inv hblob (.inr ⟨rfl, fun hs => ?_⟩)) nofun
      exact absurd (hG.1 hs) nofun
    | true =>
      have inv' := inv.commit ((hG.2 rfl).imp_right fun ⟨hs, hfile⟩ => ⟨isOpen _ hpc hs, hfile⟩)
      exact inv'.stay (.of_snapshot inv' hblob (.inr ⟨rfl, inv.blob k blob hblob⟩)) nofun

/-- **Every event keeps the invariant.** -/
theorem Inv.step (inv : Inv c) {e : OverlayEvent R} (hG : Serial c e)
    (h : step c e = some c') : Inv c' := by
  cases e with
  | begin k =>
    simp only [Overlay.step] at h
    split at h
    · rename_i hpc
      have hs : (c.req k).stamp = none := inv.early k (by rw [hpc]; rfl)
      split_ifs at h
      cases h
      exact inv.stay (.of_unsaved hs id) nofun
    · cases h
  | load k =>
    simp only [Overlay.step] at h
    split at h
    · rename_i before hpc
      have hs : (c.req k).stamp = none := inv.early k (by rw [hpc]; rfl)
      split_ifs at h with hfree
      cases h
      refine inv.goto (.of_load inv hs hG) (fun b o hbo => ?_) fun j _ b o hp => ?_
      · cases hbo
        exact ⟨rfl, Function.update_self ..⟩
      · refine Function.update_of_ne (fun hsame => ?_) ..
        have hown := (inv.loaded j b o hp).2
        rw [hsame, hfree] at hown
        cases hown
    · cases h
  | save k =>
    simp only [Overlay.step] at h
    split at h
    · rename_i before overlay hpc
      cases h
      refine inv.save hpc ?_
      split_ifs
      · exact .inl rfl
      · exact .inr rfl
    · cases h
  | read k =>
    simp only [Overlay.step] at h
    split at h
    · rename_i before hpc
      have hopen : (c.req k).Open := by
        unfold Request.Open
        rw [hpc]
        trivial
      cases h
      exact inv.stay (.of_open inv hopen nofun rfl rfl fun _ => trivial) nofun
    · rename_i hpc
      have hopen : (c.req k).stamp.isSome = true → (c.req k).Open := fun hs => by
        unfold Request.Open
        rw [hpc]
        exact hs
      cases h
      refine inv.stay ⟨nofun, nofun, fun ho => ?_, fun ho => ?_, fun b hb hs => ?_, nofun,
        fun hs => .inr hs⟩ nofun
      · exact fun k' hk' => inv.one k' k hk' (hopen ho)
      · exact inv.file k (hopen ho)
      · cases hb
        exact inv.own (hopen hs) hs
    · cases h
  | respond k ok => exact inv.respond hG h
  | store k ok => exact inv.store hG h
  | fetch i r router =>
    cases h
    exact ⟨inv.done, inv.file, inv.one, inv.blob, inv.loaded, inv.early, inv.kept, inv.stamps⟩
  | write i =>
    simp only [Overlay.step] at h
    split at h
    · cases h
    · rename_i r router overlay hw
      split_ifs at h
      cases h
      refine Inv.setFile ?_ (hG r router overlay hw)
      exact ⟨inv.done, inv.file, inv.one, inv.blob, inv.loaded, inv.early, inv.kept, inv.stamps⟩

/-! ## What stays in the files -/

/-- A request that is over does not move. -/
theorem req_of_done {e : OverlayEvent R} {ok : Bool} (h : step c e = some c')
    (hk : (c.req k).pc = .done ok) : c'.req k = c.req k := by
  have away (j : Nat) (pc : ReqPc F V) (hj : (c.req j).pc ≠ .done ok) :
      (c.goto j pc).req k = c.req k := by
    refine Function.update_of_ne (fun hkj => hj ?_) ..
    rw [← hkj]
    exact hk
  cases e with
  | begin j =>
    simp only [Overlay.step] at h
    split at h
    · rename_i hpc
      split_ifs at h
      cases h
      exact away j _ (by rw [hpc]; nofun)
    · cases h
  | load j =>
    simp only [Overlay.step] at h
    split at h
    · rename_i hpc
      split_ifs at h
      cases h
      exact away j _ (by rw [hpc]; nofun)
    · cases h
  | save j =>
    simp only [Overlay.step] at h
    split at h
    · rename_i hpc
      cases h
      refine Function.update_of_ne (fun hkj => ?_) ..
      rw [hkj, hpc] at hk
      cases hk
    · cases h
  | read j =>
    simp only [Overlay.step] at h
    split at h
    · rename_i hpc
      cases h
      exact away j _ (by rw [hpc]; nofun)
    · rename_i hpc
      cases h
      exact away j _ (by rw [hpc]; nofun)
    · cases h
  | respond j ok' =>
    cases hpc : (c.req j).pc <;> simp only [Overlay.step, respondStep, hpc, reduceCtorEq] at h
    all_goals
      split_ifs at h <;> cases h <;> exact away j _ (by rw [hpc]; nofun)
  | store j ok' =>
    cases hpc : (c.req j).pc <;> simp only [Overlay.step, storeStep, hpc, reduceCtorEq] at h
    all_goals
      cases h
      try split_ifs
      all_goals exact away j _ (by rw [hpc]; nofun)
  | fetch i r router =>
    cases h
    rfl
  | write i =>
    simp only [Overlay.step] at h
    split at h
    · cases h
    · split_ifs at h
      cases h
      rfl

theorem Fleet.Succeeded.step {e : OverlayEvent R} (hk : c.Succeeded k) (h : step c e = some c') :
    c'.Succeeded k := by
  unfold Succeeded
  rw [req_of_done h hk.1]
  exact hk

/-- Nothing that counted stops counting. -/
theorem Inv.grows (inv : Inv c) {e : OverlayEvent R} (hG : Serial c e)
    (h : Overlay.step c e = some c') : Grows c c' := by
  cases e with
  | begin j =>
    simp only [Overlay.step] at h
    split at h
    · split_ifs at h
      cases h
      exact grows_goto rfl nofun
    · cases h
  | load j =>
    simp only [Overlay.step] at h
    split at h
    · split_ifs at h
      cases h
      exact grows_goto rfl nofun
    · cases h
  | save j =>
    simp only [Overlay.step] at h
    split at h
    · rename_i hpc
      cases h
      exact grows_saved (inv.early j (by rw [hpc]; rfl))
    · cases h
  | read j =>
    simp only [Overlay.step] at h
    split at h
    · cases h
      exact grows_goto rfl nofun
    · cases h
      exact grows_goto rfl nofun
    · cases h
  | respond j ok =>
    -- only a request that has not saved may fail
    have hfailed (hok : ¬ ok = true) : (c.req j).stamp = none := by
      by_contra hs
      exact hok (hG (Option.isSome_iff_ne_none.mpr hs)).1
    cases hpc : (c.req j).pc <;> simp only [Overlay.step, respondStep, hpc, reduceCtorEq] at h
    case body before =>
      split_ifs at h with hrun hok
      all_goals cases h
      · exact grows_goto rfl nofun
      · exact grows_goto rfl nofun
      · exact grows_goto rfl fun _ => hfailed hok
    case saved before =>
      split_ifs at h with hrun hok
      all_goals cases h
      · exact grows_goto rfl nofun
      · exact grows_goto rfl nofun
      · exact grows_goto rfl fun _ => hfailed hok
    case loaded before overlay =>
      split_ifs at h
      cases h
      exact grows_goto rfl fun _ => inv.early j (by rw [hpc]; rfl)
  | store j ok =>
    cases hpc : (c.req j).pc <;> simp only [Overlay.step, storeStep, hpc, reduceCtorEq] at h
    all_goals
      cases h
      try split_ifs
      all_goals exact grows_goto rfl nofun
  | fetch i r router =>
    cases h
    exact grows_same rfl
  | write i =>
    simp only [Overlay.step] at h
    split at h
    · cases h
    · split_ifs at h
      cases h
      exact grows_same rfl

/-- No request has begun. -/
def Boot (c : Fleet R F V) : Prop := ∀ k, (c.req k).pc = .idle ∧ (c.req k).stamp = none

omit [DecidableEq R] [DecidableEq (F → V)] in
theorem Boot.inv (hboot : Boot c) : Inv c := by
  have closed : ∀ k, ¬ (c.req k).Open := fun k ho => by
    unfold Request.Open at ho
    rw [(hboot k).1] at ho
    exact ho
  refine ⟨fun k hk => ?_, fun k ho => absurd ho (closed k), fun k _ ho => absurd ho (closed k),
    fun k b hb => ?_, fun k b o hp => ?_, fun k _ => (hboot k).2, fun k hs => ?_, fun k n hn => ?_⟩
  · exact nomatch (hboot k).1.symm.trans hk.1
  · rw [(hboot k).1] at hb; cases hb
  · exact nomatch (hboot k).1.symm.trans hp
  · rw [(hboot k).2] at hs; cases hs
  · exact nomatch (hboot k).2.symm.trans hn

end Steps

/-! ## A reload clobbers an edit -/

/-- A request on its own, up to its snapshot. -/
def snapshots : List (OverlayEvent Unit) :=
  [.begin 0, .load 0, .save 0, .respond 0 true, .read 0, .store 0 true, .store 0 true]

/-- `set_fallback` saves and awaits the reload of the router, which overwrites the file with the
newest snapshot; then the middleware sees no change. -/
def fallback : List (OverlayEvent Unit) :=
  [.begin 0, .load 0, .save 0, .fetch 0 () true, .write 0, .respond 0 true]

end Llmops.Overlay
