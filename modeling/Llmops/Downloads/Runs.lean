import Llmops.Downloads.Manager

/-!
# Runs of a download manager

Requests start downloads, tasks go on and pollers measure, in any order. `Move` is what one event can
do to the flights of a manager, and the invariants are derived from it.

* `single_flight`: a key has a task exactly while its last job is in flight, and no two jobs of a key
  are in flight at once;
* `ended_stays`: a job that has ended is never written to again, but for the end of its warming;
* `sizes_of_ended`: what the last measurement leaves;
* `own_steps_le`: a download is at its end after at most four steps of its own, whatever runs
  between them;
* `lora_folders`: two adapters in flight have different folders, each right under the root.
-/

namespace Llmops.Downloads

open Llmops.Lib

variable {ρ : Type*} {member : Member ρ} {m m' : Manager} {t t' : Task} {i j : Nat}

/-! ## What is true of one task -/

/-- The job is in the state that its task says. -/
def Task.Fits (member : Member ρ) (t : Task) : Prop :=
  match t.phase with
  | .created => t.job.state = .pending ∧ t.job.error = none ∧ t.job.warming = false
  | .ended =>
    (t.job.state = .completed ∧ t.job.error = none ∧
        (∀ total ∈ t.job.totalBytes, total ≠ 0 → t.job.downloadedBytes ≤ total) ∧
        (t.job.warming = true → member.warms t.job.key = true)) ∨
      (t.job.state = .failed ∧ t.job.error.isSome ∧ t.job.warming = false)
  | _ => t.job.state = .downloading ∧ t.job.error = none ∧ t.job.warming = false

theorem Task.Fits.inFlight_iff (h : t.Fits member) : t.inFlight = true ↔ t.phase ≠ .ended := by
  unfold Task.Fits at h
  unfold Task.inFlight
  cases hphase : t.phase <;> rw [hphase] at h
  case ended => rcases h with h | h <;> simp [h.1]
  all_goals simp [h.1]

/-- Everything of a job but `warming` and `updated_at`. -/
structure Task.Same (t t' : Task) : Prop where
  key : t'.job.key = t.job.key
  source : t'.job.source = t.job.source
  state : t'.job.state = t.job.state
  totalBytes : t'.job.totalBytes = t.job.totalBytes
  downloadedBytes : t'.job.downloadedBytes = t.job.downloadedBytes
  error : t'.job.error = t.job.error
  startedAt : t'.job.startedAt = t.job.startedAt
  phase : t'.phase = t.phase

theorem Task.Same.refl (t : Task) : t.Same t := by constructor <;> rfl

theorem Task.Same.trans {u : Task} (h : t.Same t') (h' : t'.Same u) : t.Same u where
  key := h'.key.trans h.key
  source := h'.source.trans h.source
  state := h'.state.trans h.state
  totalBytes := h'.totalBytes.trans h.totalBytes
  downloadedBytes := h'.downloadedBytes.trans h.downloadedBytes
  error := h'.error.trans h.error
  startedAt := h'.startedAt.trans h.startedAt
  phase := h'.phase.trans h.phase

/-- The steps of its own that a task still has at most. -/
def Phase.left : Phase → Nat
  | .created => 4
  | .sizing => 3
  | .fetching => 2
  | .measuring => 1
  | .ended => 0

/-- The event is a step of the task of object `i`. -/
def Event.owns (i : Nat) : Event ρ → Bool
  | .begin j => i = j
  | .sized j _ => i = j
  | .fetched j _ => i = j
  | .measured j _ => i = j
  | _ => false

/-! ## What one event can do -/

/-- A write to a task, by an event that is a step of its own or is not. -/
structure Task.Write (member : Member ρ) (own : Bool) (t t' : Task) : Prop where
  key : t'.key = t.key
  fits : t.Fits member → t'.Fits member
  left : own.toNat + t'.phase.left ≤ t.phase.left
  same : t.phase = .ended → t.Same t'

/-- What an event can do to the flights of a manager. -/
inductive Move (member : Member ρ) (m : Manager) (e : Event ρ) : Flights Task → Prop
  | stay (hown : ∀ i, e.owns i = false) : Move member m e m.flights
  | launch (job : DownloadJob) (hown : ∀ i, e.owns i = false)
      (hargs : ∃ args source, member.request args = .ok (job.key, source))
      (hfree : ∀ t, m.flights.last job.key = some t → t.inFlight = false)
      (hfits : Task.Fits member { job := job }) :
      Move member m e (m.flights.launch Task.key { job := job })
  | update (i : Nat) (t t' : Task) (hi : m.flights.objects[i]? = some t)
      (hown : ∀ j, e.owns j = true → j = i) (hwrite : t.Write member (e.owns i) t')
      (hend : t.phase = .ended ↔ t'.phase = .ended) :
      Move member m e (m.flights.update i t')
  | land (i : Nat) (t t' : Task) (hi : m.flights.objects[i]? = some t)
      (hown : ∀ j, e.owns j = true → j = i) (hwrite : t.Write member (e.owns i) t')
      (hrun : t.phase ≠ .ended) (hend : t'.phase = .ended) :
      Move member m e (m.flights.land Task.key i t')

theorem move_start {key source : String} {args : ρ} (hargs : member.request args = .ok (key, source))
    {e : Event ρ} (hown : ∀ i, e.owns i = false) : Move member m e (m.start key source).flights := by
  have hlaunch (hfree : ∀ t, m.flights.last key = some t → t.inFlight = false) :
      Move member m e (m.launch key source).flights :=
    .launch _ hown ⟨args, source, hargs⟩ hfree ⟨rfl, rfl, rfl⟩
  unfold Manager.start
  cases hlast : m.flights.last key with
  | none => exact hlaunch fun t ht => by rw [hlast] at ht; cases ht
  | some existing =>
    simp only
    split_ifs with hflight
    · exact .stay hown
    · refine hlaunch fun t ht => ?_
      rw [hlast] at ht
      rw [← Option.some.inj ht]
      simpa using hflight

/-- A job that fails while its task runs. -/
theorem write_fail (now : ℚ) (error : String) {e : Event ρ}
    (hphase : t.phase = .fetching ∨ t.phase = .measuring) (how : e.owns i = true) :
    t.Write member (e.owns i)
      { job := { t.job.fail error with updatedAt := now }, phase := .ended } where
  key := rfl
  fits h := by
    have hwarming : t.job.warming = false := by
      rcases hphase with hp | hp <;> simp only [Task.Fits, hp] at h <;> exact h.2.2
    exact .inr ⟨rfl, rfl, hwarming⟩
  left := by rcases hphase with hp | hp <;> simp [hp, how, Phase.left]
  same hp := by rcases hphase with h | h <;> rw [h] at hp <;> cases hp

/-- An event that finds its task where it expects it. -/
theorem of_guarded {P : Task → Prop} [DecidablePred P] {f : Task → Option Manager}
    (h : (do
      let t ← m.flights.objects[i]?
      guard (P t)
      f t) = some m') :
    ∃ t, m.flights.objects[i]? = some t ∧ P t ∧ f t = some m' := by
  obtain ⟨t, hi, h⟩ := Option.bind_eq_some_iff.mp h
  obtain ⟨⟨⟩, hguard, h⟩ := Option.bind_eq_some_iff.mp h
  exact ⟨t, hi, by simpa using hguard, h⟩

theorem owns_eq {e : Event ρ} (he : e = .begin i ∨ (∃ b, e = .sized i b) ∨ (∃ r, e = .fetched i r) ∨
    ∃ r, e = .measured i r) : e.owns i = true ∧ ∀ j, e.owns j = true → j = i := by
  rcases he with rfl | ⟨b, rfl⟩ | ⟨r, rfl⟩ | ⟨r, rfl⟩ <;> simp [Event.owns]

/-- **What an event can do.** -/
theorem step_move {e : Event ρ} (h : step member m e = some m') : Move member m e m'.flights := by
  cases e with
  | wait δ =>
    simp only [step] at h
    split_ifs at h
    obtain rfl := Option.some.inj h
    exact .stay fun _ => rfl
  | start args =>
    simp only [step] at h
    cases hargs : member.request args with
    | error _ =>
      rw [hargs] at h
      obtain rfl := Option.some.inj h
      exact .stay fun _ => rfl
    | ok p =>
      rw [hargs] at h
      obtain rfl := Option.some.inj h
      exact move_start hargs fun _ => rfl
  | begin i =>
    obtain ⟨t, hi, hphase, h⟩ := of_guarded h
    obtain rfl := Option.some.inj h
    obtain ⟨how, hown⟩ := owns_eq (ρ := ρ) (.inl (rfl : Event.begin i = .begin i))
    refine .update i t (t.begin member m.now) hi hown ⟨rfl, fun hfits => ?_, ?_, ?_⟩ ?_
    · simp only [Task.Fits, hphase] at hfits
      cases hsized : member.sized <;> simp [Task.Fits, Task.begin, hsized, hfits.2.1, hfits.2.2]
    · cases hsized : member.sized <;> simp [Task.begin, hsized, hphase, how, Phase.left]
    · rw [hphase]
      rintro ⟨⟩
    · cases hsized : member.sized <;> simp [Task.begin, hsized, hphase]
  | sized i bytes =>
    obtain ⟨t, hi, hphase, h⟩ := of_guarded h
    obtain rfl := Option.some.inj h
    obtain ⟨how, hown⟩ := owns_eq (ρ := ρ) (.inr (.inl ⟨bytes, (rfl : Event.sized i bytes = _)⟩))
    refine .update i t (t.sized bytes) hi hown ⟨rfl, fun hfits => ?_, ?_, ?_⟩ ?_
    · simp only [Task.Fits, hphase] at hfits
      exact hfits
    · simp [Task.sized, hphase, how, Phase.left]
    · rw [hphase]
      rintro ⟨⟩
    · simp [Task.sized, hphase]
  | fetched i result =>
    obtain ⟨t, hi, hphase, h⟩ := of_guarded h
    obtain ⟨how, hown⟩ := owns_eq (ρ := ρ)
      (.inr (.inr (.inl ⟨result, (rfl : Event.fetched i result = _)⟩)))
    cases result with
    | error e =>
      obtain rfl := Option.some.inj h
      exact .land i t _ hi hown (write_fail m.now e (.inl hphase) how) (by rw [hphase]; decide) rfl
    | ok _ =>
      obtain rfl := Option.some.inj h
      refine .update i t { t with phase := .measuring } hi hown ⟨rfl, fun hfits => ?_, ?_, ?_⟩ ?_
      · simp only [Task.Fits, hphase] at hfits
        exact hfits
      · simp [hphase, how, Phase.left]
      · rw [hphase]
        rintro ⟨⟩
      · simp [hphase]
  | measured i result =>
    obtain ⟨t, hi, hphase, h⟩ := of_guarded h
    obtain ⟨how, hown⟩ := owns_eq (ρ := ρ)
      (.inr (.inr (.inr ⟨result, (rfl : Event.measured i result = _)⟩)))
    cases result with
    | error e =>
      obtain rfl := Option.some.inj h
      exact .land i t _ hi hown (write_fail m.now e (.inr hphase) how) (by rw [hphase]; decide) rfl
    | ok bytes =>
      obtain rfl := Option.some.inj h
      refine .land i t _ hi hown ⟨rfl, fun hfits => ?_, ?_, ?_⟩ (by rw [hphase]; decide) rfl
      · simp only [Task.Fits, hphase] at hfits
        refine .inl ⟨rfl, hfits.2.1, fun total htotal hne => ?_, id⟩
        obtain ⟨before, -, rfl⟩ := Option.mem_map.mp htotal
        split_ifs at hne ⊢ with hzero
        · exact absurd hzero hne
        · exact le_max_right _ _
      · simp [hphase, how, Phase.left]
      · rw [hphase]
        rintro ⟨⟩
  | polled i bytes =>
    obtain ⟨t, hi, hpolls, h⟩ := of_guarded h
    obtain rfl := Option.some.inj h
    have hphase : t.phase = .fetching ∨ t.phase = .measuring := by simpa [Task.polls] using hpolls
    refine .update i t (t.poll m.now bytes) hi (fun j hj => nomatch hj)
      ⟨rfl, fun hfits => ?_, ?_, ?_⟩ .rfl
    · rcases hphase with hp | hp <;> simp only [Task.Fits, hp] at hfits <;>
        simpa [Task.Fits, Task.poll, hp] using hfits
    · simp [Task.poll, Event.owns]
    · rcases hphase with hp | hp <;> rw [hp] <;> rintro ⟨⟩
  | warmed i =>
    obtain ⟨t, hi, hwarming, h⟩ := of_guarded h
    obtain rfl := Option.some.inj h
    refine .update i t (t.warmed m.now) hi (fun j hj => nomatch hj) ⟨rfl, fun hfits => ?_, ?_, ?_⟩ .rfl
    · cases hphase : t.phase <;> simp only [Task.Fits, hphase, hwarming] at hfits
      case ended =>
        rcases hfits with hfits | hfits
        · have hended : (t.warmed m.now).phase = .ended := hphase
          simp only [Task.Fits, hended]
          exact .inl ⟨hfits.1, hfits.2.1, hfits.2.2.1, fun h => nomatch h⟩
        · exact absurd hfits.2.2 (by simp)
      all_goals exact absurd hfits.2.2 (by simp)
    · simp [Task.warmed, Event.owns]
    · intro _
      constructor <;> rfl

/-! ## The invariant -/

/-- The tasks are those of the jobs in flight, every job is in the state that its task says, and its
key was asked for. -/
structure Inv (member : Member ρ) (m : Manager) : Prop where
  tracked : m.flights.Tracked Task.key Task.inFlight
  unique : m.flights.current.Unique
  fits : ∀ {i : Nat} {t : Task}, m.flights.objects[i]? = some t → t.Fits member
  asked : ∀ {i : Nat} {t : Task}, m.flights.objects[i]? = some t →
    ∃ args source, member.request args = .ok (t.key, source)

/-- Every object of a state is, in a later one, what a write made of it. -/
theorem inv_step {e : Event ρ} (h : Inv member m) (he : step member m e = some m') :
    Inv member m' := by
  obtain ⟨now, flights⟩ := m'
  have hmove : Move member m e flights := step_move he
  cases hmove with
  | stay => exact ⟨h.tracked, h.unique, h.fits, h.asked⟩
  | launch job _ hargs hfree hfits =>
    have hflight : Task.inFlight { job := job } = true := hfits.inFlight_iff.mpr (by rintro ⟨⟩)
    refine ⟨h.tracked.launch hflight hfree, h.unique.set, fun hi => ?_, fun hi => ?_⟩
    · rcases Flights.getElem?_snoc hi with hi | ⟨-, rfl⟩
      · exact h.fits hi
      · exact hfits
    · rcases Flights.getElem?_snoc hi with hi | ⟨-, rfl⟩
      · exact h.asked hi
      · exact hargs
  | update i t t' hi _ hwrite hend =>
    have hfits := h.fits hi
    have hflight : t'.inFlight = t.inFlight :=
      Bool.eq_iff_iff.mpr (by rw [(hwrite.fits hfits).inFlight_iff, hfits.inFlight_iff, Ne, Ne, hend])
    refine ⟨h.tracked.update hi hwrite.key hflight, h.unique, fun hj => ?_, fun hj => ?_⟩
    · rcases Flights.getElem?_set_eq hj with ⟨-, rfl⟩ | ⟨-, hj⟩
      · exact hwrite.fits hfits
      · exact h.fits hj
    · rcases Flights.getElem?_set_eq hj with ⟨-, rfl⟩ | ⟨-, hj⟩
      · exact hwrite.key ▸ h.asked hi
      · exact h.asked hj
  | land i t t' hi _ hwrite hrun hend =>
    have hfits := h.fits hi
    have hflight : t'.inFlight = false := by
      rw [Bool.eq_false_iff, Ne, (hwrite.fits hfits).inFlight_iff, not_not]
      exact hend
    refine ⟨h.tracked.land hi (hfits.inFlight_iff.mpr hrun) hwrite.key hflight, h.unique,
      fun hj => ?_, fun hj => ?_⟩
    · rcases Flights.getElem?_set_eq hj with ⟨-, rfl⟩ | ⟨-, hj⟩
      · exact hwrite.fits hfits
      · exact h.fits hj
    · rcases Flights.getElem?_set_eq hj with ⟨-, rfl⟩ | ⟨-, hj⟩
      · exact hwrite.key ▸ h.asked hi
      · exact h.asked hj

theorem inv_of_managed (h : Managed member m) : Inv member m := by
  obtain ⟨now, h⟩ := h
  refine h.invariant (I := Inv member) ?_ fun hinv _ he => inv_step hinv he
  exact ⟨Flights.tracked_empty, List.nodup_nil, by simp, by simp⟩

/-! ## The flights -/

/-- **One download for each key**, in every state of every run: `_tasks` has a key exactly while the
last job of that key is pending or downloading, and of all the jobs ever started under a key at most
one is. -/
theorem single_flight (h : Managed member m) :
    (∀ key, m.flights.tasks.has key = true ↔
      ∃ t, m.flights.last key = some t ∧ t.inFlight = true) ∧
    ∀ {i j : Nat} {t t' : Task}, m.flights.objects[i]? = some t →
      m.flights.objects[j]? = some t' →
      t.inFlight = true → t'.inFlight = true → t.key = t'.key → i = j :=
  ⟨fun _ => (inv_of_managed h).tracked.has_iff, fun hi hj ht ht' hkey =>
    (inv_of_managed h).tracked.unique hi hj ht ht' hkey⟩

/-- What the dashboard is shown: the last job of every key. -/
theorem mem_list_iff (h : Managed member m) {job : DownloadJob} :
    job ∈ m.list ↔ ∃ key t, m.flights.last key = some t ∧ t.job = job := by
  unfold Manager.list Flights.last
  rw [List.mem_mergeSort, List.mem_filterMap]
  constructor
  · rintro ⟨⟨key, i⟩, hentry, hjob⟩
    obtain ⟨t, hi, rfl⟩ := Option.map_eq_some_iff.mp hjob
    exact ⟨key, t, by rw [Dict.get_of_mem (inv_of_managed h).unique hentry]; exact hi, rfl⟩
  · rintro ⟨key, t, hlast, rfl⟩
    obtain ⟨i, hcurrent, hi⟩ := Option.bind_eq_some_iff.mp hlast
    exact ⟨(key, i), Dict.mem_of_get hcurrent, by rw [hi]; rfl⟩

/-- A manager after some events. -/
def after (member : Member ρ) (es : List (Event ρ)) : Manager :=
  (run (step member) { now := 0 } es).getD { now := 0 }

theorem run_after {es : List (Event ρ)} (h : (run (step member) { now := 0 } es).isSome = true) :
    run (step member) { now := 0 } es = some (after member es) := by
  obtain ⟨m, hm⟩ := Option.isSome_iff_exists.mp h
  rw [after, hm]
  rfl

theorem managed_after (es : List (Event ρ))
    (h : (run (step member) { now := 0 } es).isSome = true) : Managed member (after member es) :=
  ⟨0, Reach.of_run (run_after h)⟩

/-- What happens after some events. -/
theorem run_after_append (es fs : List (Event ρ))
    (h : (run (step member) { now := 0 } es).isSome = true)
    (h' : (run (step member) { now := 0 } (es ++ fs)).isSome = true) :
    run (step member) (after member es) fs = some (after member (es ++ fs)) := by
  rw [← run_after h', run_append, run_after h]
  rfl

/-- A model that is asked for twice while it is fetched. -/
def twice : List (Event String) := [.start "org/model", .begin 0, .start " org/model ", .sized 0 none]

theorem single_flight_twice :
    ((after modelDownloads twice).flights.tasks.has "org/model" = true ↔
      ∃ t, (after modelDownloads twice).flights.last "org/model" = some t ∧ t.inFlight = true) :=
  (single_flight (managed_after twice (by decide))).1 "org/model"

/-- What one event does to one task. -/
theorem object_step {e : Event ρ} (he : step member m e = some m')
    (hi : m.flights.objects[i]? = some t) :
    ∃ t', m'.flights.objects[i]? = some t' ∧ (e.owns i).toNat + t'.phase.left ≤ t.phase.left ∧
      (t.phase = .ended → t.Same t') := by
  obtain ⟨now, flights⟩ := m'
  have hmove : Move member m e flights := step_move he
  -- an object that the event does not write to
  have hkept (hown : e.owns i = false) : (e.owns i).toNat + t.phase.left ≤ t.phase.left ∧
      (t.phase = .ended → t.Same t) := by
    rw [hown]
    exact ⟨(Nat.zero_add _).le, fun _ => Task.Same.refl t⟩
  have hset {k : Nat} {u u' : Task} (hk : m.flights.objects[k]? = some u)
      (hown : ∀ j, e.owns j = true → j = k) (hwrite : u.Write member (e.owns k) u') :
      ∃ t', (m.flights.objects.set k u')[i]? = some t' ∧
        (e.owns i).toNat + t'.phase.left ≤ t.phase.left ∧ (t.phase = .ended → t.Same t') := by
    by_cases hik : k = i
    · subst hik
      obtain rfl := Option.some.inj (hk.symm.trans hi)
      exact ⟨u', List.getElem?_set_self (Flights.lt_of_getElem? hi), hwrite.left, hwrite.same⟩
    · refine ⟨t, by rw [List.getElem?_set_ne hik, hi], hkept ?_⟩
      rw [Bool.eq_false_iff]
      exact fun h => hik (hown i h).symm
  cases hmove with
  | stay hown => exact ⟨t, hi, hkept (hown i)⟩
  | launch job hown => exact ⟨t, Flights.getElem?_snoc_of hi, hkept (hown i)⟩
  | update k u u' hk hown hwrite => exact hset hk hown hwrite
  | land k u u' hk hown hwrite => exact hset hk hown hwrite

/-- **A job that has ended stays as it is**: whatever else is started or runs afterwards, under its
key as well, it keeps its state, its error and its sizes. A completed one has no error and not more
bytes than its total, if that is known, and a failed one has an error. -/
theorem ended_stays (h : Managed member m) (hi : m.flights.objects[i]? = some t)
    (hended : t.inFlight = false) (hrun : Reach (step member) anyEvent m m') :
    (∃ t', m'.flights.objects[i]? = some t' ∧ t.Same t') ∧
      ((t.job.state = .completed ∧ t.job.error = none ∧
          ∀ total ∈ t.job.totalBytes, total ≠ 0 → t.job.downloadedBytes ≤ total) ∨
        (t.job.state = .failed ∧ t.job.error.isSome)) := by
  have hfits := (inv_of_managed h).fits hi
  have hphase : t.phase = .ended := by
    by_contra hne
    rw [hfits.inFlight_iff.mpr hne] at hended
    cases hended
  constructor
  · refine hrun.invariant (I := fun m => ∃ t', m.flights.objects[i]? = some t' ∧ t.Same t')
      ⟨t, hi, Task.Same.refl t⟩ fun hI _ he => ?_
    obtain ⟨u, hu, hsame⟩ := hI
    obtain ⟨u', hu', -, hkeep⟩ := object_step he hu
    exact ⟨u', hu', hsame.trans (hkeep (hsame.phase.trans hphase))⟩
  · simp only [Task.Fits, hphase] at hfits
    rcases hfits with hfits | hfits
    · exact .inl ⟨hfits.1, hfits.2.1, hfits.2.2.1⟩
    · exact .inr ⟨hfits.1, hfits.2.1⟩

/-- A download that is completed, and the same model again. -/
def done : List (Event String) := twice ++ [.fetched 0 (.ok ()), .measured 0 (.ok 7)]

theorem ended_stays_again :
    ∃ t, (after modelDownloads done).flights.objects[0]? = some t ∧
      ((∃ t', (after modelDownloads (done ++ [.start "org/model"])).flights.objects[0]? = some t' ∧
          t.Same t') ∧
        ((t.job.state = .completed ∧ t.job.error = none ∧
            ∀ total ∈ t.job.totalBytes, total ≠ 0 → t.job.downloadedBytes ≤ total) ∨
          (t.job.state = .failed ∧ t.job.error.isSome))) :=
  ⟨_, rfl, ended_stays (managed_after done (by decide)) rfl rfl
    (Reach.of_run (run_after_append done [.start "org/model"] (by decide) (by decide)))⟩

/-! ## The end of a download -/

/-- A task that has not ended can go on, whatever the call that it waits for answers. -/
theorem exists_own_step (hi : m.flights.objects[i]? = some t) (hphase : t.phase ≠ .ended) :
    ∃ e : Event ρ, e.owns i = true ∧ (step member m e).isSome := by
  cases hp : t.phase with
  | created => exact ⟨.begin i, by simp [Event.owns], by simp [step, hi, hp]⟩
  | sizing => exact ⟨.sized i none, by simp [Event.owns], by simp [step, hi, hp]⟩
  | fetching => exact ⟨.fetched i (.ok ()), by simp [Event.owns], by simp [step, hi, hp]⟩
  | measuring => exact ⟨.measured i (.ok 0), by simp [Event.owns], by simp [step, hi, hp]⟩
  | ended => exact absurd hp hphase

/-- **A download ends after at most four steps of its own**: in any run from a state in which it
stands anywhere, the steps of its task and those it has left are no more than it had, and while it has
some left it can take one. -/
theorem own_steps_le (es : List (Event ρ)) (hrun : run (step member) m es = some m')
    (hi : m.flights.objects[i]? = some t) :
    ∃ t', m'.flights.objects[i]? = some t' ∧
      es.countP (Event.owns i) + t'.phase.left ≤ t.phase.left ∧
      (t'.phase ≠ .ended → ∃ e : Event ρ, e.owns i = true ∧ (step member m' e).isSome) := by
  induction es generalizing m t with
  | nil =>
    obtain rfl := Option.some.inj hrun
    exact ⟨t, hi, by simp, exists_own_step hi⟩
  | cons e es ih =>
    obtain ⟨u, hu, hrun⟩ := Option.bind_eq_some_iff.mp hrun
    obtain ⟨v, hv, hleft, -⟩ := object_step hu hi
    obtain ⟨t', ht', hcount, hnext⟩ := ih hrun hv
    refine ⟨t', ht', ?_, hnext⟩
    rw [List.countP_cons]
    cases hown : e.owns i <;> simp [hown] at hleft ⊢ <;> omega

/-- The task of the first of them. -/
def fresh : Task :=
  { job := { key := "org/model", source := "org/model", startedAt := 0, updatedAt := 0 } }

theorem own_steps_le_done :
    ∃ t', (after modelDownloads ([.start "org/model"] ++ done)).flights.objects[0]? = some t' ∧
      done.countP (Event.owns 0) + t'.phase.left ≤ fresh.phase.left ∧
      (t'.phase ≠ .ended → ∃ e, Event.owns 0 e = true ∧
        (step modelDownloads (after modelDownloads ([.start "org/model"] ++ done)) e).isSome) := by
  have hrun : run (step modelDownloads) (after modelDownloads [.start "org/model"]) done =
      some (after modelDownloads ([.start "org/model"] ++ done)) :=
    run_after_append [.start "org/model"] done (by decide) (by decide)
  have hi : (after modelDownloads [.start "org/model"]).flights.objects[0]? = some fresh := rfl
  exact own_steps_le done hrun hi

/-! ## The folders of the adapters -/

/-- A name that `adapter_dir` takes is one component of a path. -/
theorem adapterDir_eq_ok {printable : Char → Bool} {root name path : String}
    (h : adapterDir printable root name = .ok path) :
    path = joinPath root name ∧ name ≠ "" ∧ name ≠ "." ∧ name ≠ ".." ∧ '/' ∉ name.toList := by
  unfold adapterDir at h
  split_ifs at h with hbad
  simp only [not_or, Bool.not_eq_false] at hbad
  obtain ⟨hempty, hdot, hdots, hsafe⟩ := hbad
  refine ⟨(Except.ok.inj h).symm, hempty, hdot, hdots, fun hslash => ?_⟩
  simp only [safeName, Bool.and_eq_true, List.all_eq_true] at hsafe
  have hmem : '/' ∈ (if name.toList.getLast? = some '\n' then name.toList.dropLast
      else name.toList) := by
    split_ifs with hlast
    · have hne : name.toList ≠ [] := List.ne_nil_of_mem hslash
      rw [← List.dropLast_append_getLast hne, List.mem_append, List.mem_singleton] at hslash
      refine hslash.resolve_right fun heq => ?_
      rw [List.getLast?_eq_some_getLast hne, ← heq] at hlast
      exact absurd (Option.some.inj hlast) (by decide)
    · exact hslash
  exact absurd (hsafe.2 _ hmem) (by decide)

/-- Names of one component that are joined to one root are told apart. -/
theorem joinPath_inj {root a b : String} (ha : '/' ∉ a.toList) (hb : '/' ∉ b.toList)
    (h : joinPath root a = joinPath root b) : a = b := by
  have hrel {name : String} (hname : '/' ∉ name.toList) : startsWith name "/" = false := by
    rw [Bool.eq_false_iff]
    intro hstart
    obtain ⟨rest, hrest⟩ := startsWith_iff.mp hstart
    rw [← hrest] at hname
    simp at hname
  unfold joinPath at h
  rw [hrel ha, hrel hb] at h
  simp only [Bool.false_eq_true, if_false] at h
  split_ifs at h
  · exact String.append_right_inj root |>.mp h
  · exact String.append_right_inj (root ++ "/") |>.mp h

/-- **Two adapters in flight have different folders**, in every state of every run, and each folder is
that of one name right under the root. -/
theorem lora_folders {printable : Char → Bool} {root : String}
    (h : Managed (loraDownloads printable root) m) :
    (∀ {i : Nat} {t : Task}, m.flights.objects[i]? = some t →
      adapterDir printable root t.key = .ok (joinPath root t.key) ∧
        t.key ≠ "" ∧ t.key ≠ "." ∧ t.key ≠ ".." ∧ '/' ∉ t.key.toList) ∧
    ∀ {i j : Nat} {t t' : Task}, m.flights.objects[i]? = some t →
      m.flights.objects[j]? = some t' →
      t.inFlight = true → t'.inFlight = true → i ≠ j →
        joinPath root t.key ≠ joinPath root t'.key := by
  have hsafe {i : Nat} {t : Task} (hi : m.flights.objects[i]? = some t) :
      adapterDir printable root t.key = .ok (joinPath root t.key) ∧
        t.key ≠ "" ∧ t.key ≠ "." ∧ t.key ≠ ".." ∧ '/' ∉ t.key.toList := by
    obtain ⟨args, source, hargs⟩ := (inv_of_managed h).asked hi
    obtain ⟨name, path, hpath, hname⟩ : ∃ name path, adapterDir printable root name = .ok path ∧
        name = t.key := by
      unfold loraDownloads at hargs
      simp only at hargs
      split_ifs at hargs
      cases hpath : adapterDir printable root (strip ((truthy args.2).getD
        (String.ofList (((strip args.1).toList.splitOn '/').getLastD [])))) with
      | error e => simp only [hpath, bind, Except.bind, reduceCtorEq] at hargs
      | ok path =>
        simp only [hpath, bind, Except.bind, Except.ok.injEq, Prod.mk.injEq] at hargs
        exact ⟨_, path, hpath, hargs.1⟩
    obtain ⟨rfl, hcomponent⟩ := adapterDir_eq_ok (hname ▸ hpath)
    exact ⟨hname ▸ hpath, hcomponent⟩
  refine ⟨fun hi => hsafe hi, fun hi hj ht ht' hne heq => ?_⟩
  exact hne ((single_flight h).2 hi hj ht ht'
    (joinPath_inj (hsafe hi).2.2.2.2 (hsafe hj).2.2.2.2 heq))

/-- Two adapters of one repository. -/
def adapters : List (Event (String × Option String)) :=
  [.start ("org/sql", none), .start ("org/sql", some "sql-2"), .begin 0, .begin 1]

theorem lora_folders_sql : joinPath "/lora" "sql" ≠ joinPath "/lora" "sql-2" :=
  (lora_folders (managed_after adapters (by decide) :
    Managed (loraDownloads (fun _ => true) "/lora") _)).2 (i := 0) (j := 1) rfl rfl rfl rfl
      (by decide)

end Llmops.Downloads
