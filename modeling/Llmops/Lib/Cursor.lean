import Llmops.Lib.Run
import Mathlib

/-!
# Pages of a log that changes

A `Log` is a table whose ids grow: rows are added under the next id, and old rows are deleted. A page
is what comes before a cursor, the newest first, and a reader takes the last id of a page as the
cursor of the next one, until a page is not full.

Between two pages the log changes. `Later` is all that a page may rely on: an id is never used
again, so that what a later log has below the old `next` was there before.

* `Covers`: what a reader has seen so far, and what of the log that is;
* `Covers.change`, `Covers.read`: a change of the log and a page keep it;
* `covers_run`: so does a run of both. A reader who is through has seen every row that was there at the
  first page and still is, and nothing twice.
-/

namespace Llmops.Lib

/-- Rows under ids, the newest first, and the next id. -/
structure Log (α : Type*) where
  rows : List (Nat × α) := []
  next : Nat := 1
  sorted : rows.Pairwise fun r r' => r'.1 < r.1 := by simp
  below : ∀ r ∈ rows, r.1 < next := by simp

/-- `max(1, min(limit, most))`. -/
def limitOf (limit most : Int) : Nat := (max 1 (min limit most)).toNat

theorem limitOf_pos (limit most : Int) : 0 < limitOf limit most := by
  unfold limitOf
  omega

namespace Log

variable {α : Type*}

/-- The log before the first row. -/
def empty : Log α := {}

/-- A row under the next id. -/
def add (l : Log α) (x : α) : Log α where
  rows := (l.next, x) :: l.rows
  next := l.next + 1
  sorted := List.pairwise_cons.mpr ⟨fun r hr => l.below r hr, l.sorted⟩
  below r hr := by
    rcases List.mem_cons.mp hr with rfl | hr
    · exact Nat.lt_succ_self _
    · exact (l.below r hr).trans (Nat.lt_succ_self _)

/-- `DELETE ... WHERE id NOT IN (SELECT id ... ORDER BY id DESC LIMIT n)`. -/
def prune (l : Log α) (n : Nat) : Log α where
  rows := l.rows.filter fun r => r.1 ∈ (l.rows.take n).map Prod.fst
  next := l.next
  sorted := l.sorted.filter _
  below r hr := l.below r (List.mem_of_mem_filter hr)

/-- `SELECT ... WHERE p AND id < before ORDER BY id DESC LIMIT n`. -/
def page (l : Log α) (p : α → Bool) (before : Option Nat) (n : Nat) : List (Nat × α) :=
  (l.rows.filter fun r => p r.2 && before.all (r.1 < ·)).take n

/-- A log that came of another. -/
structure Later (l l' : Log α) : Prop where
  next : l.next ≤ l'.next
  rows : ∀ r ∈ l'.rows, r ∈ l.rows ∨ l.next ≤ r.1

variable {l l' : Log α} {p : α → Bool} {before : Option Nat} {n : Nat} {r r' : Nat × α}

theorem later_refl (l : Log α) : Later l l := ⟨le_rfl, fun _ => .inl⟩

theorem Later.trans {l'' : Log α} (h : Later l l') (h' : Later l' l'') : Later l l'' where
  next := h.next.trans h'.next
  rows r hr := by
    rcases h'.rows r hr with hr | hle
    · exact h.rows r hr
    · exact .inr (h.next.trans hle)

theorem later_add (l : Log α) (x : α) : Later l (l.add x) where
  next := Nat.le_succ _
  rows r hr := by
    rcases List.mem_cons.mp hr with rfl | hr
    · exact .inr le_rfl
    · exact .inl hr

theorem later_prune (l : Log α) (n : Nat) : Later l (l.prune n) :=
  ⟨le_rfl, fun _ hr => .inl (List.mem_of_mem_filter hr)⟩

/-- Rows whose ids are among those of a beginning are that beginning. -/
theorem prune_rows (l : Log α) (n : Nat) : (l.prune n).rows = l.rows.take n := by
  have hkeep : ∀ r ∈ l.rows.take n, decide (r.1 ∈ (l.rows.take n).map Prod.fst) = true :=
    fun r hr => decide_eq_true (List.mem_map_of_mem hr)
  have hdrop : ∀ r ∈ l.rows.drop n, decide (r.1 ∈ (l.rows.take n).map Prod.fst) = false := by
    intro r hr
    rw [decide_eq_false_iff_not, List.mem_map]
    rintro ⟨r', hr', heq⟩
    have hlt := (List.pairwise_append.mp ((List.take_append_drop n l.rows).symm ▸ l.sorted)).2.2
      r' hr' r hr
    omega
  have hsplit := congrArg (List.filter fun r : Nat × α =>
    decide (r.1 ∈ (l.rows.take n).map Prod.fst)) (List.take_append_drop n l.rows)
  rw [List.filter_append, List.filter_eq_self.mpr hkeep,
    List.filter_eq_nil_iff.mpr fun r hr => by rw [hdrop r hr]; decide, List.append_nil] at hsplit
  exact hsplit.symm

/-! ## One page -/

theorem mem_page (h : r ∈ l.page p before n) :
    r ∈ l.rows ∧ p r.2 = true ∧ ∀ b ∈ before, r.1 < b := by
  obtain ⟨hmem, hp⟩ := List.mem_filter.mp (List.mem_of_mem_take h)
  obtain ⟨hp, hb⟩ := Bool.and_eq_true_iff.mp hp
  exact ⟨hmem, hp, fun b hb' => by rw [hb'] at hb; exact of_decide_eq_true hb⟩

theorem sorted_page : (l.page p before n).Pairwise fun r r' => r'.1 < r.1 :=
  (l.sorted.filter _).sublist (List.take_sublist _ _)

/-- **A page leaves out no row above one that it has**, and none at all if it is not full. -/
theorem mem_page_of (hr : r ∈ l.rows) (hp : p r.2 = true) (hb : ∀ b ∈ before, r.1 < b)
    (h : (∃ r' ∈ l.page p before n, r'.1 ≤ r.1) ∨ (l.page p before n).length < n) :
    r ∈ l.page p before n := by
  have hmem : r ∈ l.rows.filter fun r => p r.2 && before.all (r.1 < ·) := by
    refine List.mem_filter.mpr ⟨hr, Bool.and_eq_true_iff.mpr ⟨hp, ?_⟩⟩
    cases before with
    | none => rfl
    | some b => exact decide_eq_true (hb b rfl)
  rw [← List.take_append_drop n (l.rows.filter _), List.mem_append] at hmem
  refine hmem.resolve_right fun hdrop => ?_
  rcases h with ⟨r', hr', hle⟩ | hshort
  · have hsorted := l.sorted.filter fun r => p r.2 && before.all (r.1 < ·)
    rw [← List.take_append_drop n (l.rows.filter _)] at hsorted
    have hlt := (List.pairwise_append.mp hsorted).2.2 r' hr' r hdrop
    omega
  · rw [page, List.length_take] at hshort
    rw [List.drop_eq_nil_of_le (by omega)] at hdrop
    cases hdrop

end Log

/-! ## A reader -/

/-- A reader: the cursor, what was seen, and whether the last page was not full. -/
structure Reader (α : Type*) where
  before : Option Nat := none
  seen : List (Nat × α) := []
  through : Bool := false

namespace Reader

variable {α : Type*}

/-- The reader takes a page of `n` rows at most. -/
def take (w : Reader α) (page : List (Nat × α)) (n : Nat) : Reader α where
  before := (page.getLast?.map Prod.fst).or w.before
  seen := w.seen ++ page
  through := page.length < n

/-- What a reader has seen of the log `l`, if its first page was one of `l₀`. -/
structure Covers (p : α → Bool) (l₀ l : Log α) (w : Reader α) : Prop where
  later : Log.Later l₀ l
  sorted : w.seen.Pairwise fun r r' => r'.1 < r.1
  seen : ∀ r ∈ w.seen, r ∈ l₀.rows ∧ p r.2 = true ∧ ∀ b ∈ w.before, b ≤ r.1
  cursor : ∀ b ∈ w.before, b ≤ l₀.next
  rows : ∀ b ∈ w.before, ∀ r ∈ l.rows, r ∈ l₀.rows → p r.2 = true → b ≤ r.1 → r ∈ w.seen
  through : w.through = true → ∀ r ∈ l.rows, r ∈ l₀.rows → p r.2 = true → r ∈ w.seen
  going : w.through = false → w.before.isSome

variable {p : α → Bool} {n : Nat} {l₀ l l' : Log α} {w : Reader α}

/-- A change of the log. -/
theorem Covers.change (h : Covers p l₀ l w) (hl : Log.Later l l') : Covers p l₀ l' w := by
  -- what was there at the first page was there before the change
  have hold {r : Nat × α} (hr : r ∈ l'.rows) (hr₀ : r ∈ l₀.rows) : r ∈ l.rows := by
    refine (hl.rows r hr).resolve_right fun hle => ?_
    exact absurd (l₀.below r hr₀) (by have := h.later.next; omega)
  exact { h with
    later := h.later.trans hl
    rows := fun b hb r hr hr₀ hp hle => h.rows b hb r (hold hr hr₀) hr₀ hp hle
    through := fun ht r hr hr₀ hp => h.through ht r (hold hr hr₀) hr₀ hp }

/-- The last id of a page that is in order. -/
theorem getLast_le {page : List (Nat × α)} (h : page.Pairwise fun r r' => r'.1 < r.1) {b : Nat}
    (hb : page.getLast?.map Prod.fst = some b) :
    (∀ r ∈ page, b ≤ r.1) ∧ ∃ r ∈ page, r.1 = b := by
  obtain ⟨last, hlast, rfl⟩ := Option.map_eq_some_iff.mp hb
  refine ⟨fun r hr => ?_, last, List.mem_of_getLast? hlast, rfl⟩
  obtain ⟨before, rfl⟩ := List.getLast?_eq_some_iff.mp hlast
  rcases List.mem_append.mp hr with hr | hr
  · exact ((List.pairwise_append.mp h).2.2 r hr last (List.mem_singleton_self _)).le
  · rw [List.mem_singleton.mp hr]

/-- **One more page**, below all that was seen. -/
theorem covers_take (hn : 0 < n) (hlater : Log.Later l₀ l)
    (hsorted : w.seen.Pairwise fun r r' => r'.1 < r.1)
    (hseen : ∀ r ∈ w.seen, r ∈ l₀.rows ∧ p r.2 = true ∧ ∃ b, w.before = some b ∧ b ≤ r.1)
    (hcursor : ∀ b ∈ w.before, b ≤ l₀.next)
    (hold : ∀ r ∈ l.rows, (∀ b ∈ w.before, r.1 < b) → r ∈ l₀.rows)
    (hrows : ∀ b ∈ w.before, ∀ r ∈ l.rows, r ∈ l₀.rows → p r.2 = true → b ≤ r.1 → r ∈ w.seen) :
    Covers p l₀ l (w.take (l.page p w.before n) n) := by
  have hpage : (l.page p w.before n).Pairwise fun r r' => r'.1 < r.1 := Log.sorted_page
  -- a row that matches is above the old cursor, or in the page if anything is below it
  have hmem {r : Nat × α} (hr : r ∈ l.rows) (hr₀ : r ∈ l₀.rows) (hp : p r.2 = true)
      (h : (∃ r' ∈ l.page p w.before n, r'.1 ≤ r.1) ∨ (l.page p w.before n).length < n) :
      r ∈ w.seen ++ l.page p w.before n := by
    by_cases hb : ∀ b ∈ w.before, r.1 < b
    · exact List.mem_append_right _ (Log.mem_page_of hr hp hb h)
    · simp only [not_forall, not_lt] at hb
      obtain ⟨b, hb, hle⟩ := hb
      exact List.mem_append_left _ (hrows b hb r hr hr₀ hp hle)
  refine ⟨hlater, ?_, fun r hr => ?_, fun b hb => ?_, fun b hb r hr hr₀ hp hle => ?_,
    fun hthrough r hr hr₀ hp => ?_, fun hgoing => ?_⟩
  · refine List.pairwise_append.mpr ⟨hsorted, hpage, fun r hr r' hr' => ?_⟩
    obtain ⟨-, -, b, hb, hle⟩ := hseen r hr
    exact ((Log.mem_page hr').2.2 b hb).trans_le hle
  · rcases List.mem_append.mp hr with hr | hr
    · obtain ⟨hr₀, hp, b, hb, hle⟩ := hseen r hr
      refine ⟨hr₀, hp, fun c hc => ?_⟩
      rcases Option.or_eq_some_iff.mp hc with hc | ⟨-, hc⟩
      · obtain ⟨-, r', hr', rfl⟩ := getLast_le hpage hc
        exact ((Log.mem_page hr').2.2 b hb).le.trans hle
      · rw [hb] at hc
        exact Option.some.inj hc ▸ hle
    · obtain ⟨hmem, hp, hb⟩ := Log.mem_page hr
      refine ⟨hold r hmem hb, hp, fun c hc => ?_⟩
      rcases Option.or_eq_some_iff.mp hc with hc | ⟨hc, -⟩
      · exact (getLast_le hpage hc).1 r hr
      · rw [Option.map_eq_none_iff, List.getLast?_eq_none_iff] at hc
        rw [hc] at hr
        cases hr
  · rcases Option.or_eq_some_iff.mp hb with hb | ⟨-, hb⟩
    · obtain ⟨-, r', hr', rfl⟩ := getLast_le hpage hb
      obtain ⟨hmem, -, hb'⟩ := Log.mem_page hr'
      exact (l₀.below r' (hold r' hmem hb')).le
    · exact hcursor b hb
  · rcases Option.or_eq_some_iff.mp hb with hb | ⟨-, hb⟩
    · obtain ⟨-, r', hr', rfl⟩ := getLast_le hpage hb
      exact hmem hr hr₀ hp (.inl ⟨r', hr', hle⟩)
    · exact List.mem_append_left _ (hrows b hb r hr hr₀ hp hle)
  · exact hmem hr hr₀ hp (.inr (of_decide_eq_true hthrough))
  · have hlen : n ≤ (l.page p w.before n).length := Nat.le_of_not_lt (of_decide_eq_false hgoing)
    have hne : l.page p w.before n ≠ [] := by
      rw [← List.length_pos_iff]
      omega
    simp [Reader.take, List.getLast?_eq_some_getLast hne]

/-- The first page. -/
theorem covers_first (p : α → Bool) (l : Log α) (hn : 0 < n) :
    Covers p l l (({} : Reader α).take (l.page p none n) n) :=
  covers_take hn (Log.later_refl l) List.Pairwise.nil (fun _ h => nomatch h) (fun _ h => nomatch h)
    (fun _ hr _ => hr) fun _ h => nomatch h

/-- A page of a reader that is not through. -/
theorem Covers.read (h : Covers p l₀ l w) (hn : 0 < n) (hgoing : w.through = false) :
    Covers p l₀ l (w.take (l.page p w.before n) n) := by
  obtain ⟨b, hb⟩ := Option.isSome_iff_exists.mp (h.going hgoing)
  refine covers_take hn h.later h.sorted (fun r hr => ?_) h.cursor (fun r hr hlt => ?_) h.rows
  · obtain ⟨hr₀, hp, hle⟩ := h.seen r hr
    exact ⟨hr₀, hp, b, hb, hle b hb⟩
  · refine (h.later.rows r hr).resolve_right fun hle => ?_
    exact absurd (hlt b hb) (by have := h.cursor b hb; omega)

/-! ## Runs -/

/-- Something happens to the log, or the reader takes a page. -/
inductive Event (ε : Type*) where
  | change (e : ε)
  | read

variable {ε : Type*} (apply : Log α → ε → Log α)

/-- One event of a log with a reader. -/
def step (p : α → Bool) (n : Nat) (s : Log α × Reader α) : Event ε → Option (Log α × Reader α)
  | .change e => some (apply s.1 e, s.2)
  | .read =>
    if s.2.through then none else some (s.1, s.2.take (s.1.page p s.2.before n) n)

/-- **A walk through the pages**: changes that never reuse an id, between any two pages. -/
theorem covers_run (hlater : ∀ l e, Log.Later l (apply l e)) (hn : 0 < n)
    (h : Reach (step apply p n) anyEvent (l₀, ({} : Reader α).take (l₀.page p none n) n) (l, w)) :
    Covers p l₀ l w := by
  refine h.invariant (I := fun s => Covers p l₀ s.1 s.2) (covers_first p l₀ hn) ?_
  rintro ⟨l, w⟩ ⟨l', w'⟩ e hcovers - he
  cases e with
  | change e =>
    obtain ⟨rfl, rfl⟩ := Prod.mk.inj (Option.some.inj he)
    exact hcovers.change (hlater l e)
  | read =>
    simp only [step] at he
    split_ifs at he with hthrough
    obtain ⟨rfl, rfl⟩ := Prod.mk.inj (Option.some.inj he)
    exact hcovers.read hn (by simpa using hthrough)

end Reader

end Llmops.Lib
