import Llmops.Lib.Cursor

/-!
# The audit log and its pages

`record_audit`, `list_audit` and `prune_audit` (`llmops_store.py:477-521, 998-1007`), and
`_audit_prune_loop` (`main.py:59-68`), which runs beside the requests.

* A row of `audit_log` is an `AuditEntry` under its id; `AUTOINCREMENT` gives no id twice.
* `LIKE` compares characters by `fold`: SQLite ignores the case of ASCII letters.

Results:
* `like_of_infix`: the filter by action passes every path that contains it;
* `audit_pages`: a client that follows the cursor while requests are recorded and old rows are pruned.
-/

namespace Llmops.Audit

open Lib

/-- A row of `audit_log`, next to its id. -/
structure AuditEntry where
  ts : ℚ
  actor : String
  role : Option String
  method : String
  path : String
  target : Option String
  status : Nat
  detail : Option String
  sourceIp : Option String
  deriving DecidableEq, Repr

/-- `LIKE`: `%` stands for any text and `_` for any character. -/
def like (fold : Char → Char) : List Char → List Char → Bool
  | [], cs => cs.isEmpty
  | p :: ps, cs =>
    if p = '%' then cs.tails.any (like fold ps)
    else
      match cs with
      | [] => false
      | c :: cs => (p = '_' || fold p = fold c) && like fold ps cs

/-- The filters of `list_audit`. -/
structure AuditFilter where
  actor : Option String := none
  action : Option String := none
  target : Option String := none
  since : Option ℚ := none
  until_ : Option ℚ := none

/-- The `WHERE` clause, without the cursor. -/
def AuditFilter.passes (fold : Char → Char) (f : AuditFilter) (entry : AuditEntry) : Bool :=
  f.actor.all (entry.actor = ·) &&
    f.action.all (fun action => like fold ('%' :: action.toList ++ ['%']) entry.path.toList) &&
    f.target.all (entry.target = some ·) && f.since.all (· ≤ entry.ts) && f.until_.all (entry.ts ≤ ·)

/-- `record_audit`: the entry with `ts or time.time()`. -/
def recordAudit (l : Log AuditEntry) (now : ℚ) (ts : Option ℚ) (entry : AuditEntry) :
    Log AuditEntry :=
  l.add { entry with ts := (ts.filter (· ≠ 0)).getD now }

/-- `list_audit`. -/
def listAudit (fold : Char → Char) (l : Log AuditEntry) (f : AuditFilter) (before : Option Nat)
    (limit : Int) : List (Nat × AuditEntry) :=
  l.page (f.passes fold) before (limitOf limit 1000)

/-! ## The filter by action -/

/-- Every pattern matches its own text, and what follows it. -/
theorem like_prefix (fold : Char → Char) (action rest : List Char) :
    like fold (action ++ ['%']) (action ++ rest) = true := by
  induction action with
  | nil => exact List.any_eq_true.mpr ⟨[], (List.mem_tails _ _).mpr List.nil_suffix, rfl⟩
  | cons c action ih =>
    rw [List.cons_append, List.cons_append, like]
    split_ifs with hany
    · exact List.any_eq_true.mpr ⟨action ++ rest, (List.mem_tails _ _).mpr (List.suffix_cons _ _), ih⟩
    · simp [ih]

/-- **The filter by action** passes every path that contains the text. -/
theorem like_of_infix (fold : Char → Char) {action path : List Char} (h : action <:+: path) :
    like fold ('%' :: action ++ ['%']) path = true := by
  obtain ⟨before, rest, rfl⟩ := h
  have htail : action ++ rest ∈ (before ++ action ++ rest).tails := by
    rw [List.append_assoc]
    exact (List.mem_tails _ _).mpr (List.suffix_append _ _)
  exact List.any_eq_true.mpr ⟨action ++ rest, htail, like_prefix fold action rest⟩

/-! ## The pages -/

/-- What happens to the log. -/
inductive LogEvent where
  | record (now : ℚ) (ts : Option ℚ) (entry : AuditEntry)
  | prune (maxRows : Nat)

def logEvent (l : Log AuditEntry) : LogEvent → Log AuditEntry
  | .record now ts entry => recordAudit l now ts entry
  | .prune maxRows => l.prune maxRows

theorem later_logEvent (l : Log AuditEntry) (e : LogEvent) : Log.Later l (logEvent l e) := by
  cases e with
  | record now ts entry => exact Log.later_add l _
  | prune maxRows => exact Log.later_prune l maxRows

/-- A client that asks for the first page of the log `l`. -/
def firstPage (fold : Char → Char) (f : AuditFilter) (limit : Int) (l : Log AuditEntry) :
    Reader AuditEntry :=
  ({} : Reader AuditEntry).take (listAudit fold l f none limit) (limitOf limit 1000)

/-- Requests are recorded and rows are pruned, and a client takes the next pages. -/
def auditStep (fold : Char → Char) (f : AuditFilter) (limit : Int) :
    Log AuditEntry × Reader AuditEntry → Reader.Event LogEvent →
      Option (Log AuditEntry × Reader AuditEntry) :=
  Reader.step logEvent (f.passes fold) (limitOf limit 1000)

/-- **The pages of the audit log**, for any filters and any limit, while rows are recorded and pruned
between them: the ids go down, so that nothing is shown twice; what is shown passes the filters and
was in the log at the first page; and a client that got a page that is not full has been shown every
row that passes, was there at the first page and has not been pruned since. -/
theorem audit_pages {fold : Char → Char} {f : AuditFilter} {limit : Int} {l₀ l : Log AuditEntry}
    {w : Reader AuditEntry}
    (h : Reach (auditStep fold f limit) anyEvent (l₀, firstPage fold f limit l₀) (l, w)) :
    (w.seen.Pairwise fun r r' => r'.1 < r.1) ∧
      (∀ r ∈ w.seen, r ∈ l₀.rows ∧ f.passes fold r.2 = true) ∧
      (w.through = true → ∀ r ∈ l₀.rows, r ∈ l.rows → f.passes fold r.2 = true → r ∈ w.seen) := by
  have hcovers := Reader.covers_run logEvent later_logEvent (limitOf_pos limit 1000) h
  refine ⟨hcovers.sorted, fun r hr => ?_, fun hthrough r hr₀ hr hp => ?_⟩
  · obtain ⟨hr₀, hp, -⟩ := hcovers.seen r hr
    exact ⟨hr₀, hp⟩
  · exact hcovers.through hthrough r hr hr₀ hp

/-- An entry of some path. -/
def entry (path : String) : AuditEntry where
  ts := 0
  actor := "alice"
  role := some "operator"
  method := "PUT"
  path := path
  target := none
  status := 200
  detail := none
  sourceIp := none

def threeRows : Log AuditEntry := (((({} : Log AuditEntry).add (entry "/api/a")).add
  (entry "/api/b")).add (entry "/api/a"))

/-- Pages of one row each, with a new row and a prune between them. -/
def walk : List (Reader.Event LogEvent) :=
  [.change (.record 0 none (entry "/api/c")), .read, .change (.prune 2), .read]

theorem audit_pages_three : ∃ s : Log AuditEntry × Reader AuditEntry,
    run (auditStep id {} 1) (threeRows, firstPage id {} 1 threeRows) walk = some s ∧
    (s.2.seen.Pairwise fun r r' => r'.1 < r.1) ∧
      (∀ r ∈ s.2.seen, r ∈ threeRows.rows ∧ AuditFilter.passes id {} r.2 = true) ∧
      (s.2.through = true →
        ∀ r ∈ threeRows.rows, r ∈ s.1.rows → AuditFilter.passes id {} r.2 = true → r ∈ s.2.seen) := by
  obtain ⟨s, hs⟩ := Option.isSome_iff_exists.mp
    (rfl : (run (auditStep id {} 1) (threeRows, firstPage id {} 1 threeRows) walk).isSome = true)
  exact ⟨s, hs, audit_pages (Reach.of_run hs)⟩

end Llmops.Audit
