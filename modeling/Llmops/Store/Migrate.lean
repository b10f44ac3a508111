import Llmops.Lib.Conversion
import Llmops.Lib.Script

/-!
# From SQLite to Postgres

`migrate_sqlite_to_pg.py` over the schema of `llmops_store.py:48-241` and its `_MIGRATIONS`. A row is
the value at each column; a column that the table does not have is NULL. What Postgres makes of a
statement beyond its effect (constraints, the ranges of its integers, a connection that is lost) is
`takes` of a `Setup`: it may refuse any statement at any time. The commits of the script do nothing,
since every statement commits itself (`PgDriver.commit`). How Python reads a number in a text, and
which float an integer is, are parameters.

* `migrate_spec`: a copy has every row with its id and with its values as the columns' types have
  them, and new ids come after the copied ones; a refusal leaves the target alone; an error leaves of
  each table a beginning of its copy;
* `same_reads`: where the values of the source have the types of their columns, the copy reads as the
  source does;
* `migrate_partial`: an error leaves rows behind, and a value of another type is not kept.
-/

namespace Llmops.Store

open Lib

/-! ## Values and rows -/

/-- A value in a row. -/
inductive Value where
  | null
  | int (n : Int)
  | float (x : PyFloat)
  | text (s : String)
  deriving DecidableEq, Repr

/-- A row. -/
abbrev Row := String → Value

/-- The types that the schema declares: `INTEGER PRIMARY KEY AUTOINCREMENT`, which
`dialectize_schema_pg` makes a `BIGINT` identity, `INTEGER`, `REAL`, which it makes
`DOUBLE PRECISION`, and `TEXT`. -/
inductive ColumnType where
  | identity | integer | real | text
  deriving DecidableEq, Repr

/-- A column with its default. -/
structure Column where
  type : ColumnType
  default : Value := .null

/-! ## The schema -/

/-- A column without a default. -/
def identity : Column := ⟨.identity, .null⟩

def integer : Column := ⟨.integer, .null⟩

def real : Column := ⟨.real, .null⟩

def text : Column := ⟨.text, .null⟩

/-- The runs of both benchmarks. -/
def runColumns : Dict Column :=
  [("status", text), ("params", text), ("result", text), ("output_dir", text), ("error", text),
    ("started_at", real), ("finished_at", real)]

/-- `_SCHEMA`: the columns of each table. -/
def schema : Dict (Dict Column) :=
  [("model_events", [("id", identity), ("ts", real), ("key", text), ("kind", text),
      ("from_state", text), ("to_state", text), ("detail", text)]),
    ("request_logs", [("id", identity), ("ts", real), ("model_key", text), ("instance_id", text),
      ("path", text), ("status_code", integer), ("latency_ms", real), ("prompt_tokens", integer),
      ("completion_tokens", integer), ("total_tokens", integer), ("error", text),
      ("api_key_name", text)]),
    ("api_keys", [("id", identity), ("name", text), ("key_hash", text), ("prefix", text),
      ("created_at", real), ("last_used_at", real), ("revoked", ⟨.integer, .int 0⟩),
      ("rpm_limit", integer), ("token_quota", integer), ("quota_period", text)]),
    ("perf_runs", [("id", identity), ("created_at", real), ("name", text), ("model", text),
      ("target_url", text)] ++ runColumns),
    ("eval_runs", [("id", identity), ("created_at", real), ("name", text), ("model", text),
      ("target_url", text), ("datasets", text)] ++ runColumns),
    ("operators", [("id", identity), ("label", text), ("token_hash", text), ("prefix", text),
      ("role", text), ("created_at", real), ("last_used_at", real),
      ("revoked", ⟨.integer, .int 0⟩)]),
    ("audit_log", [("id", identity), ("ts", real), ("actor", text), ("role", text),
      ("method", text), ("path", text), ("target", text), ("status", integer), ("detail", text),
      ("source_ip", text)]),
    ("alert_sinks", [("id", identity), ("type", text), ("url", text),
      ("min_severity", ⟨.text, .text "info"⟩), ("created_at", real)]),
    ("model_prices", [("model", text), ("input_price", real), ("output_price", real),
      ("currency", ⟨.text, .text "USD"⟩), ("updated_at", real)]),
    ("config_versions", [("id", identity), ("ts", real), ("actor", text), ("role", text),
      ("summary", text), ("sha256", text), ("overlay", text)]),
    ("instance_desired", [("key", text), ("desired", text), ("updated_at", real)]),
    ("leader_lease", [("name", text), ("holder", text), ("expires_at", real)]),
    ("draining", [("key", text), ("expires_at", real)]),
    ("instances_live", [("key", text), ("group_key", text), ("instance_id", text),
      ("node_id", text), ("host", text), ("port", integer), ("state", text),
      ("expires_at", real)]),
    ("nodes", [("node_id", text), ("hostname", text), ("capacity", text), ("engines", text),
      ("api_url", text), ("expires_at", real)]),
    ("assignments", [("key", text), ("node_id", text), ("updated_at", real)]),
    ("instance_observed", [("key", text), ("node_id", text), ("state", text), ("view", text),
      ("expires_at", real)])]

/-- `_MIGRATIONS`: the columns that came later. -/
def migrations : List (String × String) :=
  [("request_logs", "api_key_name"), ("api_keys", "rpm_limit"), ("api_keys", "token_quota"),
    ("api_keys", "quota_period"), ("nodes", "engines"), ("nodes", "api_url")]

/-- `SKIP_TABLES`. -/
def skipTables : List String :=
  ["leader_lease", "draining", "instances_live", "nodes", "assignments", "instance_observed"]

/-- `_pg_columns`: the schema has been made in the target by then. -/
def columnsOf (table : String) : Dict Column := (schema.get table).getD []

/-! ## The source -/

/-- A table of a SQLite database. -/
structure SourceTable where
  columns : List String
  rows : List Row

/-- A SQLite database that the store made: its tables are of the schema, an older one lacks columns
that came later, and `id`, an `INTEGER PRIMARY KEY`, is an integer in every row. -/
structure Source where
  tables : Dict SourceTable
  unique : tables.Unique
  known : ∀ p ∈ tables, ∃ cs, schema.get p.1 = some cs ∧
    (∀ name ∈ p.2.columns, name ∈ cs.keys) ∧
    ∀ name ∈ cs.keys, name ∉ p.2.columns → (p.1, name) ∈ migrations
  absent : ∀ p ∈ tables, ∀ r ∈ p.2.rows, ∀ name, name ∉ p.2.columns → r name = .null
  ids : ∀ p ∈ tables, ∀ r ∈ p.2.rows, "id" ∈ p.2.columns → ∃ n, r "id" = .int n

/-- The rows of a table, none if there is no such table. -/
def Source.rows (src : Source) (table : String) : List Row :=
  ((src.tables.get table).map (·.rows)).getD []

/-! ## Coercion -/

/-- What Python makes of a number in a text, and of an integer as a float; `none` where it raises. -/
structure Conversions where
  floatOfInt : Int → Option PyFloat
  floatOfText : String → Option PyFloat
  intOfText : String → Option Int

/-- `int(x)` of a float. -/
def truncate (x : PyFloat) : Int := if 0 ≤ x.value then x.value.floor else x.value.ceil

/-- `_coerce`, by the declared type. -/
def coerce (py : Conversions) : ColumnType → Value → Option Value
  | _, .null => some .null
  | .real, .float x => some (.float x)
  | .real, .int n => (py.floatOfInt n).map .float
  | .real, .text s => (py.floatOfText s).map .float
  | .identity, .int n | .integer, .int n => some (.int n)
  | .identity, .float x | .integer, .float x => some (.int (truncate x))
  | .identity, .text s | .integer, .text s => (py.intOfText s).map .int
  | .text, v => some v

/-- The values of a row at `cols`, and what the statement makes of the other columns; `none` where a
coercion raises. -/
def copyRow (py : Conversions) (cs : Dict Column) (cols : List String) (r : Row) : Option Row := do
  let given ← cols.mapM fun name =>
    (coerce py (((cs.get name).map (·.type)).getD .text) (r name)).map (name, ·)
  return fun name => match Dict.get given name with
    | some v => v
    | none => ((cs.get name).map (·.default)).getD .null

/-! ## The target -/

/-- What the tables of the target hold, and which id each hands out next. -/
structure Target where
  rows : String → List Row
  next : String → Int

/-- The id in a row. -/
def idOf (r : Row) : Option Int :=
  match r "id" with
  | .int n => some n
  | _ => none

/-- `COALESCE(MAX(id), 0)`. -/
def maxId (rows : List Row) : Int := (rows.filterMap idOf).max?.getD 0

/-- What the script sends, to the target or (`read`) to the source. An `INSERT` of a row whose values
could not be coerced is not sent. -/
inductive Statement where
  | columns (table : String)
  | count (table : String)
  | wipe (table : String)
  | read (table : String)
  | insert (table : String) (row : Option Row)
  | setval (table : String)

namespace Statement

def table : Statement → String
  | .columns t | .count t | .wipe t | .read t | .insert t _ | .setval t => t

/-- There is something to send. -/
def isSound : Statement → Bool
  | .insert _ none => false
  | _ => true

end Statement

/-- The effect of a statement. An id that is given does not move the identity. -/
def Target.apply (db : Target) : Statement → Target
  | .columns _ | .count _ | .read _ | .insert _ none => db
  | .wipe t => ⟨Function.update db.rows t [], Function.update db.next t 1⟩
  | .insert t (some r) => { db with rows := Function.update db.rows t (db.rows t ++ [r]) }
  | .setval t =>
    { db with next := Function.update db.next t (max (maxId (db.rows t)) 1 + 1) }

/-! ## The script -/

/-- What the script finds: whether there is a source, whether the target can be opened and its schema
made, what the target is, and which statements are taken. -/
structure Setup where
  sourceExists : Bool := true
  connects : Bool := true
  postgres : Bool := true
  takes : Nat → Target → Statement → Bool

/-- How the script ends: with a copy, with a `SystemExit`, or with another exception. -/
inductive Outcome where
  | copied | refused | raised
  deriving DecidableEq, Repr

namespace Source

variable (src : Source) (py : Conversions)

/-- The tables that are copied, `ORDER BY name`. -/
def copied : List String :=
  ((src.tables.keys.filter fun t => t ∉ skipTables).insertionSort (· ≤ ·)).filter fun t =>
    ¬ (columnsOf t).isEmpty

/-- The columns that are copied: those of the first row that the target has. -/
def copiedColumns (table : String) : List String :=
  (((src.tables.get table).map (·.columns)).getD []).filter fun name => (columnsOf table).has name

/-- The statements that copy a table. -/
def copyTable (table : String) : List Statement :=
  let rows := src.rows table
  .read table :: if rows = [] then [] else
    (rows.map fun r => .insert table (copyRow py (columnsOf table) (src.copiedColumns table) r)) ++
      if (columnsOf table).has "id" then [.setval table] else []

/-- The statements from the first that writes. -/
def script (wipe : Bool) : List Statement :=
  (if wipe then src.copied.map .wipe else []) ++ src.copied.flatMap (src.copyTable py)

/-- What is asked of the target before. -/
def questions : List Statement :=
  ((src.tables.keys.filter fun t => t ∉ skipTables).insertionSort (· ≤ ·)).map .columns ++
    src.copied.map .count

end Source

/-- Execute statements on the target. -/
def Setup.execute (setup : Setup) (n : Nat) (db : Target) (script : List Statement) : Bool × Target :=
  Script.execute Target.apply (fun n db s => s.isSound && setup.takes n db s) n db script

/-- `migrate`. -/
def migrate (setup : Setup) (py : Conversions) (src : Source) (wipe : Bool) (db : Target) :
    Outcome × Target :=
  if !setup.sourceExists then (.refused, db)
  else if !setup.connects then (.raised, db)
  else if !setup.postgres then (.refused, db)
  else if !(setup.execute 0 db src.questions).1 then (.raised, db)
  else if !wipe && src.copied.any fun t => ¬ (db.rows t).isEmpty then (.refused, db)
  else
    let run := setup.execute src.questions.length db (src.script py wipe)
    (if run.1 then .copied else .raised, run.2)

/-! ## One row -/

section Rows

variable {py : Conversions} {cs : Dict Column} {cols : List String} {r r' : Row}

/-- The copy of a row with these columns: its values, as the types of the columns have them, and
NULL at every other column. -/
structure Copied (py : Conversions) (cs : Dict Column) (cols : List String) (r r' : Row) : Prop where
  values : ∀ name ∈ cols, ∀ c, cs.get name = some c → coerce py c.type (r name) = some (r' name)
  absent : ∀ name, name ∉ cols → r' name = .null

/-- The values that a statement gives, by their columns. -/
theorem get_given {f : String → Option Value} {given : Dict Value}
    (h : cols.mapM (fun name => (f name).map (name, ·)) = some given) (name : String) :
    given.get name = if name ∈ cols then f name else none := by
  induction cols generalizing given with
  | nil =>
    cases h
    rfl
  | cons c cols ih =>
    rw [List.mapM_cons] at h
    obtain ⟨p, hp, h⟩ := Option.bind_eq_some_iff.mp h
    obtain ⟨v, hv, rfl⟩ := Option.map_eq_some_iff.mp hp
    obtain ⟨rest, hrest, h⟩ := Option.bind_eq_some_iff.mp h
    obtain rfl := Option.some.inj h
    rw [Dict.get_cons, ih hrest]
    by_cases hname : name = c
    · subst hname
      rw [if_pos rfl, if_pos List.mem_cons_self, hv]
    · have hiff : name ∈ c :: cols ↔ name ∈ cols := by
        rw [List.mem_cons, or_iff_right hname]
      simp only [if_neg hname, hiff]

/-- What came later has no default. -/
theorem default_of_migrations : ∀ m ∈ migrations,
    (((columnsOf m.1).get m.2).map (·.default)).getD .null = .null := by decide +kernel

theorem copied_of_copyRow (hcols : ∀ name ∈ cs.keys, name ∉ cols →
    ((cs.get name).map (·.default)).getD .null = .null) (h : copyRow py cs cols r = some r') :
    Copied py cs cols r r' := by
  unfold copyRow at h
  obtain ⟨given, hgiven, h⟩ := Option.bind_eq_some_iff.mp h
  obtain rfl := Option.some.inj h
  constructor
  · intro name hname c hc
    have hget := get_given hgiven name
    rw [if_pos hname, hc, Option.map_some, Option.getD_some] at hget
    cases hv : coerce py c.type (r name) with
    | none =>
      have hsome := mapM_isSome_iff.mp (by rw [hgiven]; rfl) name hname
      rw [hc, Option.map_some, Option.getD_some, hv] at hsome
      cases hsome
    | some v =>
      rw [hv] at hget
      simp only [hget]
  · intro name hname
    have hget := get_given hgiven name
    rw [if_neg hname] at hget
    simp only [hget]
    by_cases hkey : name ∈ cs.keys
    · exact hcols name hkey hname
    · rw [Dict.get_eq_none_iff.mpr hkey]
      rfl

end Rows

/-! ## The statements of a table -/

section Tables

variable {src : Source} {py : Conversions} {db : Target} {t : String} {stmts : List Statement}

/-- What the statements insert into a table. -/
def inserted (t : String) (stmts : List Statement) : List (Option Row) :=
  stmts.filterMap fun s => match s with
    | .insert t' r => if t' = t then some r else none
    | _ => none

theorem inserted_append (stmts stmts' : List Statement) :
    inserted t (stmts ++ stmts') = inserted t stmts ++ inserted t stmts' := List.filterMap_append

/-- A statement about another table leaves the rows and the next id of a table. -/
theorem apply_other {s : Statement} (h : s.table ≠ t) (db : Target) :
    (db.apply s).rows t = db.rows t ∧ (db.apply s).next t = db.next t := by
  have hne : t ≠ s.table := Ne.symm h
  unfold Target.apply
  split
  · exact ⟨rfl, rfl⟩
  · exact ⟨rfl, rfl⟩
  · exact ⟨rfl, rfl⟩
  · exact ⟨rfl, rfl⟩
  · exact ⟨Function.update_of_ne hne _ _, Function.update_of_ne hne _ _⟩
  · exact ⟨Function.update_of_ne hne _ _, rfl⟩
  · exact ⟨rfl, Function.update_of_ne hne _ _⟩

theorem foldl_other (h : ∀ s ∈ stmts, s.table ≠ t) (db : Target) :
    (stmts.foldl Target.apply db).rows t = db.rows t ∧
      (stmts.foldl Target.apply db).next t = db.next t :=
  ⟨@Script.frame _ _ _ _ (fun db => db.rows t) _ (fun s hs db => (apply_other (h s hs) db).1) db,
    @Script.frame _ _ _ _ (fun db => db.next t) _ (fun s hs db => (apply_other (h s hs) db).2) db⟩

/-- A statement adds to a table what it inserts, unless it wipes it. -/
theorem rows_apply {s : Statement} (hsound : s.isSound = true) (hwipe : s ≠ .wipe t) :
    ((db.apply s).rows t).map some = (db.rows t).map some ++ inserted t [s] := by
  by_cases htable : s.table = t
  · cases s with
    | columns t' => exact (List.append_nil _).symm
    | count t' => exact (List.append_nil _).symm
    | wipe t' => exact absurd (congrArg Statement.wipe htable) hwipe
    | read t' => exact (List.append_nil _).symm
    | setval t' => exact (List.append_nil _).symm
    | insert t' r =>
      obtain rfl : t' = t := htable
      cases r with
      | none => cases hsound
      | some r =>
        simp only [Target.apply, Function.update_self, List.map_append, inserted,
          List.filterMap_cons, List.filterMap_nil, if_true, List.map_cons, List.map_nil]
  · have hnone : inserted t [s] = [] := by
      cases s with
      | insert t' r => exact List.filterMap_cons_none (if_neg htable)
      | _ => rfl
    rw [(apply_other htable db).1, hnone, List.append_nil]

theorem rows_foldl (hsound : ∀ s ∈ stmts, s.isSound = true) (hwipe : .wipe t ∉ stmts)
    (db : Target) : ((stmts.foldl Target.apply db).rows t).map some =
      (db.rows t).map some ++ inserted t stmts := by
  induction stmts generalizing db with
  | nil => exact (List.append_nil _).symm
  | cons s stmts ih =>
    obtain ⟨hs, hsound⟩ := List.forall_mem_cons.mp hsound
    rw [List.mem_cons, not_or] at hwipe
    obtain ⟨hne, hwipe⟩ := hwipe
    rw [List.foldl_cons, ih hsound hwipe, rows_apply hs (Ne.symm hne), List.append_assoc,
      ← inserted_append]
    rfl

/-- Wiping leaves nothing of an empty target. -/
theorem rows_wiped (hempty : ∀ t, db.rows t = []) (h : ∀ s ∈ stmts, ∃ t, s = .wipe t) :
    ∀ t, (stmts.foldl Target.apply db).rows t = [] := by
  induction stmts generalizing db with
  | nil => exact hempty
  | cons s stmts ih =>
    obtain ⟨⟨t', rfl⟩, hrest⟩ := List.forall_mem_cons.mp h
    refine ih (fun t => ?_) hrest
    by_cases ht : t = t'
    · subst ht
      exact Function.update_self _ _ _
    · exact (Function.update_of_ne ht _ _).trans (hempty t)

theorem inserted_wipes (h : ∀ s ∈ stmts, ∃ t, s = .wipe t) : inserted t stmts = [] := by
  refine List.filterMap_eq_nil_iff.mpr fun s hs => ?_
  obtain ⟨t', rfl⟩ := h s hs
  rfl

/-- The statements that copy a table. -/
theorem mem_copyTable {s : Statement} (h : s ∈ src.copyTable py t) :
    s = .read t ∨ (∃ r, s = .insert t r) ∨ s = .setval t := by
  unfold Source.copyTable at h
  rcases List.mem_cons.mp h with hread | h
  · exact Or.inl hread
  · split_ifs at h
    · cases h
    · rcases List.mem_append.mp h with hinsert | hsetval
      · obtain ⟨r, -, rfl⟩ := List.mem_map.mp hinsert
        exact Or.inr (Or.inl ⟨_, rfl⟩)
      · exact Or.inr (Or.inr (List.mem_singleton.mp hsetval))
    · rw [List.append_nil] at h
      obtain ⟨r, -, rfl⟩ := List.mem_map.mp h
      exact Or.inr (Or.inl ⟨_, rfl⟩)

theorem table_copyTable {s : Statement} (h : s ∈ src.copyTable py t) : s.table = t := by
  rcases mem_copyTable h with rfl | ⟨r, rfl⟩ | rfl
  · rfl
  · rfl
  · rfl

theorem wipe_notMem_copyTable {t' : String} : .wipe t' ∉ src.copyTable py t := by
  intro h
  rcases mem_copyTable h with h | ⟨r, h⟩ | h
  · cases h
  · cases h
  · cases h

/-- What is inserted into a table to copy it. -/
theorem inserted_copyTable : inserted t (src.copyTable py t) =
    (src.rows t).map fun r => copyRow py (columnsOf t) (src.copiedColumns t) r := by
  have hrows : ∀ rows : List Row, inserted t (rows.map fun r =>
      .insert t (copyRow py (columnsOf t) (src.copiedColumns t) r)) =
        rows.map fun r => copyRow py (columnsOf t) (src.copiedColumns t) r := by
    intro rows
    unfold inserted
    rw [List.filterMap_map]
    have hfun : (fun s : Statement => match s with
        | .insert t' r => if t' = t then some r else none
        | _ => none) ∘ (fun r : Row =>
          Statement.insert t (copyRow py (columnsOf t) (src.copiedColumns t) r)) =
        fun r => some (copyRow py (columnsOf t) (src.copiedColumns t) r) := by
      funext r
      exact if_pos rfl
    rw [hfun, List.filterMap_eq_map']
  unfold Source.copyTable
  dsimp only
  rw [← List.singleton_append, inserted_append]
  split_ifs with hnone hid
  · rw [hnone]
    rfl
  · rw [inserted_append, hrows]
    exact List.append_nil _
  · rw [List.append_nil, hrows]
    rfl

end Tables

/-! ## The whole script -/

section Scripts

variable {src : Source} {py : Conversions} {db : Target} {t : String} {wipe : Bool}
  {done : List Statement}

theorem nodup_copied : src.copied.Nodup :=
  ((List.perm_insertionSort _ _).nodup_iff.mpr (src.unique.filter _)).filter _

theorem schema_columns : ∀ p ∈ schema, p.2.isEmpty = false := by decide +kernel

/-- The tables that are copied are those of the source that are not skipped. -/
theorem mem_copied : t ∈ src.copied ↔ t ∈ src.tables.keys ∧ t ∉ skipTables := by
  unfold Source.copied
  rw [List.mem_filter, List.mem_insertionSort, List.mem_filter, decide_eq_true_eq,
    decide_eq_true_eq]
  refine and_iff_left_of_imp fun h => ?_
  obtain ⟨p, hp, rfl⟩ := List.mem_map.mp h.1
  obtain ⟨cs, hcs, -⟩ := src.known p hp
  unfold columnsOf
  rw [hcs, Option.getD_some, schema_columns _ (Dict.mem_of_get hcs)]
  exact Bool.false_ne_true

theorem inserted_flatMap {tables : List String} (hnodup : tables.Nodup) :
    inserted t (tables.flatMap (src.copyTable py)) = if t ∈ tables then
      (src.rows t).map fun r => copyRow py (columnsOf t) (src.copiedColumns t) r else [] := by
  induction tables with
  | nil => rfl
  | cons t' tables ih =>
    obtain ⟨hnew, hnodup⟩ := List.nodup_cons.mp hnodup
    rw [List.flatMap_cons, inserted_append, ih hnodup]
    by_cases ht : t = t'
    · subst ht
      rw [inserted_copyTable, if_neg hnew, if_pos List.mem_cons_self, List.append_nil]
    · have hother : inserted t (src.copyTable py t') = [] := by
        refine List.filterMap_eq_nil_iff.mpr fun s hs => ?_
        rcases mem_copyTable hs with rfl | ⟨r, rfl⟩ | rfl
        · rfl
        · exact if_neg (Ne.symm ht)
        · rfl
      rw [hother, List.nil_append]
      simp only [List.mem_cons, ht, false_or]

theorem wipes (wipe : Bool) : ∀ s ∈ (if wipe then src.copied.map .wipe else [] : List Statement),
    ∃ t, s = .wipe t := by
  intro s hs
  split_ifs at hs
  · obtain ⟨t, -, rfl⟩ := List.mem_map.mp hs
    exact ⟨t, rfl⟩
  · cases hs

/-- What the script inserts into a table. -/
theorem inserted_script : inserted t (src.script py wipe) = if t ∈ src.copied then
    (src.rows t).map fun r => copyRow py (columnsOf t) (src.copiedColumns t) r else [] := by
  unfold Source.script
  rw [inserted_append, inserted_wipes (wipes wipe), List.nil_append, inserted_flatMap nodup_copied]

/-- **A beginning of the script** leaves in an empty target what it inserts. -/
theorem rows_done (hempty : ∀ t, db.rows t = []) (hdone : done <+: src.script py wipe)
    (hsound : ∀ s ∈ done, s.isSound = true) :
    ((done.foldl Target.apply db).rows t).map some = inserted t done := by
  unfold Source.script at hdone
  rcases List.prefix_or_prefix_of_prefix hdone (List.prefix_append _ _) with hwiping | ⟨copying, rfl⟩
  · have hwipes : ∀ s ∈ done, ∃ t, s = .wipe t := fun s hs =>
      wipes wipe s (hwiping.subset hs)
    rw [rows_wiped hempty hwipes, inserted_wipes hwipes]
    rfl
  · have hcopying := (List.prefix_append_right_inj _).mp hdone
    have hnowipe : .wipe t ∉ copying := fun hmem => by
      obtain ⟨t', -, hs⟩ := List.mem_flatMap.mp (hcopying.subset hmem)
      exact wipe_notMem_copyTable hs
    rw [List.foldl_append, rows_foldl (fun s hs => hsound s (List.mem_append_right _ hs)) hnowipe,
      rows_wiped hempty (wipes wipe), inserted_append, inserted_wipes (wipes wipe)]
    rfl

theorem rows_of_mem {p : String × SourceTable} (hp : p ∈ src.tables) : src.rows p.1 = p.2.rows := by
  unfold Source.rows
  rw [Dict.get_of_mem src.unique hp]
  rfl

/-- All columns of a source are copied. -/
theorem copiedColumns_of_mem {p : String × SourceTable} (hp : p ∈ src.tables) :
    src.copiedColumns p.1 = p.2.columns := by
  obtain ⟨cs, hcs, hknown, -⟩ := src.known p hp
  unfold Source.copiedColumns columnsOf
  rw [Dict.get_of_mem src.unique hp, hcs, Option.map_some, Option.getD_some, Option.getD_some]
  exact List.filter_eq_self.mpr fun name hname => Dict.has_iff.mpr (hknown name hname)

theorem copied_row {p : String × SourceTable} (hp : p ∈ src.tables) {r r' : Row}
    (h : copyRow py (columnsOf p.1) (src.copiedColumns p.1) r = some r') :
    Copied py (columnsOf p.1) p.2.columns r r' := by
  rw [copiedColumns_of_mem hp] at h
  refine copied_of_copyRow (fun name hkey hname => ?_) h
  obtain ⟨cs, hcs, -, hlater⟩ := src.known p hp
  have hcolumns : columnsOf p.1 = cs := by rw [columnsOf, hcs, Option.getD_some]
  rw [hcolumns] at hkey
  exact default_of_migrations _ (hlater name hkey hname)

/-- A copy of a row has an id only in a table with ids. -/
theorem has_id_of_copied {p : String × SourceTable} (hp : p ∈ src.tables) {r r' : Row} {n : Int}
    (h : Copied py (columnsOf p.1) p.2.columns r r') (hn : idOf r' = some n) :
    (columnsOf p.1).has "id" = true := by
  obtain ⟨cs, hcs, hknown, -⟩ := src.known p hp
  have hcolumns : columnsOf p.1 = cs := by rw [columnsOf, hcs, Option.getD_some]
  by_contra hno
  rw [hcolumns, Dict.has_iff] at hno
  unfold idOf at hn
  rw [h.absent "id" fun hmem => hno (hknown _ hmem)] at hn
  cases hn

/-- What a beginning of the script leaves in a table: copies of its first rows. -/
theorem begun_table (hempty : ∀ t, db.rows t = []) (hdone : done <+: src.script py wipe)
    (hsound : ∀ s ∈ done, s.isSound = true) {p : String × SourceTable} (hp : p ∈ src.tables)
    (hskip : p.1 ∉ skipTables) : List.Forall₂ (Copied py (columnsOf p.1) p.2.columns)
      (p.2.rows.take ((done.foldl Target.apply db).rows p.1).length)
      ((done.foldl Target.apply db).rows p.1) := by
  have hrows := @rows_done _ _ _ p.1 _ _ hempty hdone hsound
  have hbegins : inserted p.1 done <+: inserted p.1 (src.script py wipe) := hdone.filterMap _
  rw [inserted_script, if_pos (mem_copied.mpr ⟨List.mem_map_of_mem hp, hskip⟩), rows_of_mem hp,
    ← hrows] at hbegins
  exact (forall₂_take hbegins).imp fun _ _ h => copied_row hp h

/-- In the other tables it leaves nothing. -/
theorem begun_other (hempty : ∀ t, db.rows t = []) (hdone : done <+: src.script py wipe)
    (hsound : ∀ s ∈ done, s.isSound = true) (ht : t ∉ src.copied) :
    (done.foldl Target.apply db).rows t = [] := by
  have hrows := @rows_done _ _ _ t _ _ hempty hdone hsound
  have hbegins : inserted t done <+: inserted t (src.script py wipe) := hdone.filterMap _
  rw [inserted_script, if_neg ht, List.prefix_nil] at hbegins
  rw [hbegins] at hrows
  exact List.map_eq_nil_iff.mp hrows

/-! ### New ids -/

theorem le_maxId {rows : List Row} {r : Row} {n : Int} (hr : r ∈ rows) (hid : idOf r = some n) :
    n ≤ maxId rows := by
  have hmem : n ∈ rows.filterMap idOf := List.mem_filterMap.mpr ⟨r, hr, hid⟩
  unfold maxId
  cases hmax : (rows.filterMap idOf).max? with
  | none =>
    rw [List.max?_eq_none_iff] at hmax
    rw [hmax] at hmem
    cases hmem
  | some m => exact (List.max?_eq_some_iff.mp hmax).2 n hmem

/-- The last statement for a table with ids. -/
theorem copyTable_eq (hrows : src.rows t ≠ []) (hid : (columnsOf t).has "id" = true) :
    ∃ before, src.copyTable py t = before ++ [.setval t] := by
  refine ⟨.read t :: (src.rows t).map fun r =>
    .insert t (copyRow py (columnsOf t) (src.copiedColumns t) r), ?_⟩
  unfold Source.copyTable
  dsimp only
  rw [if_neg hrows, if_pos hid]
  rfl

/-- After the whole script a table with rows hands out ids beyond those of its rows. -/
theorem next_script (hrows : src.rows t ≠ []) (hid : (columnsOf t).has "id" = true)
    (ht : t ∈ src.copied) (db : Target) :
    ((src.script py wipe).foldl Target.apply db).next t =
      max (maxId (((src.script py wipe).foldl Target.apply db).rows t)) 1 + 1 := by
  obtain ⟨earlier, later, htables⟩ := List.append_of_mem ht
  have hnodup := @nodup_copied src
  rw [htables] at hnodup
  have hlater : t ∉ later := (List.nodup_cons.mp (List.nodup_append.mp hnodup).2.1).1
  obtain ⟨before, hcopy⟩ := @copyTable_eq src py t hrows hid
  -- the statements after the `setval` of the table are about others
  have hothers : ∀ s ∈ later.flatMap (src.copyTable py), s.table ≠ t := by
    intro s hs htable
    obtain ⟨t', ht', hs⟩ := List.mem_flatMap.mp hs
    rw [table_copyTable hs] at htable
    exact hlater (htable ▸ ht')
  unfold Source.script
  rw [htables, List.flatMap_append, List.flatMap_cons, hcopy, List.foldl_append, List.foldl_append,
    List.foldl_append, List.foldl_append, (foldl_other hothers _).1, (foldl_other hothers _).2]
  exact Function.update_self _ _ _

end Scripts

/-! ## The migration -/

section Migration

variable {setup : Setup} {py : Conversions} {src : Source} {wipe : Bool} {db db' : Target}
  {outcome : Outcome}

/-- The target has the rows of the source, in its tables that are not skipped, and hands out new
ids. -/
structure Migrated (py : Conversions) (src : Source) (db : Target) : Prop where
  rows : ∀ p ∈ src.tables, p.1 ∉ skipTables →
    List.Forall₂ (Copied py (columnsOf p.1) p.2.columns) p.2.rows (db.rows p.1)
  others : ∀ t, t ∉ src.tables.keys ∨ t ∈ skipTables → db.rows t = []
  next : ∀ t, ∀ r ∈ db.rows t, ∀ n, idOf r = some n → n < db.next t

/-- Of each of these tables the target has the first rows. -/
structure Begun (py : Conversions) (src : Source) (db : Target) : Prop where
  rows : ∀ p ∈ src.tables, p.1 ∉ skipTables → ∃ k,
    List.Forall₂ (Copied py (columnsOf p.1) p.2.columns) (p.2.rows.take k) (db.rows p.1)
  others : ∀ t, t ∉ src.tables.keys ∨ t ∈ skipTables → db.rows t = []

theorem begun_done {done : List Statement} (hempty : ∀ t, db.rows t = [])
    (hdone : done <+: src.script py wipe) (hsound : ∀ s ∈ done, s.isSound = true) :
    Begun py src (done.foldl Target.apply db) := by
  refine ⟨fun p hp hskip => ⟨_, begun_table hempty hdone hsound hp hskip⟩, fun t ht => ?_⟩
  refine begun_other hempty hdone hsound fun hcopied => ?_
  obtain ⟨hkey, hskip⟩ := mem_copied.mp hcopied
  exact ht.elim (fun h => h hkey) hskip

theorem migrated_script (hempty : ∀ t, db.rows t = [])
    (hsound : ∀ s ∈ src.script py wipe, s.isSound = true) :
    Migrated py src ((src.script py wipe).foldl Target.apply db) := by
  have hbegun := begun_done hempty List.prefix_rfl hsound
  have hall : ∀ p ∈ src.tables, p.1 ∉ skipTables →
      List.Forall₂ (Copied py (columnsOf p.1) p.2.columns) p.2.rows
        (((src.script py wipe).foldl Target.apply db).rows p.1) := by
    intro p hp hskip
    have hrows := @rows_done _ _ _ p.1 _ _ hempty List.prefix_rfl hsound
    rw [inserted_script, if_pos (mem_copied.mpr ⟨List.mem_map_of_mem hp, hskip⟩),
      rows_of_mem hp] at hrows
    have hlength := congrArg List.length hrows
    rw [List.length_map, List.length_map] at hlength
    have hbegun := begun_table hempty List.prefix_rfl hsound hp hskip
    rwa [hlength, List.take_length] at hbegun
  refine ⟨hall, hbegun.others, fun t r hr n hn => ?_⟩
  by_cases ht : t ∈ src.copied
  · obtain ⟨hkey, hskip⟩ := mem_copied.mp ht
    obtain ⟨p, hp, rfl⟩ := List.mem_map.mp hkey
    have hcopied := hall p hp hskip
    have hrows : src.rows p.1 ≠ [] := by
      intro hnil
      rw [rows_of_mem hp] at hnil
      rw [hnil, List.forall₂_nil_left_iff] at hcopied
      rw [hcopied] at hr
      cases hr
    obtain ⟨old, -, hrow⟩ := exists_of_forall₂ hcopied hr
    have hid := has_id_of_copied hp hrow hn
    rw [next_script hrows hid ht]
    have hle := le_maxId hr hn
    omega
  · rw [hbegun.others t (by
      rw [mem_copied, not_and_or, not_not] at ht
      exact ht)] at hr
    cases hr

/-! ### What reads the same -/

/-- A value of this type. -/
def Value.fits : ColumnType → Value → Bool
  | _, .null => true
  | .identity, .int _ | .integer, .int _ | .real, .float _ | .text, .text _ => true
  | _, _ => false

/-- Every value of the source has the type of its column. -/
def Source.Typed (src : Source) : Prop :=
  ∀ p ∈ src.tables, ∀ r ∈ p.2.rows, ∀ name ∈ p.2.columns, ∀ c,
    (columnsOf p.1).get name = some c → (r name).fits c.type = true

/-- A value of the type of its column is kept. -/
theorem coerce_of_fits {type : ColumnType} {v : Value} (h : v.fits type = true) :
    coerce py type v = some v := by
  cases v with
  | null => cases type <;> rfl
  | int n =>
    cases type with
    | identity => rfl
    | integer => rfl
    | real => cases h
    | text => cases h
  | float x =>
    cases type with
    | real => rfl
    | identity => cases h
    | integer => cases h
    | text => cases h
  | text s =>
    cases type with
    | text => rfl
    | identity => cases h
    | integer => cases h
    | real => cases h

/-- The copy of a row of the types of its columns is the row. -/
theorem Copied.eq {p : String × SourceTable} (hp : p ∈ src.tables) (htyped : src.Typed)
    {r r' : Row} (hr : r ∈ p.2.rows) (h : Copied py (columnsOf p.1) p.2.columns r r') : r' = r := by
  funext name
  by_cases hname : name ∈ p.2.columns
  · obtain ⟨cs, hcs, hknown, -⟩ := src.known p hp
    have hcolumns : columnsOf p.1 = cs := by rw [columnsOf, hcs, Option.getD_some]
    obtain ⟨c, hc⟩ := Option.isSome_iff_exists.mp (Dict.has_iff.mpr (hknown name hname))
    rw [← hcolumns] at hc
    have hkept := h.values name hname c hc
    rw [coerce_of_fits (htyped p hp r hr name hname c hc)] at hkept
    exact (Option.some.inj hkept).symm
  · rw [h.absent name hname, src.absent p hp r hr name hname]

theorem Migrated.rows_eq (h : Migrated py src db) (htyped : src.Typed) {t : String}
    (ht : t ∉ skipTables) : db.rows t = src.rows t := by
  by_cases hkey : t ∈ src.tables.keys
  · obtain ⟨p, hp, rfl⟩ := List.mem_map.mp hkey
    have hcopied := h.rows p hp ht
    rw [rows_of_mem hp]
    have heq : List.Forall₂ (fun r r' => r = r') p.2.rows (db.rows p.1) := by
      refine List.forall₂_iff_get.mpr ⟨hcopied.length_eq, fun i hi hi' => ?_⟩
      exact (Copied.eq hp htyped (List.get_mem _ _) (hcopied.get hi hi')).symm
    exact (List.forall₂_eq_eq_eq ▸ heq : p.2.rows = db.rows p.1).symm
  · rw [h.others t (Or.inl hkey)]
    unfold Source.rows
    rw [Dict.get_eq_none_iff.mpr hkey]
    rfl

/-- What a test of a value in Python says. -/
def Value.truthy : Value → Bool
  | .null => false
  | .int n => n ≠ 0
  | .float x => x.value ≠ 0
  | .text s => s ≠ ""

/-- `get_current_overlay`, before `json.loads`. -/
def currentOverlay (rows : String → List Row) : Option Value :=
  let newest := (rows "config_versions").insertionSort fun r s =>
    (idOf s).getD 0 ≤ (idOf r).getD 0
  newest.head?.map fun r => r "overlay"

/-- A lookup by a hash, of what is not revoked. -/
def activeByHash (rows : List Row) (column hash : String) (selected : List String) :
    Option (List Value) :=
  match rows.find? fun r => r column = .text hash with
  | some r => if (r "revoked").truthy then none else some (selected.map r)
  | none => none

/-- `get_active_api_key_by_hash`. -/
def activeApiKeyByHash (rows : String → List Row) (hash : String) : Option (List Value) :=
  activeByHash (rows "api_keys") "key_hash" hash
    ["id", "name", "prefix", "revoked", "rpm_limit", "token_quota", "quota_period"]

/-- `get_active_operator_by_hash`. -/
def activeOperatorByHash (rows : String → List Row) (hash : String) : Option (List Value) :=
  activeByHash (rows "operators") "token_hash" hash ["id", "label", "prefix", "role", "revoked"]

/-- `list_instance_desired`, as pairs: the keys are distinct. -/
def instanceDesired (rows : String → List Row) : List (Value × Value) :=
  (rows "instance_desired").map fun r => (r "key", r "desired")

/-- What the backend and the routers read of two stores is the same. -/
structure SameReads (rows rows' : String → List Row) : Prop where
  overlay : currentOverlay rows' = currentOverlay rows
  apiKeys : activeApiKeyByHash rows' = activeApiKeyByHash rows
  operators : activeOperatorByHash rows' = activeOperatorByHash rows
  desired : instanceDesired rows' = instanceDesired rows

theorem Migrated.sameReads (h : Migrated py src db) (htyped : src.Typed) :
    SameReads src.rows db.rows := by
  have hversions : db.rows "config_versions" = src.rows "config_versions" :=
    h.rows_eq htyped (by decide)
  have hkeys : db.rows "api_keys" = src.rows "api_keys" := h.rows_eq htyped (by decide)
  have hoperators : db.rows "operators" = src.rows "operators" := h.rows_eq htyped (by decide)
  have hdesired : db.rows "instance_desired" = src.rows "instance_desired" :=
    h.rows_eq htyped (by decide)
  constructor
  · unfold currentOverlay
    rw [hversions]
  · unfold activeApiKeyByHash
    rw [hkeys]
  · unfold activeOperatorByHash
    rw [hoperators]
  · unfold instanceDesired
    rw [hdesired]

/-- **A migration into an empty target.** A copy has every row, with its id, with its values as the
types of the columns have them, and with NULL where the source has no column; it reads as the source
does where the values had these types, and it hands out new ids beyond the copied ones. A refusal
leaves the target alone. An error leaves in each table copies of the first rows. -/
theorem migrate_spec (hempty : ∀ t, db.rows t = [])
    (h : migrate setup py src wipe db = (outcome, db')) :
    (outcome = .copied → Migrated py src db' ∧
      (src.Typed → (∀ t, t ∉ skipTables → db'.rows t = src.rows t) ∧
        SameReads src.rows db'.rows)) ∧
      (outcome = .refused → db' = db) ∧ (outcome = .raised → Begun py src db') := by
  have hnothing : Begun py src db :=
    @begun_done _ _ wipe _ [] hempty List.nil_prefix fun _ hs => by cases hs
  unfold migrate at h
  split_ifs at h with hexists hconnects hpostgres hasked hrefuse
  · cases h
    exact ⟨fun h => (by cases h), fun _ => rfl, fun h => (by cases h)⟩
  · cases h
    exact ⟨fun h => (by cases h), fun h => (by cases h), fun _ => hnothing⟩
  · cases h
    exact ⟨fun h => (by cases h), fun _ => rfl, fun h => (by cases h)⟩
  · cases h
    exact ⟨fun h => (by cases h), fun h => (by cases h), fun _ => hnothing⟩
  · cases h
    exact ⟨fun h => (by cases h), fun _ => rfl, fun h => (by cases h)⟩
  · obtain ⟨done, hdone, hstate, hall, htaken⟩ := Script.execute_spec Target.apply
      (fun n db s => s.isSound && setup.takes n db s) src.questions.length db (src.script py wipe)
    have hsound : ∀ s ∈ done, s.isSound = true := by
      intro s hs
      obtain ⟨n, t, htakes⟩ := htaken s hs
      exact (Bool.and_eq_true_iff.mp htakes).1
    obtain ⟨rfl, rfl⟩ := Prod.mk.inj h
    rw [show (setup.execute src.questions.length db (src.script py wipe)).2 =
      done.foldl Target.apply db from hstate]
    refine ⟨fun hcopied => ?_, fun hrefused => ?_, fun _ => begun_done hempty hdone hsound⟩
    · have hrun : (setup.execute src.questions.length db (src.script py wipe)).1 = true := by
        by_contra hno
        rw [if_neg hno] at hcopied
        cases hcopied
      obtain rfl := hall hrun
      have hmigrated : Migrated py src _ := migrated_script hempty hsound
      exact ⟨hmigrated, fun htyped =>
        ⟨fun t ht => hmigrated.rows_eq htyped ht, hmigrated.sameReads htyped⟩⟩
    · split_ifs at hrefused

end Migration

/-! ## Three sources -/

/-- A row with these values. -/
def rowOf (d : Dict Value) : Row := fun name => (d.get name).getD .null

/-- A source of one table with these columns and rows. -/
def Source.ofTable (table : String) (columns : List String) (rows : List (Dict Value))
    (hknown : ∃ cs, schema.get table = some cs ∧ (∀ name ∈ columns, name ∈ cs.keys) ∧
      ∀ name ∈ cs.keys, name ∉ columns → (table, name) ∈ migrations)
    (hkeys : ∀ d ∈ rows, ∀ name ∈ d.keys, name ∈ columns)
    (hids : ∀ d ∈ rows, (idOf (rowOf d)).isSome) : Source where
  tables := [(table, ⟨columns, rows.map rowOf⟩)]
  unique := List.nodup_singleton _
  known := by
    intro p hp
    obtain rfl := List.mem_singleton.mp hp
    exact hknown
  absent := by
    intro p hp r hr name hname
    obtain rfl := List.mem_singleton.mp hp
    obtain ⟨d, hd, rfl⟩ := List.mem_map.mp hr
    unfold rowOf
    rw [Dict.get_eq_none_iff.mpr fun hkey => hname (hkeys d hd name hkey)]
    rfl
  ids := by
    intro p hp r hr _
    obtain rfl := List.mem_singleton.mp hp
    obtain ⟨d, hd, rfl⟩ := List.mem_map.mp hr
    obtain ⟨n, hn⟩ := Option.isSome_iff_exists.mp (hids d hd)
    unfold idOf at hn
    split at hn
    · exact ⟨_, by assumption⟩
    · cases hn

/-- Keys of a database from before keys had limits. -/
def olderKeys : Source :=
  .ofTable "api_keys" ["id", "name", "key_hash", "prefix", "created_at", "last_used_at", "revoked"]
    [[("id", .int 7), ("name", .text "ci"), ("key_hash", .text "h1"), ("prefix", .text "sk-x"),
      ("created_at", .float ⟨1000, "1000.0"⟩), ("revoked", .int 0)]]
    ⟨_, rfl, by decide +kernel, by decide +kernel⟩ (by decide +kernel) (by decide +kernel)

/-- Two keys, the second with a quota of five thousand million tokens. -/
def quotaKeys : Source :=
  .ofTable "api_keys" ["id", "name", "key_hash", "prefix", "created_at", "last_used_at", "revoked",
      "rpm_limit", "token_quota", "quota_period"]
    [[("id", .int 1), ("name", .text "ci"), ("key_hash", .text "h1"), ("prefix", .text "sk-x"),
        ("created_at", .float ⟨1000, "1000.0"⟩), ("revoked", .int 0), ("token_quota", .int 1000)],
      [("id", .int 2), ("name", .text "all"), ("key_hash", .text "h2"), ("prefix", .text "sk-y"),
        ("created_at", .float ⟨1000, "1000.0"⟩), ("revoked", .int 0),
        ("token_quota", .int 5000000000)]]
    ⟨_, rfl, by decide +kernel, by decide +kernel⟩ (by decide +kernel) (by decide +kernel)

/-- A request for which the backend reported three and a half tokens. -/
def halfTokens : Source :=
  .ofTable "request_logs" ["id", "ts", "model_key", "instance_id", "path", "status_code",
      "latency_ms", "prompt_tokens", "completion_tokens", "total_tokens", "error", "api_key_name"]
    [[("id", .int 1), ("ts", .float ⟨1000, "1000.0"⟩), ("model_key", .text "g"),
      ("path", .text "/v1/completions"), ("prompt_tokens", .float ⟨7 / 2, "3.5"⟩)]]
    ⟨_, rfl, by decide +kernel, by decide +kernel⟩ (by decide +kernel) (by decide +kernel)

/-- A target whose `INTEGER` has 32 bits. -/
def thirtyTwoBits : Setup where
  takes _ _ s := match s with
    | .insert t (some r) => (columnsOf t).all fun c => match c.2.type, r c.1 with
      | .integer, .int n => -2 ^ 31 ≤ n ∧ n < 2 ^ 31
      | _, _ => true
    | _ => true

/-- Texts are no numbers, and an integer is no float. -/
def noConversions : Conversions := ⟨fun _ => none, fun _ => none, fun _ => none⟩

def emptyTarget : Target := ⟨fun _ => [], fun _ => 1⟩

/-- A migration of one of these into it. -/
def migrated (src : Source) : Outcome × Target :=
  migrate thirtyTwoBits noConversions src false emptyTarget

theorem migrate_spec_older : Migrated noConversions olderKeys (migrated olderKeys).2 ∧
    (olderKeys.Typed → (∀ t, t ∉ skipTables → (migrated olderKeys).2.rows t = olderKeys.rows t) ∧
      SameReads olderKeys.rows (migrated olderKeys).2.rows) :=
  (@migrate_spec thirtyTwoBits noConversions olderKeys false emptyTarget _ _ (fun _ => rfl) rfl).1
    (by decide +kernel)

/-- An error leaves the first key in the target, and three and a half tokens become three. -/
theorem migrate_partial :
    ((migrated quotaKeys).1 = .raised ∧ emptyTarget.rows "api_keys" = [] ∧
      ((migrated quotaKeys).2.rows "api_keys").length = 1) ∧
    (migrated halfTokens).1 = .copied ∧
      (halfTokens.rows "request_logs").map (· "prompt_tokens") = [.float ⟨7 / 2, "3.5"⟩] ∧
      ((migrated halfTokens).2.rows "request_logs").map (· "prompt_tokens") = [.int 3] :=
  ⟨⟨by decide +kernel, rfl, by decide +kernel⟩, by decide +kernel, by decide +kernel,
    by decide +kernel⟩

end Llmops.Store
