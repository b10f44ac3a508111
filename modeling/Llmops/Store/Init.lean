import Llmops.Lib.Ensure
import Llmops.Store.Migrate

/-!
# Processes that start together

The backend's workers and replicas and the router's workers each run `LLMOpsStore.init`
(`llmops_store.py:272-284`) on one database: `executescript(_SCHEMA)`, then `_migrate`. On Postgres the
script runs under an advisory lock, since `CREATE ... IF NOT EXISTS` looks first and writes the
catalog later (`_driver.py:181-194`), and a column is added in one step (`:203-207`). On SQLite a
statement of the script is one step, and a column is looked up before it is added (`:110-114`).

A statement can be refused at any time, and a process can die; its session's lock goes with it. Which
process moves next is open.

* `init_spec`: what holds in every run from an older database;
* `sqlite_collides_iff`: when a start on SQLite can fail by itself.
-/

namespace Llmops.Store

open Lib Lib.Ensure

/-! ## Catalogs -/

/-- The tables with their columns, and the indexes. -/
structure Catalog where
  tables : Dict (List String) := []
  indexes : List String := []

/-- What `init` makes: `CREATE TABLE`, `CREATE INDEX name ON table(columns)`, and `ensure_column`. -/
inductive Command where
  | table (name : String)
  | index (name table : String) (columns : List String)
  | column (table name : String)
  deriving DecidableEq, Repr

/-- The indexes of `_SCHEMA`; each follows its table. -/
def indexes : Dict (List (String × List String)) :=
  [("model_events", [("idx_model_events_key_ts", ["key", "ts"])]),
    ("request_logs", [("idx_request_logs_model_ts", ["model_key", "ts"])]),
    ("api_keys", [("idx_api_keys_hash", ["key_hash"])]),
    ("perf_runs", [("idx_perf_runs_created", ["created_at"])]),
    ("eval_runs", [("idx_eval_runs_created", ["created_at"])]),
    ("operators", [("idx_operators_hash", ["token_hash"])]),
    ("audit_log", [("idx_audit_ts", ["ts"]), ("idx_audit_actor", ["actor"])]),
    ("config_versions", [("idx_config_versions_ts", ["ts"])])]

/-- The statements of `_SCHEMA`. -/
def creates : List Command :=
  schema.flatMap fun p =>
    .table p.1 :: ((indexes.get p.1).getD []).map fun x => .index x.1 p.1 x.2

/-- The calls of `_migrate`. -/
def ensures : List Command := migrations.map fun m => .column m.1 m.2

namespace Catalog

/-- What `IF NOT EXISTS` and `PRAGMA table_info` look for. -/
def has (d : Catalog) : Command → Bool
  | .table t => d.tables.has t
  | .index name _ _ => decide (name ∈ d.indexes)
  | .column t name => ((d.tables.get t).getD []).contains name

/-- What a statement does where that is not there; `none` for an error. -/
def make (d : Catalog) : Command → Option Catalog
  | .table t =>
    if d.tables.has t then none
    else some { d with tables := d.tables.set t (columnsOf t).keys }
  | .index name t columns =>
    (d.tables.get t).bind fun there =>
      if ∀ c ∈ columns, c ∈ there then some { d with indexes := name :: d.indexes } else none
  | .column t name =>
    (d.tables.get t).map fun there => { d with tables := d.tables.set t (there ++ [name]) }

/-- A database of this version or an earlier one: a table that it has lacks at most columns that came
later. -/
def Older (d : Catalog) : Prop :=
  ∀ t there, d.tables.get t = some there →
    ∀ c ∈ (columnsOf t).keys, c ∈ there ∨ (t, c) ∈ migrations

/-- No table is from before a column. -/
def Current (d : Catalog) : Prop :=
  ∀ m ∈ migrations, ∀ there, d.tables.get m.1 = some there → m.2 ∈ there

/-- Everything that the store uses is there. -/
structure Complete (d : Catalog) : Prop where
  tables : ∀ p ∈ schema, ∃ there, d.tables.get p.1 = some there ∧ ∀ c ∈ p.2.keys, c ∈ there
  indexes : ∀ p ∈ schema, ∀ x ∈ (Store.indexes.get p.1).getD [], x.1 ∈ d.indexes

end Catalog

section Catalogs

variable {d d' : Catalog} {c x : Command} {t : String} {there : List String}

/-- A table stays, with its columns, and an index stays. -/
theorem grows (h : d.make c = some d') :
    (∀ t there, d.tables.get t = some there →
      ∃ there', d'.tables.get t = some there' ∧ there ⊆ there') ∧ d.indexes ⊆ d'.indexes := by
  cases c with
  | table t =>
    simp only [Catalog.make] at h
    split_ifs at h with hhas
    cases h
    refine ⟨fun t' there hget => ⟨there, ?_, fun _ hc => hc⟩, fun _ hc => hc⟩
    have hne : t' ≠ t := by
      rintro rfl
      exact hhas (by rw [Dict.has, hget]; rfl)
    exact (Dict.get_set_ne hne).trans hget
  | index name t columns =>
    obtain ⟨there, -, h⟩ := Option.bind_eq_some_iff.mp h
    split_ifs at h
    cases h
    exact ⟨fun t there hget => ⟨there, hget, fun _ hc => hc⟩, List.subset_cons_self ..⟩
  | column t name =>
    obtain ⟨there, hthere, rfl⟩ := Option.map_eq_some_iff.mp h
    refine ⟨fun t' there' hget => ?_, fun _ hc => hc⟩
    by_cases hne : t' = t
    · subst hne
      obtain rfl := Option.some.inj (hthere.symm.trans hget)
      exact ⟨_, Dict.get_set_self, List.subset_append_left ..⟩
    · exact ⟨there', (Dict.get_set_ne hne).trans hget, fun _ hc => hc⟩

theorem has_column : d.has (.column t name) = true ↔
    ∃ there, d.tables.get t = some there ∧ name ∈ there := by
  simp only [Catalog.has, List.contains_iff_mem]
  cases d.tables.get t with
  | none => simp
  | some there => simp

theorem has_table : d.has (.table t) = true ↔ ∃ there, d.tables.get t = some there :=
  Option.isSome_iff_exists

/-- The things that `init` makes. -/
def catalog : Things Catalog Command where
  has := Catalog.has
  make := Catalog.make
  has_make {d d' c} h := by
    cases c with
    | table t =>
      simp only [Catalog.make] at h
      split_ifs at h
      cases h
      exact has_table.mpr ⟨_, Dict.get_set_self⟩
    | index name t columns =>
      obtain ⟨there, -, h⟩ := Option.bind_eq_some_iff.mp h
      split_ifs at h
      cases h
      exact decide_eq_true (List.mem_cons_self ..)
    | column t name =>
      obtain ⟨there, hthere, rfl⟩ := Option.map_eq_some_iff.mp h
      exact has_column.mpr ⟨_, Dict.get_set_self, List.mem_concat_self⟩
  kept {d d' c x} h hx := by
    obtain ⟨htables, hindexes⟩ := grows h
    cases x with
    | table t =>
      obtain ⟨there, hget⟩ := has_table.mp hx
      obtain ⟨there', hget', -⟩ := htables t there hget
      exact has_table.mpr ⟨there', hget'⟩
    | index name t columns => exact decide_eq_true (hindexes (of_decide_eq_true hx))
    | column t name =>
      obtain ⟨there, hget, hname⟩ := has_column.mp hx
      obtain ⟨there', hget', hsub⟩ := htables t there hget
      exact has_column.mpr ⟨there', hget', hsub hname⟩

/-- Where a table comes from. -/
theorem get_make (h : d.make c = some d') (hget : d'.tables.get t = some there) :
    there = (columnsOf t).keys ∨ ∃ before, d.tables.get t = some before ∧ before ⊆ there := by
  cases c with
  | table t' =>
    simp only [Catalog.make] at h
    split_ifs at h
    cases h
    dsimp only at hget
    rw [Dict.get_set] at hget
    split_ifs at hget with ht
    · subst ht
      exact .inl (Option.some.inj hget).symm
    · exact .inr ⟨there, hget, fun _ hc => hc⟩
  | index name t' columns =>
    obtain ⟨_, -, h⟩ := Option.bind_eq_some_iff.mp h
    split_ifs at h
    cases h
    exact .inr ⟨there, hget, fun _ hc => hc⟩
  | column t' name =>
    obtain ⟨before, hbefore, rfl⟩ := Option.map_eq_some_iff.mp h
    dsimp only at hget
    rw [Dict.get_set] at hget
    split_ifs at hget with ht
    · subst ht
      cases hget
      exact .inr ⟨before, hbefore, List.subset_append_left ..⟩
    · exact .inr ⟨there, hget, fun _ hc => hc⟩

theorem Catalog.Older.make (h : d.Older) (hmake : d.make c = some d') : d'.Older := by
  intro t there hget c hc
  obtain rfl | ⟨before, hbefore, hsub⟩ := get_make hmake hget
  · exact .inl hc
  · exact (h t before hbefore c hc).imp (fun hmem => hsub hmem) id

theorem migrations_columns : ∀ m ∈ migrations, m.2 ∈ (columnsOf m.1).keys := by decide +kernel

theorem Catalog.Current.make (h : d.Current) (hmake : d.make c = some d') : d'.Current := by
  intro m hm there hget
  obtain rfl | ⟨before, hbefore, hsub⟩ := get_make hmake hget
  · exact migrations_columns m hm
  · exact hsub (h m hm before hbefore)

/-! ## The order of the statements -/

/-- What a statement needs comes before it, and no index is on a column that came later. -/
def Command.supported (before : List Command) : Command → Bool
  | .table _ => true
  | .index _ t columns =>
    decide (.table t ∈ before) &&
      columns.all fun c => decide (c ∈ (columnsOf t).keys ∧ (t, c) ∉ migrations)
  | .column t _ => decide (.table t ∈ before)

/-- The same of each of several statements. -/
def supportedFrom (before : List Command) : List Command → Bool
  | [] => true
  | c :: cs => c.supported before && supportedFrom (before ++ [c]) cs

theorem supported_of {before xs rest cs : List Command} (h : supportedFrom before cs = true)
    (hcs : cs = xs ++ c :: rest) : c.supported (before ++ xs) = true := by
  induction cs generalizing before xs with
  | nil => simp at hcs
  | cons y cs ih =>
    rw [supportedFrom, Bool.and_eq_true] at h
    cases xs with
    | nil =>
      cases hcs
      rw [List.append_nil]
      exact h.1
    | cons x xs =>
      cases hcs
      have hrest := ih h.2 rfl
      rwa [List.append_assoc] at hrest

theorem supported_init : supportedFrom [] (creates ++ ensures) = true := by decide +kernel

/-- **A statement finds what it needs** in an older database, after those before it. -/
theorem isSome_make {before : List Command} (hd : d.Older) (hsupported : c.supported before = true)
    (hbefore : ∀ y ∈ before, d.has y = true) (hc : d.has c = false) : (d.make c).isSome := by
  cases c with
  | table t =>
    have hnot : ¬ d.tables.has t = true := by
      rw [show d.tables.has t = false from hc]
      exact Bool.false_ne_true
    simp only [Catalog.make, if_neg hnot, Option.isSome_some]
  | index name t columns =>
    rw [Command.supported, Bool.and_eq_true, List.all_eq_true] at hsupported
    obtain ⟨there, hget⟩ := has_table.mp (hbefore _ (of_decide_eq_true hsupported.1))
    have hcolumns : ∀ c ∈ columns, c ∈ there := by
      intro c hc
      obtain ⟨hcol, hnot⟩ := of_decide_eq_true (hsupported.2 c hc)
      exact (hd t there hget c hcol).resolve_right hnot
    simp only [Catalog.make, hget, Option.bind_some, if_pos hcolumns, Option.isSome_some]
  | column t name =>
    obtain ⟨there, hget⟩ := has_table.mp (hbefore _ (of_decide_eq_true hsupported))
    simp only [Catalog.make, hget, Option.map_some, Option.isSome_some]

end Catalogs

/-! ## What a process runs -/

inductive Dialect where
  | sqlite
  | postgres
  deriving DecidableEq, Repr

/-- `make_driver`: an empty URL is none. -/
def makeDriver (dbUrl : Option String) : Dialect :=
  if dbUrl.any (· ≠ "") then .postgres else .sqlite

/-- `init`. -/
def initProgram : Dialect → List (Instr Command)
  | .sqlite => creates.map .atomic ++ ensures.map .checked
  | .postgres => .lock :: (creates.map .checked ++ .unlock :: ensures.map .atomic)

/-- Any number of processes before their `init`. -/
def starting {ι : Type*} (dialect : Dialect) (d : Catalog) : State ι Catalog Command :=
  ⟨d, none, fun _ => .next (initProgram dialect)⟩

section Sound

variable {d : Catalog} {dialect : Dialect} {cs : List Command}

theorem thing_atomic : ∀ x ∈ cs.map (Instr.atomic), ∃ c, x.thing = some c := by
  intro x hx
  obtain ⟨c, -, rfl⟩ := List.mem_map.mp hx
  exact ⟨c, rfl⟩

theorem thing_checked : ∀ x ∈ cs.map (Instr.checked), ∃ c, x.thing = some c := by
  intro x hx
  obtain ⟨c, -, rfl⟩ := List.mem_map.mp hx
  exact ⟨c, rfl⟩

theorem things_atomic : things (cs.map .atomic) = cs := by
  unfold things
  rw [List.filterMap_map]
  exact List.filterMap_some

theorem things_checked : things (cs.map .checked) = cs := by
  unfold things
  rw [List.filterMap_map]
  exact List.filterMap_some

theorem things_init (dialect : Dialect) :
    things (initProgram dialect) = creates ++ ensures := by
  cases dialect with
  | sqlite =>
    unfold initProgram
    rw [things_append, things_atomic, things_checked]
  | postgres =>
    change things (creates.map .checked ++ .unlock :: ensures.map .atomic) = _
    rw [things_append, things_checked]
    exact congrArg (creates ++ ·) things_atomic

theorem bracketed_init : Bracketed false (initProgram dialect) := by
  cases dialect with
  | sqlite =>
    unfold initProgram
    rw [bracketed_append thing_atomic, ← List.append_nil (ensures.map _),
      bracketed_append thing_checked]
    rfl
  | postgres =>
    refine ⟨fun _ => rfl, nofun, (bracketed_append thing_checked).mpr ⟨nofun, fun _ => rfl, ?_⟩⟩
    rw [← List.append_nil (ensures.map _), bracketed_append thing_atomic]
    rfl

theorem tagged_sqlite : tagged false (initProgram .sqlite) =
    (creates.map fun c => (false, .atomic c)) ++ ensures.map fun c => (false, .checked c) := by
  unfold initProgram
  rw [tagged_append thing_atomic, ← List.append_nil (ensures.map Instr.checked),
    tagged_append thing_checked, List.map_map, List.map_map]
  exact congrArg _ (List.append_nil _)

theorem tagged_postgres : tagged false (initProgram .postgres) =
    (false, .lock) :: ((creates.map fun c => (true, .checked c)) ++
      (true, .unlock) :: ensures.map fun c => (false, .atomic c)) := by
  unfold initProgram
  rw [tagged, Instr.after, tagged_append thing_checked, tagged, Instr.after,
    ← List.append_nil (ensures.map Instr.atomic), tagged_append thing_atomic, List.map_map,
    List.map_map, tagged, List.append_nil]
  rfl

theorem checked_postgres {b : Bool} {c : Command}
    (h : (b, .checked c) ∈ tagged false (initProgram .postgres)) : b = true ∧ c ∈ creates := by
  rw [tagged_postgres, List.mem_cons, List.mem_append, List.mem_cons] at h
  obtain h | h | h | h := h
  · cases h
  · obtain ⟨c, hc, h⟩ := List.mem_map.mp h
    cases h
    exact ⟨rfl, hc⟩
  · cases h
  · obtain ⟨c, -, h⟩ := List.mem_map.mp h
    cases h

theorem checked_sqlite {b : Bool} {c : Command}
    (h : (b, .checked c) ∈ tagged false (initProgram .sqlite)) : b = false ∧ c ∈ ensures := by
  rw [tagged_sqlite, List.mem_append] at h
  obtain h | h := h
  · obtain ⟨c, -, h⟩ := List.mem_map.mp h
    cases h
  · obtain ⟨c, hc, h⟩ := List.mem_map.mp h
    cases h
    exact ⟨rfl, hc⟩

theorem outside_postgres {x : Instr Command} {c : Command} (hx : x.thing = some c)
    (h : (false, x) ∈ tagged false (initProgram .postgres)) : c ∈ ensures := by
  rw [tagged_postgres, List.mem_cons, List.mem_append, List.mem_cons] at h
  obtain h | h | h | h := h
  · cases h
    cases hx
  · obtain ⟨_, -, h⟩ := List.mem_map.mp h
    cases h
  · cases h
  · obtain ⟨_, hc, h⟩ := List.mem_map.mp h
    cases h
    cases hx
    exact hc

theorem creates_or {c : Command} (h : c ∈ creates) :
    (∃ t, c = .table t) ∨ ∃ n t cols, c = .index n t cols := by
  obtain ⟨p, -, h⟩ := List.mem_flatMap.mp h
  obtain rfl | h := List.mem_cons.mp h
  · exact .inl ⟨p.1, rfl⟩
  · obtain ⟨x, -, rfl⟩ := List.mem_map.mp h
    exact .inr ⟨_, _, _, rfl⟩

/-- A column that is added is neither a table nor an index. -/
theorem apart_columns {c y : Command} {d d' : Catalog} (hc : c ∈ creates) (hy : y ∈ ensures)
    (hmake : d.make y = some d') (hnot : d.has c = false) : d'.has c = false := by
  obtain ⟨m, -, rfl⟩ := List.mem_map.mp hy
  obtain ⟨there, hthere, rfl⟩ := Option.map_eq_some_iff.mp hmake
  obtain ⟨t, rfl⟩ | ⟨n, t, cols, rfl⟩ := creates_or hc
  · have hne : t ≠ m.1 := by
      rintro rfl
      rw [has_table.mpr ⟨there, hthere⟩] at hnot
      cases hnot
    change ((d.tables.set m.1 (there ++ [m.2])).get t).isSome = false
    rw [Dict.get_set_ne hne]
    exact hnot
  · exact hnot

/-- **The program of a process** finds what it needs in an older database; on SQLite two of them can
collide at a column that a table lacks. -/
theorem sound_init (P : Catalog → Prop)
    (hP : ∀ {d d' c}, P d → catalog.make d c = some d' → P d') (Collides : Command → Prop)
    (hcollides : ∀ m ∈ migrations, ∀ {d there}, d.Older ∧ P d → d.tables.get m.1 = some there →
      m.2 ∉ there → dialect = .sqlite → Collides (.column m.1 m.2)) :
    Sound catalog (fun d => d.Older ∧ P d) Collides (initProgram dialect) := by
  have hsupported {before rest : List (Instr Command)} {x : Instr Command} {c : Command}
      (hprog : initProgram dialect = before ++ x :: rest) (hx : x.thing = some c) :
      c.supported (things before) = true := by
    have hsplit : creates ++ ensures = things before ++ c :: things rest := by
      rw [← things_init dialect, hprog, things_append]
      exact congrArg _ (List.filterMap_cons_some hx)
    exact supported_of supported_init hsplit
  refine ⟨bracketed_init, fun _ hd _ hmake => ⟨hd.1.make hmake, hP hd.2 hmake⟩,
    fun hprog hx hd hbefore hc => isSome_make hd.1 (hsupported hprog hx) hbefore hc,
    fun hc hx hthing hmake hnot => ?_, fun {before c rest d} hprog hc hd hbefore hnot => ?_⟩
  · cases dialect with
    | sqlite => cases (checked_sqlite hc).1
    | postgres => exact apart_columns (checked_postgres hc).2 (outside_postgres hthing hx) hmake hnot
  · cases dialect with
    | sqlite =>
      obtain ⟨m, hm, rfl⟩ := List.mem_map.mp (checked_sqlite hc).2
      obtain ⟨there, hget⟩ := has_table.mp (hbefore _ (of_decide_eq_true (hsupported hprog rfl)))
      refine hcollides m hm hd hget (fun hmem => ?_) rfl
      have hhas : catalog.has d (.column m.1 m.2) = true := has_column.mpr ⟨there, hget, hmem⟩
      rw [hhas] at hnot
      cases hnot
    | postgres => cases (checked_postgres hc).1

theorem schema_unique : schema.Unique := by decide +kernel

/-- A database that has everything that `init` makes. -/
theorem complete_of_has (hd : d.Older) (h : ∀ c ∈ creates ++ ensures, d.has c = true) :
    d.Complete := by
  have hcreates (p : String × Dict Column) (hp : p ∈ schema) : ∀ c ∈ Command.table p.1 ::
      ((indexes.get p.1).getD []).map fun x => .index x.1 p.1 x.2, d.has c = true := fun c hc =>
    h c (List.mem_append_left _ (List.mem_flatMap.mpr ⟨p, hp, hc⟩))
  refine ⟨fun p hp => ?_, fun p hp x hx => ?_⟩
  · obtain ⟨there, hget⟩ := has_table.mp (hcreates p hp _ (List.mem_cons_self ..))
    have hcolumns : columnsOf p.1 = p.2 := by
      unfold columnsOf
      rw [Dict.get_of_mem schema_unique hp]
      rfl
    refine ⟨there, hget, fun c hc => ?_⟩
    obtain hmem | hm := hd p.1 there hget c (hcolumns ▸ hc)
    · exact hmem
    · obtain ⟨there', hget', hmem⟩ := has_column.mp
        (h (.column p.1 c) (List.mem_append_right _ (List.mem_map.mpr ⟨(p.1, c), hm, rfl⟩)))
      obtain rfl := Option.some.inj (hget.symm.trans hget')
      exact hmem
  · exact of_decide_eq_true (hcreates p hp (.index x.1 p.1 x.2)
      (List.mem_cons_of_mem _ (List.mem_map.mpr ⟨x, hx, rfl⟩)))

end Sound

/-! ## Every run -/

section Runs

variable {ι : Type*} [DecidableEq ι] {d : Catalog} {dialect : Dialect} {s : State ι Catalog Command}

/-- Several processes from the database `d`, at any time. -/
structure Initialised (dialect : Dialect) (d : Catalog) (s : State ι Catalog Command) : Prop where
  /-- Who is through has all tables, columns and indexes. -/
  complete : ∀ i, s.pc i = .next [] → s.db.Complete
  /-- Who fails was refused, or on SQLite another process added the column that it had not found. -/
  fails : ∀ i cause, s.pc i = .failed cause → cause = .refused ∨
    dialect = .sqlite ∧ ∃ m ∈ migrations, cause = .duplicate (.column m.1 m.2) ∧
      s.db.has (.column m.1 m.2) = true
  /-- Who is not through can move, or waits for one that can. -/
  unblocked : ∀ i, (s.pc i).Over ∨ (s.go catalog i).isSome ∨
    ∃ j, s.lock = some j ∧ (s.go catalog j).isSome
  /-- Nothing that was there is lost. -/
  kept : ∀ c, d.has c = true → s.db.has c = true

/-- **`init`, by any number of processes at once**, in every run; and how often each of them moves. -/
theorem init_spec (hd : d.Older) {es : List (Event ι)}
    (hrun : run (step catalog) (starting dialect d) es = some s) :
    Initialised dialect d s ∧
      ∀ i, (es.filter fun e => e.who = i).length ≤ 2 * (initProgram dialect).length + 3 := by
  have hsound : Sound catalog (fun d => d.Older ∧ True)
      (fun c => dialect = .sqlite ∧ ∃ m ∈ migrations, c = .column m.1 m.2) (initProgram dialect) :=
    sound_init _ (fun _ _ => trivial) _ fun m hm _ _ _ _ _ hdialect => ⟨hdialect, m, hm, rfl⟩
  have hreach : Reach (step catalog) anyEvent (starting dialect d) s := Reach.of_run hrun
  have hinv := (Inv.start (ι := ι) hsound ⟨hd, trivial⟩).run hsound hreach
  refine ⟨⟨fun i hi => complete_of_has hinv.good.1 fun c hc => ?_, fun i cause hi => ?_,
    hinv.enabled, fun c hc => ?_⟩, fun i => ?_⟩
  · exact hinv.done hi ((things_init dialect).symm ▸ hc)
  · obtain rfl | ⟨c, rfl, ⟨hdialect, m, hm, rfl⟩, hc⟩ := hinv.cause hi
    · exact .inl rfl
    · exact .inr ⟨hdialect, m, hm, rfl, hc⟩
  · exact hreach.invariant (I := fun s => s.db.has c = true) hc
      fun ha _ he => has_step (K := catalog) he ha
  · exact (Nat.le_add_right _ _).trans (count_run hrun i)

/-- A database from before `api_key_name` and the quotas, with the other tables not there yet. -/
def beforeQuotas : Catalog where
  tables := [("request_logs", ["id", "ts", "model_key", "instance_id", "path", "status_code",
      "latency_ms", "prompt_tokens", "completion_tokens", "total_tokens", "error"]),
    ("api_keys", ["id", "name", "key_hash", "prefix", "created_at", "last_used_at", "revoked"])]

theorem older_beforeQuotas : beforeQuotas.Older := by
  intro t there hget
  have hmem := Dict.mem_of_get hget
  have hall : ∀ p ∈ beforeQuotas.tables, ∀ c ∈ (columnsOf p.1).keys,
      c ∈ p.2 ∨ (p.1, c) ∈ migrations := by decide +kernel
  exact hall _ hmem

/-- Two workers on Postgres: one makes everything but the columns, the other finds it. -/
def twoWorkers : List (Event Bool) :=
  List.replicate 52 (.go false) ++ List.replicate 34 (.go true) ++ List.replicate 6 (.go false)

theorem init_spec_two :
    ∃ s, run (step catalog) (starting .postgres beforeQuotas) twoWorkers = some s ∧
    Initialised .postgres beforeQuotas s ∧
    ∀ i, (twoWorkers.filter fun e => e.who = i).length ≤ 2 * (initProgram .postgres).length + 3 := by
  have hrun : (run (step catalog) (starting .postgres beforeQuotas) twoWorkers).isSome = true := by
    decide +kernel
  obtain ⟨s, hs⟩ := Option.isSome_iff_exists.mp hrun
  exact ⟨s, hs, init_spec older_beforeQuotas hs⟩

/-- A table that lacks a column keeps lacking it while tables and indexes are made. -/
theorem lacks_make {m : String × String} {c : Command} {d' : Catalog} (hc : c ∈ creates)
    (hnot : d.has c = false) (hmake : d.make c = some d')
    (h : ∃ there, d.tables.get m.1 = some there ∧ m.2 ∉ there) :
    ∃ there, d'.tables.get m.1 = some there ∧ m.2 ∉ there := by
  obtain ⟨there, hget, hm⟩ := h
  obtain ⟨t, rfl⟩ | ⟨n, t, cols, rfl⟩ := creates_or hc
  · simp only [Catalog.make] at hmake
    split_ifs at hmake
    cases hmake
    refine ⟨there, (Dict.get_set_ne ?_).trans hget, hm⟩
    rintro rfl
    rw [has_table.mpr ⟨there, hget⟩] at hnot
    cases hnot
  · obtain ⟨_, -, hmake⟩ := Option.bind_eq_some_iff.mp hmake
    split_ifs at hmake
    cases hmake
    exact ⟨there, hget, hm⟩

/-- The first of several things that is not there. -/
theorem exists_first_missing {cs : List Command} {c : Command} (hc : c ∈ cs)
    (hnot : d.has c = false) : ∃ before first rest, cs = before ++ first :: rest ∧
      (∀ y ∈ before, d.has y = true) ∧ d.has first = false := by
  induction cs with
  | nil => cases hc
  | cons y cs ih =>
    cases hy : d.has y with
    | false => exact ⟨[], y, cs, rfl, nofun, hy⟩
    | true =>
      have hmem : c ∈ cs := by
        obtain rfl | hmem := List.mem_cons.mp hc
        · rw [hy] at hnot
          cases hnot
        · exact hmem
      obtain ⟨before, first, rest, rfl, hbefore, hfirst⟩ := ih hmem
      exact ⟨y :: before, first, rest, rfl, List.forall_mem_cons.mpr ⟨hy, hbefore⟩, hfirst⟩

variable (ι)

/-- **When a start on SQLite can fail by itself**: exactly if some table is from before a column. -/
theorem sqlite_collides_iff [Nontrivial ι] (hd : d.Older) :
    (∃ (s : State ι Catalog Command) (i : ι) (c : Command),
      Reach (step catalog) anyEvent (starting .sqlite d) s ∧ s.pc i = .failed (.duplicate c)) ↔
      ¬ d.Current := by
  constructor
  · rintro ⟨s, i, c, hreach, hi⟩ hcurrent
    have hsound : Sound catalog (fun d => d.Older ∧ d.Current) (fun _ => False)
        (initProgram .sqlite) :=
      sound_init _ (fun hP hmake => hP.make hmake) _ fun m hm _ _ hP hget hnot _ =>
        hnot (hP.2 m hm _ hget)
    have hinv := (Inv.start (ι := ι) hsound ⟨hd, hcurrent⟩).run hsound hreach
    obtain h | ⟨c, -, hfalse, -⟩ := hinv.cause hi
    · cases h
    · exact hfalse
  · intro hnot
    simp only [Catalog.Current, not_forall] at hnot
    obtain ⟨m, hm, there, hget, hlacks⟩ := hnot
    obtain ⟨i, j, hij⟩ := exists_pair_ne ι
    have hsound : Sound catalog (fun d => d.Older ∧ True) (fun _ => True) (initProgram .sqlite) :=
      sound_init _ (fun _ _ => trivial) _ fun _ _ _ _ _ _ _ _ => trivial
    have hatomic : ∀ x ∈ creates.map Instr.atomic, ∃ c, x = .atomic c := by
      intro x hx
      obtain ⟨c, -, rfl⟩ := List.mem_map.mp hx
      exact ⟨c, rfl⟩
    have hQ {c : Command} {d d' : Catalog} (hc : .atomic c ∈ creates.map Instr.atomic)
        (hno : d.has c = false) (hmake : d.make c = some d') :=
      lacks_make (m := m) ((List.mem_map_of_injective fun _ _ => Instr.atomic.inj).mp hc) hno hmake
    -- both run the script, one after the other
    have hinv₀ := Inv.start (ι := ι) hsound ⟨hd, trivial⟩
    obtain ⟨d₁, hd₁, hreach₁⟩ :=
      reach_made (i := i) hsound hinv₀ rfl hatomic hQ ⟨there, hget, hlacks⟩
    have hinv₁ := hinv₀.run hsound hreach₁
    obtain ⟨d₂, ⟨there₂, hget₂, hlacks₂⟩, hreach₂⟩ := reach_made (i := j) hsound hinv₁
      (goto_pc_of_ne hij.symm _) hatomic hQ hd₁
    have hinv₂ := hinv₁.run hsound hreach₂
    -- of the columns the first one that is not there
    have hmissing : d₂.has (.column m.1 m.2) = false := by
      refine Bool.eq_false_of_not_eq_true fun hhas => ?_
      obtain ⟨there', hget', hmem⟩ := has_column.mp hhas
      exact hlacks₂ (Option.some.inj (hget₂.symm.trans hget') ▸ hmem)
    have hmem : Command.column m.1 m.2 ∈ ensures := List.mem_map.mpr ⟨m, hm, rfl⟩
    obtain ⟨before, first, rest, hsplit, hbefore, hfirst⟩ := exists_first_missing hmem hmissing
    have hprog : ensures.map Instr.checked =
        before.map Instr.checked ++ .checked first :: rest.map Instr.checked := by
      rw [show ensures = _ from hsplit, List.map_append, List.map_cons]
    have hpast : ∀ x ∈ before.map Instr.checked, ∃ c, x.thing = some c ∧ d₂.has c = true := by
      intro x hx
      obtain ⟨c, hc, rfl⟩ := List.mem_map.mp hx
      exact ⟨c, rfl, hbefore c hc⟩
    obtain ⟨s, hreach, hs⟩ := exists_collision hsound hinv₂ hij
      ((goto_pc_of_ne hij _).trans ((goto_pc _ i _).trans (congrArg _ hprog)))
      ((goto_pc _ j _).trans (congrArg _ hprog)) hpast hfirst
    exact ⟨s, j, first, hreach₁.trans (hreach₂.trans hreach), hs⟩

/-- The backend and the router on a file from before the quotas. -/
theorem sqlite_collides_two : ∃ (s : State Bool Catalog Command) (i : Bool) (c : Command),
    Reach (step catalog) anyEvent (starting .sqlite beforeQuotas) s ∧
      s.pc i = .failed (.duplicate c) :=
  (sqlite_collides_iff Bool older_beforeQuotas).mpr fun h =>
    absurd (h ("request_logs", "api_key_name") (by decide +kernel) _ rfl) (by decide +kernel)

end Runs

end Llmops.Store
