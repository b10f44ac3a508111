import Llmops.Lib.Json
import Llmops.Lib.Scrape

/-!
# The metrics of the backend (`api/metrics.py`)

`render_metrics` writes the loads of the groups, their autoscale policies and the counters of the
autoscaler, each family under its `# HELP` and `# TYPE` lines. The names of the groups are those of the
configuration, any text. `float` is a parameter; a number is written with the characters of the format.

* `render_scraped`: what a scrape reads is what the dicts hold, each series once.
-/

namespace Llmops.Prometheus

open Lib Lib.Exposition

/-! ## The text -/

/-- `s.replace(old, new)`, for one character. -/
def replaceChar (old : Char) (new : Text) (t : Text) : Text :=
  t.flatMap fun c => if c = old then new else [c]

/-- `_esc`. -/
def esc (v : String) : String :=
  .ofList (replaceChar '\n' [backslash, 'n'] (replaceChar quote [backslash, quote]
    (replaceChar backslash [backslash, backslash] v.toList)))

/-- `_num`: `float` raises for what is no number. -/
def num (float : Json → Option PyFloat) (v : Json) : PyFloat := (float v).getD ⟨0, "0.0"⟩

/-- `sorted(d.items())`. -/
def sortedItems {κ α : Type*} [LinearOrder κ] (d : List (κ × α)) : List (κ × α) :=
  d.insertionSort fun p q => p.1 ≤ q.1

/-- A line with a sample. -/
def sampleLine (metric : String) (labels : List (String × String)) (value : String) : String :=
  metric ++ "\x7b" ++ ",".intercalate (labels.map fun p => p.1 ++ "=\"" ++ esc p.2 ++ "\"") ++
    "\x7d " ++ value

/-- The lines of one metric. -/
structure Family where
  metric : String
  help : Option String
  type : String
  rows : List (List (String × String) × String)

def Family.lines (f : Family) : List String :=
  (f.help.map fun help => "# HELP " ++ f.metric ++ " " ++ help).toList ++
    ("# TYPE " ++ f.metric ++ " " ++ f.type) :: f.rows.map fun r => sampleLine f.metric r.1 r.2

/-- `_GAUGES`. -/
def gauges : List (String × String × String) :=
  [("llmops_group_ready_replicas", "ready_replicas", "Ready (serving) replicas in the group"),
   ("llmops_group_asleep_replicas", "asleep_replicas", "Level-1 asleep replicas (VRAM freed)"),
   ("llmops_group_stopped_replicas", "stopped_replicas", "Stopped replicas"),
   ("llmops_group_waiting_total", "waiting_total",
     "Queued (waiting) requests across ready replicas"),
   ("llmops_group_running_total", "running_total",
     "In-flight (running) requests across ready replicas"),
   ("llmops_group_waiting_per_replica", "waiting_per_replica",
     "Queue depth per ready replica (scale-up signal)"),
   ("llmops_group_kv_cache_avg", "kv_avg", "Mean KV-cache utilisation over ready replicas (0..1)")]

/-- The bounds and the threshold of a policy. -/
def bounds : List (String × String) :=
  [("llmops_group_min_ready", "min_ready"), ("llmops_group_max_ready", "max_ready"),
   ("llmops_group_scale_up_waiting", "scale_up_waiting")]

/-- `1 if (a and a.get("enabled")) else 0`. -/
def enabled (a : Option (Dict Json)) : Nat :=
  if a.any fun a => !a.isEmpty && (a.get "enabled").any Json.truthy then 1 else 0

/-- `a.get(field)`, unless the group has no policy or the policy has no value. -/
def bound (a : Option (Dict Json)) (field : String) : Option Json :=
  match a.bind fun a => a.get field with
  | none | some .null => none
  | some v => some v

/-- A count per group and verb, or per group and reason. -/
abbrev Counts := List ((String ×ₗ String) × Int)

section Render

variable (float : Json → Option PyFloat)

def gaugeFamily (loadStats : Dict (Dict Json)) (g : String × String × String) : Family where
  metric := g.1
  help := some g.2.2
  type := "gauge"
  rows := (sortedItems loadStats).map fun (group, st) =>
    ([("group", group)], (num float ((st.get g.2.1).getD .null)).repr)

def enabledFamily (autoscale : Dict (Option (Dict Json))) : Family where
  metric := "llmops_group_autoscale_enabled"
  help := some "Autoscaling enabled (1) or off (0)"
  type := "gauge"
  rows := (sortedItems autoscale).map fun (group, a) => ([("group", group)], toString (enabled a))

def boundFamily (autoscale : Dict (Option (Dict Json))) (b : String × String) : Family where
  metric := b.1
  help := none
  type := "gauge"
  rows := (sortedItems autoscale).filterMap fun (group, a) =>
    (bound a b.2).map fun v => ([("group", group)], (num float v).repr)

def counterFamily (metric help label : String) (counts : Counts) : Family where
  metric := metric
  help := some help
  type := "counter"
  rows := (sortedItems counts).map fun (key, n) =>
    ([("group", (ofLex key).1), (label, (ofLex key).2)], toString n)

/-- The families, in the order of the text. -/
def families (loadStats : Dict (Dict Json)) (autoscale : Dict (Option (Dict Json)))
    (actions blocked : Counts) : List Family :=
  gauges.map (gaugeFamily float loadStats) ++ [enabledFamily autoscale] ++
    bounds.map (boundFamily float autoscale) ++
    [counterFamily "llmops_autoscale_actions_total" "Autoscaler actions taken" "action" actions,
     counterFamily "llmops_autoscale_blocked_total"
      "Scale-up attempts blocked (e.g. by VRAM preflight)" "reason" blocked]

/-- `render_metrics`. -/
def renderMetrics (loadStats : Dict (Dict Json)) (autoscale : Dict (Option (Dict Json)))
    (actions blocked : Counts) : String :=
  "\n".intercalate ((families float loadStats autoscale actions blocked).flatMap Family.lines) ++ "\n"

/-! ## What the dicts hold -/

/-- The series that the dicts hold, each with its value. -/
inductive Exposes (loadStats : Dict (Dict Json)) (autoscale : Dict (Option (Dict Json)))
    (actions blocked : Counts) : String → List (String × String) → String → Prop
  | gauge {metric field help group st} (hg : (metric, field, help) ∈ gauges)
      (hst : loadStats.get group = some st) :
      Exposes loadStats autoscale actions blocked metric [("group", group)]
        (num float ((st.get field).getD .null)).repr
  | enabled {group a} (ha : autoscale.get group = some a) :
      Exposes loadStats autoscale actions blocked "llmops_group_autoscale_enabled"
        [("group", group)] (toString (enabled a))
  | bound {metric field group a v} (hb : (metric, field) ∈ bounds)
      (ha : autoscale.get group = some a) (hv : bound a field = some v) :
      Exposes loadStats autoscale actions blocked metric [("group", group)] (num float v).repr
  | action {group verb n} (h : (toLex (group, verb), n) ∈ actions) :
      Exposes loadStats autoscale actions blocked "llmops_autoscale_actions_total"
        [("group", group), ("action", verb)] (toString n)
  | blocked {group reason n} (h : (toLex (group, reason), n) ∈ blocked) :
      Exposes loadStats autoscale actions blocked "llmops_autoscale_blocked_total"
        [("group", group), ("reason", reason)] (toString n)

end Render

/-! ## One family -/

section Family

variable {f : Family} {metric value : String} {labels : List (String × String)} {t : Text}

/-- The three replacements of `_esc` are one. -/
theorem toList_esc (v : String) : (esc v).toList = v.toList.flatMap escape := by
  unfold esc replaceChar
  rw [String.toList_ofList, List.flatMap_assoc, List.flatMap_assoc]
  refine List.flatMap_congr fun c _ => ?_
  unfold escape
  split_ifs with hback hquote hnewline
  · decide
  · subst hquote
    decide
  · subst hnewline
    decide
  · simp [hquote, hnewline]

/-- What a row of a family is read as. -/
def reading (metric : String) (r : List (String × String) × String) : Reading where
  name := metric.toList
  labels := r.1.map fun p => (p.1.toList, p.2.toList)
  value := r.2.toList
  stamp := none

/-- A row whose labels and value are what the format has. -/
def ProperRow (r : List (String × String) × String) : Prop :=
  (∀ p ∈ r.1, isName p.1.toList = true) ∧ isToken r.2.toList = true

structure Family.Proper (f : Family) : Prop where
  metric : isName f.metric.toList = true
  help : ∀ help ∈ f.help, '\n' ∉ help.toList
  type : '\n' ∉ f.type.toList
  rows : ∀ r ∈ f.rows, ProperRow r

theorem exists_labels (h : ∀ p ∈ labels, isName p.1.toList = true) :
    ∃ ls : List (Name × Text), (ls.map fun p => (p.1.text, p.2)) =
      labels.map fun p => (p.1.toList, p.2.toList) := by
  induction labels with
  | nil => exact ⟨[], rfl⟩
  | cons p labels ih =>
    obtain ⟨ls, hls⟩ := ih fun q hq => h q (List.mem_cons_of_mem p hq)
    obtain ⟨n, hn⟩ := exists_name (h p List.mem_cons_self)
    exact ⟨(n, p.2.toList) :: ls, by rw [List.map_cons, List.map_cons, hls, hn]⟩

/-- **The line of a row** is a sample that says this row. -/
theorem exists_sample (hmetric : isName metric.toList = true)
    {r : List (String × String) × String} (hr : ProperRow r) :
    ∃ s : Sample, (Line.sample s).render = (sampleLine metric r.1 r.2).toList ∧
      s.reading = reading metric r := by
  obtain ⟨n, hn⟩ := exists_name hmetric
  obtain ⟨ls, hls⟩ := exists_labels hr.1
  obtain ⟨k, hk⟩ := exists_token hr.2
  refine ⟨plain n ls k, ?_, ?_⟩
  · have hlabels : (ls.map fun p => p.1.text ++ '=' :: quote :: (p.2.flatMap escape ++ [quote])) =
        r.1.map fun p => (p.1 ++ "=\"" ++ esc p.2 ++ "\"").toList := by
      have hmap := congrArg (List.map fun p : Text × Text =>
        p.1 ++ '=' :: quote :: (p.2.flatMap escape ++ [quote])) hls
      rw [List.map_map, List.map_map] at hmap
      refine hmap.trans (List.map_congr_left fun p _ => ?_)
      simp only [Function.comp_apply, String.toList_append, toList_esc, List.append_assoc]
      rfl
    have hopen : "\x7b".toList = [openBrace] := by decide
    have hclose : "\x7d ".toList = [closeBrace, ' '] := by decide
    have hcomma : ",".toList = [','] := by decide
    rw [plain_render, hlabels, hn, hk]
    unfold sampleLine
    rw [String.toList_append, String.toList_append, String.toList_append, String.toList_append,
      String.toList_intercalate, List.map_map, hopen, hclose, hcomma]
    simp only [List.append_assoc, List.cons_append, List.nil_append]
    rfl
  · rw [plain_reading, hn, hls, hk]
    rfl

theorem exists_comment (h : '\n' ∉ t) : ∃ l : Line, l.render = '#' :: t ∧ l.reading = none :=
  ⟨.comment noGap t h, rfl, rfl⟩

/-- The lines of a family say its rows. -/
theorem Family.Proper.exists_lines (h : f.Proper) :
    ∃ lines : List Line, lines.map Line.render = f.lines.map String.toList ∧
      (lines.map Line.reading).reduceOption = f.rows.map (reading f.metric) := by
  have hmetric : '\n' ∉ f.metric.toList := by
    obtain ⟨n, hn⟩ := exists_name h.metric
    rw [← hn]
    exact Name.notMem (by decide)
  have hrows : ∀ rows : List (List (String × String) × String), (∀ r ∈ rows, ProperRow r) →
      ∃ lines : List Line,
        lines.map Line.render = (rows.map fun r => sampleLine f.metric r.1 r.2).map String.toList ∧
        (lines.map Line.reading).reduceOption = rows.map (reading f.metric) := by
    intro rows hrows
    induction rows with
    | nil => exact ⟨[], rfl, rfl⟩
    | cons r rows ih =>
      obtain ⟨lines, hlines, hreading⟩ := ih fun q hq => hrows q (List.mem_cons_of_mem r hq)
      obtain ⟨s, hs, hsreading⟩ := exists_sample h.metric (hrows r List.mem_cons_self)
      refine ⟨.sample s :: lines, ?_, ?_⟩
      · rw [List.map_cons, hs, hlines]
        rfl
      · rw [List.map_cons, List.map_cons, ← hreading, ← hsreading]
        rfl
  obtain ⟨lines, hlines, hreading⟩ := hrows f.rows h.rows
  obtain ⟨type, htype, htypeNone⟩ := exists_comment
    (t := (" TYPE " ++ f.metric ++ " " ++ f.type).toList) (by simp [hmetric, h.type])
  have htypeLine : type.render = ("# TYPE " ++ f.metric ++ " " ++ f.type).toList := by
    rw [htype]
    simp
  unfold Family.lines
  cases hhelp : f.help with
  | none =>
    refine ⟨type :: lines, ?_, ?_⟩
    · rw [List.map_cons, htypeLine, hlines]
      rfl
    · rw [List.map_cons, htypeNone, ← hreading]
      rfl
  | some text =>
    obtain ⟨help, hline, hnone⟩ := exists_comment (t := (" HELP " ++ f.metric ++ " " ++ text).toList)
      (by simp [hmetric, h.help text hhelp])
    have hhelpLine : help.render = ("# HELP " ++ f.metric ++ " " ++ text).toList := by
      rw [hline]
      simp
    refine ⟨help :: type :: lines, ?_, ?_⟩
    · rw [List.map_cons, List.map_cons, hhelpLine, htypeLine, hlines]
      rfl
    · rw [List.map_cons, List.map_cons, hnone, htypeNone, ← hreading]
      rfl

/-- **Families** are read as their rows. -/
theorem scrape_families {fs : List Family} (hne : fs ≠ []) (h : ∀ f ∈ fs, f.Proper) :
    scrape ("\n".intercalate (fs.flatMap Family.lines) ++ "\n").toList =
      some (fs.flatMap fun f => f.rows.map (reading f.metric)) := by
  have hlines : ∃ lines : List Line,
      lines.map Line.render = (fs.flatMap Family.lines).map String.toList ∧
      (lines.map Line.reading).reduceOption = fs.flatMap fun f => f.rows.map (reading f.metric) := by
    clear hne
    induction fs with
    | nil => exact ⟨[], rfl, rfl⟩
    | cons f fs ih =>
      obtain ⟨lines, hlines, hreading⟩ := ih fun g hg => h g (List.mem_cons_of_mem f hg)
      obtain ⟨own, hown, hownReading⟩ := (h f List.mem_cons_self).exists_lines
      refine ⟨own ++ lines, ?_, ?_⟩
      · rw [List.map_append, hown, hlines, List.flatMap_cons, List.map_append]
      · rw [List.map_append, List.reduceOption_append, hownReading, hreading, List.flatMap_cons]
  obtain ⟨lines, hlines, hreading⟩ := hlines
  have hsome : (fs.flatMap Family.lines).map String.toList ≠ [] := by
    obtain ⟨f, hf⟩ := List.exists_mem_of_ne_nil fs hne
    have hmem : "# TYPE " ++ f.metric ++ " " ++ f.type ∈ fs.flatMap Family.lines :=
      List.mem_flatMap.mpr ⟨f, hf, List.mem_append_right _ List.mem_cons_self⟩
    exact List.ne_nil_of_mem (List.mem_map_of_mem hmem)
  have htext : ("\n".intercalate (fs.flatMap Family.lines) ++ "\n").toList = render lines := by
    rw [String.toList_append, String.toList_intercalate]
    refine (intercalate_newline hsome).trans ?_
    unfold render
    rw [← hlines, List.flatMap_map]
  rw [htext, scrape_render, ← hreading, reduceOption_reading]

end Family

/-! ## The families -/

section Families

variable {float : Json → Option PyFloat} {loadStats : Dict (Dict Json)}
  {autoscale : Dict (Option (Dict Json))} {actions blocked : Counts} {f : Family}

theorem isToken_toString (n : Int) : isToken (toString n).toList = true := by
  have hdigit (m : Nat) : ∀ c ∈ (Nat.repr m).toList, isNumberChar c = true := by
    intro c hc
    rw [Nat.toList_repr] at hc
    have h := Nat.isDigit_of_mem_toDigits (by decide) (by decide) hc
    unfold isNumberChar Char.isAlphanum
    simp [h]
  have hne (m : Nat) : (Nat.repr m).toList.isEmpty = false := by
    rw [Nat.toList_repr, List.isEmpty_eq_false_iff]
    exact List.ne_nil_of_length_pos Nat.length_toDigits_pos
  unfold isToken
  rw [Bool.and_eq_true_iff, List.all_eq_true]
  cases n with
  | ofNat m => exact ⟨congrArg not (hne m), hdigit m⟩
  | negSucc m =>
    change (!("-" ++ Nat.repr (m + 1)).toList.isEmpty) = true ∧
      ∀ c ∈ ("-" ++ Nat.repr (m + 1)).toList, isNumberChar c = true
    rw [String.toList_append]
    refine ⟨by simp, fun c hc => ?_⟩
    rcases List.mem_append.mp hc with hc | hc
    · rw [List.mem_singleton.mp hc]
      decide
    · exact hdigit _ c hc

theorem isToken_num (hfloat : ∀ v x, float v = some x → isToken x.repr.toList = true) (v : Json) :
    isToken (num float v).repr.toList = true := by
  unfold num
  cases hv : float v with
  | none => decide
  | some x => exact hfloat v x hv

theorem isName_group : isName "group".toList = true := by decide

theorem properRow_group {group value : String} (h : isToken value.toList = true) :
    ProperRow ([("group", group)], value) :=
  ⟨fun p hp => by rw [List.mem_singleton.mp hp]; exact isName_group, h⟩

theorem mem_sortedItems {κ α : Type*} [LinearOrder κ] {d : List (κ × α)} {p : κ × α} :
    p ∈ sortedItems d ↔ p ∈ d :=
  (List.perm_insertionSort _ d).mem_iff

theorem mem_families : f ∈ families float loadStats autoscale actions blocked ↔
    (∃ g ∈ gauges, gaugeFamily float loadStats g = f) ∨ f = enabledFamily autoscale ∨
      (∃ b ∈ bounds, boundFamily float autoscale b = f) ∨
      f = counterFamily "llmops_autoscale_actions_total" "Autoscaler actions taken" "action"
        actions ∨
      f = counterFamily "llmops_autoscale_blocked_total"
        "Scale-up attempts blocked (e.g. by VRAM preflight)" "reason" blocked := by
  unfold families
  simp only [List.mem_append, List.mem_map, List.mem_cons, List.not_mem_nil, or_false, or_assoc]

theorem proper_counterFamily {metric help label : String} {counts : Counts}
    (hmetric : isName metric.toList = true) (hhelp : '\n' ∉ help.toList)
    (hlabel : isName label.toList = true) : (counterFamily metric help label counts).Proper where
  metric := hmetric
  help := fun text htext => by rwa [← Option.some.inj htext]
  type := by simp [counterFamily]
  rows := fun r hr => by
    obtain ⟨p, -, rfl⟩ := List.mem_map.mp hr
    refine ⟨fun q hq => ?_, isToken_toString _⟩
    rcases List.mem_cons.mp hq with rfl | hq
    · exact isName_group
    · rw [List.mem_singleton.mp hq]
      exact hlabel

theorem proper_of_mem (hfloat : ∀ v x, float v = some x → isToken x.repr.toList = true)
    (h : f ∈ families float loadStats autoscale actions blocked) : f.Proper := by
  have hgauges : ∀ g ∈ gauges, isName g.1.toList = true ∧ '\n' ∉ g.2.2.toList := by decide
  have hbounds : ∀ b ∈ bounds, isName b.1.toList = true := by decide
  have henabled : isName "llmops_group_autoscale_enabled".toList = true := by decide
  rcases mem_families.mp h with ⟨g, hg, rfl⟩ | rfl | ⟨b, hb, rfl⟩ | rfl | rfl
  · refine ⟨(hgauges g hg).1, fun text htext => ?_, by simp [gaugeFamily], fun r hr => ?_⟩
    · rw [← Option.some.inj htext]
      exact (hgauges g hg).2
    · obtain ⟨p, -, rfl⟩ := List.mem_map.mp hr
      exact properRow_group (isToken_num hfloat _)
  · refine ⟨henabled, fun text htext => ?_, by simp [enabledFamily], fun r hr => ?_⟩
    · rw [← Option.some.inj htext]
      decide
    · obtain ⟨p, -, rfl⟩ := List.mem_map.mp hr
      exact properRow_group (isToken_toString (enabled p.2))
  · refine ⟨hbounds b hb, fun text htext => ?_, by simp [boundFamily], fun r hr => ?_⟩
    · cases htext
    obtain ⟨p, -, hr⟩ := List.mem_filterMap.mp hr
    obtain ⟨v, -, rfl⟩ := Option.map_eq_some_iff.mp hr
    exact properRow_group (isToken_num hfloat v)
  · exact proper_counterFamily (by decide) (by decide) (by decide)
  · exact proper_counterFamily (by decide) (by decide) (by decide)

/-- The rows of the families are the series of the dicts. -/
theorem exposes_iff (hl : loadStats.Unique) (ha : autoscale.Unique) {metric : String}
    {r : List (String × String) × String} :
    (∃ f ∈ families float loadStats autoscale actions blocked, f.metric = metric ∧ r ∈ f.rows) ↔
      Exposes float loadStats autoscale actions blocked metric r.1 r.2 := by
  constructor
  · rintro ⟨f, hf, rfl, hr⟩
    rcases mem_families.mp hf with ⟨⟨m, field, help⟩, hg, rfl⟩ | rfl | ⟨⟨m, field⟩, hb, rfl⟩ |
      rfl | rfl
    · obtain ⟨⟨group, st⟩, hp, rfl⟩ := List.mem_map.mp hr
      exact .gauge hg (Dict.get_of_mem hl (mem_sortedItems.mp hp))
    · obtain ⟨⟨group, a⟩, hp, rfl⟩ := List.mem_map.mp hr
      exact .enabled (Dict.get_of_mem ha (mem_sortedItems.mp hp))
    · obtain ⟨⟨group, a⟩, hp, hr⟩ := List.mem_filterMap.mp hr
      obtain ⟨v, hv, rfl⟩ := Option.map_eq_some_iff.mp hr
      exact .bound hb (Dict.get_of_mem ha (mem_sortedItems.mp hp)) hv
    · obtain ⟨⟨key, n⟩, hp, rfl⟩ := List.mem_map.mp hr
      exact .action (mem_sortedItems.mp hp)
    · obtain ⟨⟨key, n⟩, hp, rfl⟩ := List.mem_map.mp hr
      exact .blocked (mem_sortedItems.mp hp)
  · obtain ⟨labels, value⟩ := r
    intro h
    cases h with
    | @gauge _ field help group st hg hst =>
      exact ⟨_, mem_families.mpr (.inl ⟨_, hg, rfl⟩), rfl,
        List.mem_map.mpr ⟨(group, st), mem_sortedItems.mpr (Dict.mem_of_get hst), rfl⟩⟩
    | @enabled group a hget =>
      exact ⟨_, mem_families.mpr (.inr (.inl rfl)), rfl,
        List.mem_map.mpr ⟨(group, a), mem_sortedItems.mpr (Dict.mem_of_get hget), rfl⟩⟩
    | @bound _ field group a v hb hget hv =>
      refine ⟨_, mem_families.mpr (.inr (.inr (.inl ⟨_, hb, rfl⟩))), rfl,
        List.mem_filterMap.mpr ⟨(group, a), mem_sortedItems.mpr (Dict.mem_of_get hget), ?_⟩⟩
      simp only [hv, Option.map_some]
    | @action group verb n hmem =>
      exact ⟨_, mem_families.mpr (.inr (.inr (.inr (.inl rfl)))), rfl,
        List.mem_map.mpr ⟨(toLex (group, verb), n), mem_sortedItems.mpr hmem, rfl⟩⟩
    | @blocked group reason n hmem =>
      exact ⟨_, mem_families.mpr (.inr (.inr (.inr (.inr rfl)))), rfl,
        List.mem_map.mpr ⟨(toLex (group, reason), n), mem_sortedItems.mpr hmem, rfl⟩⟩

/-- The rows that are written for some entries of a dict have different labels. -/
theorem nodup_filterMap {κ α : Type*} [LinearOrder κ] {d : List (κ × α)}
    (hd : (d.map Prod.fst).Nodup) {label : κ → List (String × String)}
    (hlabel : Function.Injective label) {row : κ × α → Option (List (String × String) × String)}
    (hrow : ∀ p r, row p = some r → r.1 = label p.1) :
    (((sortedItems d).filterMap row).map Prod.fst).Nodup := by
  have hkeys : ((sortedItems d).map Prod.fst).Nodup :=
    ((List.perm_insertionSort _ d).map Prod.fst).nodup_iff.mpr hd
  have hlabels : (((sortedItems d).filterMap row).map Prod.fst).Sublist
      (((sortedItems d).map Prod.fst).map label) := by
    generalize sortedItems d = items
    induction items with
    | nil => exact List.Sublist.refl _
    | cons p items ih =>
      rw [List.filterMap_cons, List.map_cons, List.map_cons]
      cases hp : row p with
      | none => exact ih.cons _
      | some r =>
        rw [List.map_cons, hrow p r hp]
        exact ih.cons_cons _
  exact (hkeys.map hlabel).sublist hlabels

/-- The rows of all entries. -/
theorem nodup_map {κ α : Type*} [LinearOrder κ] {d : List (κ × α)} (hd : (d.map Prod.fst).Nodup)
    {label : κ → List (String × String)} (hlabel : Function.Injective label) {value : κ × α → String} :
    (((sortedItems d).map fun p => (label p.1, value p)).map Prod.fst).Nodup := by
  have hall : (((sortedItems d).filterMap fun p => some (label p.1, value p)).map Prod.fst).Nodup :=
    nodup_filterMap hd hlabel fun p r hr => by rw [← Option.some.inj hr]
  rwa [List.filterMap_eq_map'] at hall

theorem nodup_counterRows {metric help label : String} {counts : Counts}
    (h : (counts.map Prod.fst).Nodup) :
    ((counterFamily metric help label counts).rows.map Prod.fst).Nodup := by
  have hinj : Function.Injective fun key : String ×ₗ String =>
      [("group", (ofLex key).1), (label, (ofLex key).2)] := by
    intro k k' heq
    simp only [List.cons.injEq, Prod.mk.injEq, true_and, and_true] at heq
    exact ofLex.injective (Prod.ext heq.1 heq.2)
  exact nodup_map h hinj

theorem nodup_rows_of_mem (hl : loadStats.Unique) (ha : autoscale.Unique)
    (hactions : (actions.map Prod.fst).Nodup) (hblocked : (blocked.map Prod.fst).Nodup)
    (h : f ∈ families float loadStats autoscale actions blocked) :
    (f.rows.map Prod.fst).Nodup := by
  have hgroup : Function.Injective fun group : String => [("group", group)] := by
    intro g g' heq
    simpa using heq
  rcases mem_families.mp h with ⟨g, -, rfl⟩ | rfl | ⟨b, -, rfl⟩ | rfl | rfl
  · exact nodup_map hl hgroup
  · exact nodup_map ha hgroup
  · refine nodup_filterMap ha hgroup fun p r hr => ?_
    obtain ⟨v, -, rfl⟩ := Option.map_eq_some_iff.mp hr
    rfl
  · exact nodup_counterRows hactions
  · exact nodup_counterRows hblocked

/-- The series that a sample belongs to. -/
def series (r : Reading) : Text × List (Text × Text) := (r.name, r.labels)

theorem nodup_series {fs : List Family} (hmetrics : (fs.map Family.metric).Nodup)
    (hrows : ∀ f ∈ fs, (f.rows.map Prod.fst).Nodup) :
    ((fs.flatMap fun f => f.rows.map (reading f.metric)).map series).Nodup := by
  have hinj (metric : String) : Function.Injective fun labels : List (String × String) =>
      (metric.toList, labels.map fun p => (p.1.toList, p.2.toList)) := by
    intro ls ls' heq
    refine List.map_injective_iff.mpr (fun p q hpq => ?_) (Prod.mk.inj heq).2
    obtain ⟨hname, hvalue⟩ := Prod.mk.inj hpq
    exact Prod.ext (String.toList_injective hname) (String.toList_injective hvalue)
  have hown (f : Family) : (f.rows.map (reading f.metric)).map series =
      (f.rows.map Prod.fst).map fun labels =>
        (f.metric.toList, labels.map fun p => (p.1.toList, p.2.toList)) := by
    rw [List.map_map, List.map_map]
    rfl
  rw [List.map_flatMap, List.nodup_flatMap]
  refine ⟨fun f hf => ?_, ?_⟩
  · rw [hown]
    exact (hrows f hf).map (hinj f.metric)
  · refine (List.pairwise_map.mp hmetrics).imp fun {f g} hne => ?_
    rw [Function.onFun, hown, hown]
    intro k hf hg
    obtain ⟨labels, -, rfl⟩ := List.mem_map.mp hf
    obtain ⟨labels', -, heq⟩ := List.mem_map.mp hg
    exact hne (String.toList_injective (Prod.mk.inj heq).1.symm)

/-- **What a scrape reads** of the backend's metrics, whatever the groups are called: the series of the
dicts with their values and no other, each one once. -/
theorem render_scraped (hfloat : ∀ v x, float v = some x → isToken x.repr.toList = true)
    (hl : loadStats.Unique) (ha : autoscale.Unique) (hactions : (actions.map Prod.fst).Nodup)
    (hblocked : (blocked.map Prod.fst).Nodup) :
    ∃ readings, scrape (renderMetrics float loadStats autoscale actions blocked).toList =
        some readings ∧
      (readings.map series).Nodup ∧
      ∀ r, r ∈ readings ↔ ∃ metric labels value,
        Exposes float loadStats autoscale actions blocked metric labels value ∧
          r = reading metric (labels, value) := by
  have hmetrics : ((families float loadStats autoscale actions blocked).map Family.metric).Nodup := by
    have hnames : (families float loadStats autoscale actions blocked).map Family.metric =
        gauges.map Prod.fst ++ ["llmops_group_autoscale_enabled"] ++ bounds.map Prod.fst ++
          ["llmops_autoscale_actions_total", "llmops_autoscale_blocked_total"] := rfl
    rw [hnames]
    decide
  refine ⟨_, scrape_families (List.cons_ne_nil _ _) fun f hf => proper_of_mem hfloat hf,
    nodup_series hmetrics fun f hf => nodup_rows_of_mem hl ha hactions hblocked hf, fun r => ?_⟩
  constructor
  · intro hr
    obtain ⟨f, hf, hr⟩ := List.mem_flatMap.mp hr
    obtain ⟨row, hrow, rfl⟩ := List.mem_map.mp hr
    exact ⟨f.metric, row.1, row.2, (exposes_iff hl ha).mp ⟨f, hf, rfl, hrow⟩, rfl⟩
  · rintro ⟨metric, labels, value, h, rfl⟩
    obtain ⟨f, hf, rfl, hrow⟩ := (exposes_iff (r := (labels, value)) hl ha).mpr h
    exact List.mem_flatMap.mpr ⟨f, hf, List.mem_map.mpr ⟨_, hrow, rfl⟩⟩

/-- A group whose name looks like the end of a sample. -/
def forged : Dict (Dict Json) := [("chat\"\x7d 7\nllmops_group_ready_replicas", [])]

theorem render_scraped_forged :
    ∃ readings, scrape (renderMetrics (fun _ => none) forged [] [] []).toList = some readings ∧
      (readings.map series).Nodup ∧
      ∀ r, r ∈ readings ↔ ∃ metric labels value,
        Exposes (fun _ => none) forged [] [] [] metric labels value ∧
          r = reading metric (labels, value) :=
  render_scraped (fun _ _ h => by cases h) (List.nodup_singleton _) List.nodup_nil List.nodup_nil
    List.nodup_nil

end Families

end Llmops.Prometheus
