import Llmops.Lib.Json
import Llmops.Lib.Run
import Llmops.Lib.Thin

/-!
# The notifier of lifecycle events (`llmops/notifier.py`)

An alert goes to the sinks whose floor it reaches, but not if one of the same model and event went out
less than `cooldown_s` ago. `_last_sent` keeps the time of the last one for each pair. Sinks come and
go while alerts are raised: `refresh_sinks` puts those of the database after those of the
environment.

* The clock is that of `time.monotonic`. A send is a task that runs by itself and cannot fail the
  caller; what is sent is kept in `sent`, and `asked` has every alert that reached a sink's floor.
* `send_test` goes past all of this and changes nothing.

Results:
* `alerts_thinned`: for each pair, what is sent is the thinning of what was asked, and so
  alerts of a pair are a cooldown apart, none is held back without one shortly before it, and no
  other way to keep them apart would send more.
-/

namespace Llmops.Alerts

open Lib

/-! ## Events and sinks -/

/-- `AlertEvent`. -/
structure AlertEvent where
  event : String
  severity : String
  model : String
  kind : String
  detail : Option String := none
  restartCount : Nat := 0
  ts : PyFloat
  deriving DecidableEq, Repr

/-- `Sink`. -/
structure Sink where
  type : String
  url : String
  minSeverity : String := "info"
  deriving DecidableEq, Repr

/-- `severity_rank`. -/
def severityRank (s : String) : Nat :=
  if s = "warning" then 1 else if s = "error" then 2 else if s = "critical" then 3 else 0

/-- `_EMOJI.get(severity, '')`. -/
def emoji (severity : String) : String :=
  if severity = "info" then "✅"
  else if severity = "warning" then "⚠️"
  else if severity = "error" then "🔴"
  else if severity = "critical" then "🚨"
  else ""

/-- `s[:n]`. -/
def sliceTo (s : String) (n : Nat) : String := .ofList (s.toList.take n)

/-- `_summary`. -/
def summary (ev : AlertEvent) : String :=
  let line := emoji ev.severity ++ " " ++ ev.event ++ " — " ++ ev.model ++ " (" ++ ev.kind ++ ")"
  if ev.restartCount ≠ 0 then line ++ "  · restarts=" ++ toString ev.restartCount else line

/-- The detail as a block of text, if there is one. -/
def detailBlock (ev : AlertEvent) : String :=
  match ev.detail.filter (· ≠ "") with
  | some detail => "\n```" ++ sliceTo detail 1500 ++ "```"
  | none => ""

/-- `format_payload`. -/
def formatPayload (sinkType : String) (ev : AlertEvent) : Json :=
  if sinkType = "slack" then .obj [("text", .str ("*" ++ summary ev ++ "*" ++ detailBlock ev))]
  else if sinkType = "discord" then
    .obj [("content", .str (sliceTo (summary ev ++ detailBlock ev) 1900))]
  else
    .obj [("event", .str ev.event), ("severity", .str ev.severity), ("model", .str ev.model),
      ("kind", .str ev.kind), ("detail", Json.ofOption .str ev.detail),
      ("restart_count", .int ev.restartCount), ("ts", .float ev.ts),
      ("error", Json.ofOption .str ev.detail)]

/-- The settings of `env_sinks` and `build_notifier`. -/
structure AlertSettings where
  alertSlackWebhook : String := ""
  alertDiscordWebhook : String := ""
  alertWebhook : String := ""
  alertMinSeverity : String := "error"
  alertCooldownS : ℚ := 300

/-- `env_sinks`. -/
def envSinks (settings : AlertSettings) : List Sink :=
  let sink (type url : String) : List Sink :=
    if url ≠ "" then [⟨type, url, settings.alertMinSeverity⟩] else []
  sink "slack" settings.alertSlackWebhook ++ sink "discord" settings.alertDiscordWebhook ++
    sink "webhook" settings.alertWebhook

/-! ## The notifier -/

/-- An alert that reached the floor of some sinks, and when. -/
structure Call where
  time : ℚ
  event : AlertEvent
  eligible : List Sink
  deriving DecidableEq, Repr

/-- The pair that the cooldown is kept for. -/
def Call.pair (c : Call) : String × String := (c.event.model, c.event.event)

/-- `Notifier`, with what it was asked to send and what it sent. -/
structure Notifier where
  now : ℚ
  sinks : List Sink
  cooldownS : ℚ
  lastSent : String × String → Option ℚ := fun _ => none
  asked : List Call := []
  sent : List Call := []

/-- `build_notifier`. -/
def buildNotifier (settings : AlertSettings) (now : ℚ) : Notifier where
  now := now
  sinks := envSinks settings
  cooldownS := settings.alertCooldownS

namespace Notifier

/-- `_suppressed`: the state it leaves, and its answer. -/
def suppressed (n : Notifier) (ev : AlertEvent) : Notifier × Bool :=
  let key := (ev.model, ev.event)
  if (n.lastSent key).any fun last => n.now - last < n.cooldownS then (n, true)
  else ({ n with lastSent := fun k => if k = key then some n.now else n.lastSent k }, false)

/-- The sinks whose floor an event reaches. -/
def eligible (n : Notifier) (ev : AlertEvent) : List Sink :=
  n.sinks.filter fun s => severityRank s.minSeverity ≤ severityRank ev.severity

/-- `notify`. -/
def notify (n : Notifier) (ev : AlertEvent) : Notifier :=
  let eligible := n.eligible ev
  if eligible = [] then n
  else
    let call : Call := ⟨n.now, ev, eligible⟩
    let asked := { n with asked := n.asked ++ [call] }
    match asked.suppressed ev with
    | (n, true) => n
    | (n, false) => { n with sent := n.sent ++ [call] }

/-- `refresh_sinks`, with the rows of the database. -/
def refreshSinks (n : Notifier) (settings : AlertSettings) (rows : List Sink) : Notifier :=
  { n with sinks := envSinks settings ++ rows }

/-- The posts that an alert is sent as. -/
def posts (c : Call) : List (String × Json) :=
  c.eligible.map fun s => (s.url, formatPayload s.type c.event)

end Notifier

/-- What happens to a notifier. -/
inductive Event where
  | wait (δ : ℚ)
  | notify (ev : AlertEvent)
  | refresh (rows : List Sink)

def step (settings : AlertSettings) (n : Notifier) : Event → Option Notifier
  | .wait δ => if 0 ≤ δ then some { n with now := n.now + δ } else none
  | .notify ev => some (n.notify ev)
  | .refresh rows => some (n.refreshSinks settings rows)

/-! ## The invariant -/

/-- The times of the calls of a pair. -/
def times (pair : String × String) (calls : List Call) : List ℚ :=
  (calls.filter fun c => c.pair = pair).map Call.time

theorem times_append (pair : String × String) (calls calls' : List Call) :
    times pair (calls ++ calls') = times pair calls ++ times pair calls' := by
  unfold times
  rw [List.filter_append, List.map_append]

theorem times_single (pair : String × String) (c : Call) :
    times pair [c] = if c.pair = pair then [c.time] else [] := by
  unfold times
  by_cases h : c.pair = pair <;> simp [h]

/-- What was sent is, pair by pair, the thinning of what was asked, and `_last_sent` has the last time
of it. -/
structure Thinned (n : Notifier) : Prop where
  sorted : n.asked.Pairwise fun c c' => c.time ≤ c'.time
  past : ∀ c ∈ n.asked, c.time ≤ n.now
  reaches : ∀ c ∈ n.asked, c.eligible ≠ [] ∧
    ∀ s ∈ c.eligible, severityRank s.minSeverity ≤ severityRank c.event.severity
  sublist : n.sent.Sublist n.asked
  thinned : ∀ pair, times pair n.sent = thin n.cooldownS none (times pair n.asked)
  last : ∀ pair, n.lastSent pair = (times pair n.sent).getLast?

theorem thinned_build (settings : AlertSettings) (now : ℚ) :
    Thinned (buildNotifier settings now) := by
  constructor <;> simp [buildNotifier, times, thin]

/-- The time that the thinning of a pair goes by is the one that the notifier keeps. -/
theorem Thinned.lastTaken {n : Notifier} (h : Thinned n) (pair : String × String) :
    lastTaken n.cooldownS none (times pair n.asked) = n.lastSent pair := by
  rw [Lib.lastTaken, ← h.thinned, Option.or_none, h.last]

/-- **An alert** keeps it. -/
theorem thinned_notify {n : Notifier} (h : Thinned n) (ev : AlertEvent) : Thinned (n.notify ev) := by
  unfold Notifier.notify
  dsimp only
  split_ifs with hnone
  · exact h
  let call : Call := ⟨n.now, ev, n.eligible ev⟩
  have hsorted : (n.asked ++ [call]).Pairwise fun c c' => c.time ≤ c'.time :=
    List.pairwise_append.mpr ⟨h.sorted, List.pairwise_singleton _ _, fun c hc c' hc' =>
      List.mem_singleton.mp hc' ▸ h.past c hc⟩
  have hpast : ∀ c ∈ n.asked ++ [call], c.time ≤ n.now :=
    List.forall_mem_append.mpr ⟨h.past, List.forall_mem_singleton.mpr le_rfl⟩
  have hreaches : ∀ c ∈ n.asked ++ [call], c.eligible ≠ [] ∧
      ∀ s ∈ c.eligible, severityRank s.minSeverity ≤ severityRank c.event.severity :=
    List.forall_mem_append.mpr ⟨h.reaches, List.forall_mem_singleton.mpr
      ⟨hnone, fun s hs => of_decide_eq_true (List.mem_filter.mp hs).2⟩⟩
  -- the pair of the alert has one time more, the others are as they were
  have hthin (pair : String × String) : thin n.cooldownS none (times pair (n.asked ++ [call])) =
      if call.pair = pair ∧ ¬ ((n.lastSent pair).any fun last => n.now - last < n.cooldownS) = true
      then times pair n.sent ++ [n.now] else times pair n.sent := by
    rw [times_append, times_single]
    by_cases hpair : call.pair = pair
    · rw [if_pos hpair, thin_snoc, h.lastTaken, ← h.thinned]
      by_cases hnear : ((n.lastSent pair).any fun last => n.now - last < n.cooldownS) = true
      · exact (if_pos hnear).trans (if_neg fun hand => hand.2 hnear).symm
      · exact (if_neg hnear).trans (if_pos ⟨hpair, hnear⟩).symm
    · rw [if_neg hpair, List.append_nil, if_neg fun hand => hpair hand.1, h.thinned]
  unfold Notifier.suppressed
  dsimp only
  by_cases hnear : ((n.lastSent (ev.model, ev.event)).any fun last => n.now - last < n.cooldownS) = true
  · rw [if_pos hnear]
    refine ⟨hsorted, hpast, hreaches, h.sublist.trans (List.sublist_append_left _ _), fun pair => ?_,
      h.last⟩
    refine ((hthin pair).trans (if_neg ?_)).symm
    rintro ⟨rfl, hfar⟩
    exact hfar hnear
  · rw [if_neg hnear]
    have htimes (pair : String × String) : times pair (n.sent ++ [call]) =
        if call.pair = pair then times pair n.sent ++ [n.now] else times pair n.sent := by
      rw [times_append, times_single]
      split_ifs
      · rfl
      · exact List.append_nil _
    refine ⟨hsorted, hpast, hreaches, h.sublist.append (List.Sublist.refl _), fun pair => ?_,
      fun pair => ?_⟩
    · refine (htimes pair).trans ((if_congr ?_ rfl rfl).trans (hthin pair).symm)
      refine ⟨fun hpair => ⟨hpair, ?_⟩, And.left⟩
      rw [← hpair]
      exact hnear
    · refine Eq.trans ?_ (congrArg List.getLast? (htimes pair).symm)
      show (if pair = (ev.model, ev.event) then some n.now else n.lastSent pair) = _
      by_cases hpair : pair = (ev.model, ev.event)
      · have hcall : call.pair = pair := hpair.symm
        rw [if_pos hpair, if_pos hcall, List.getLast?_append]
        rfl
      · have hcall : call.pair ≠ pair := fun heq => hpair heq.symm
        rw [if_neg hpair, if_neg hcall, h.last]

/-- **The step lemma.** -/
theorem thinned_step {settings : AlertSettings} {n n' : Notifier} {e : Event} (h : Thinned n)
    (he : step settings n e = some n') : Thinned n' := by
  cases e with
  | wait δ =>
    simp only [step] at he
    split_ifs at he with hδ
    cases he
    exact { h with past := fun c hc => (h.past c hc).trans (le_add_of_nonneg_right hδ) }
  | notify ev =>
    cases he
    exact thinned_notify h ev
  | refresh rows =>
    cases he
    exact { h with }

/-! ## The alerts that go out -/

/-- **The cooldown**, in every run of a notifier whose sinks come and go. What goes out went to sinks
whose floor it reaches. For each model and event, any two alerts that go out are a cooldown apart; one
that is held back has another of the same model and event less than a cooldown before it that went
out; and no choice of alerts a cooldown apart has more of them. -/
theorem alerts_thinned {settings : AlertSettings} {now : ℚ} {n : Notifier}
    (h : Reach (step settings) anyEvent (buildNotifier settings now) n) :
    n.sent.Sublist n.asked ∧
      (∀ c ∈ n.sent, c.eligible ≠ [] ∧
        ∀ s ∈ c.eligible, severityRank s.minSeverity ≤ severityRank c.event.severity) ∧
      ∀ pair,
        ((times pair n.sent).Pairwise fun s t => n.cooldownS ≤ t - s) ∧
        (∀ t ∈ times pair n.asked, t ∈ times pair n.sent ∨
          ∃ s ∈ times pair n.sent, s ≤ t ∧ t - s < n.cooldownS) ∧
        ∀ us : List ℚ, us.Sublist (times pair n.asked) →
          (us.Pairwise fun s t => n.cooldownS ≤ t - s) → us.length ≤ (times pair n.sent).length := by
  have hinv : Thinned n := h.invariant (thinned_build settings now) fun hn _ he => thinned_step hn he
  refine ⟨hinv.sublist, fun c hc => hinv.reaches c (hinv.sublist.subset hc), fun pair => ?_⟩
  have hsorted : (times pair n.asked).Pairwise (· ≤ ·) :=
    List.pairwise_map.mpr (hinv.sorted.filter _)
  rw [hinv.thinned]
  have hnone : ∀ s ∈ (none : Option ℚ), ∀ t ∈ times pair n.asked, s ≤ t := by simp
  refine ⟨thin_spaced hsorted, fun t ht => ?_, fun us hus hspaced => ?_⟩
  · rcases thin_covers hsorted hnone ht with hmem | ⟨s, hs, hle, hlt⟩
    · exact .inl hmem
    · exact .inr ⟨s, hs.resolve_right (by simp), hle, hlt⟩
  · exact length_le_thin hsorted hus hspaced (by simp)

/-- A model that crashes again and again. -/
def crash : AlertEvent where
  event := "model_failed"
  severity := "error"
  model := "Qwen"
  kind := "llm"
  ts := ⟨0, "0.0"⟩

/-- One sink, and three crashes of which the second is held back. -/
def crashes : List Event :=
  [.refresh [⟨"slack", "https://slack", "info"⟩], .notify crash, .wait 200, .notify crash, .wait 100,
    .notify crash]

theorem alerts_thinned_crashes : ∃ n, run (step {}) (buildNotifier {} 0) crashes = some n ∧
    (times ("Qwen", "model_failed") n.sent).Pairwise fun s t => n.cooldownS ≤ t - s := by
  obtain ⟨n, hn⟩ := Option.isSome_iff_exists.mp
    (by decide : (run (step {}) (buildNotifier {} 0) crashes).isSome = true)
  exact ⟨n, hn, ((alerts_thinned (Reach.of_run hn)).2.2 _).1⟩

end Llmops.Alerts
