import Llmops.Lib.Rotation
import Llmops.Router.Select

/-!
# Round robin is fair

`rr_counters` is one dictionary for all groups (`main.py:61`), which only `_round_robin` reads and
writes (`routing_strategies.py:120-124`). A call of `select_instance` awaits nothing, so the calls of
all groups stand in one order. Here they are served one after the other; what else a call reads
(metrics, cooldowns, marks, requests in flight) is its own, and may be anything.

* `selectInstance_other`: a selection for one group leaves the counters of the others alone;
* `selections_rotate`: a group whose candidates stay the same takes them in turns;
* `round_robin_fair`: so each has had its share of the turns, rounded down or up.
-/

namespace Llmops.Router

open Lib

variable {S : Type} [Add S] [Mul S] [NatCast S] [LT S] [DecidableLT S] [LE S] [DecidableLE S]

namespace SelectCall

/-- The call as it finds the counters. -/
def withCounters (c : SelectCall S) (counters : String → Nat) : SelectCall S :=
  { c with app := { c.app with rrCounters := counters } }

/-- A selection among at least two candidates is that of the strategy. -/
theorem selectInstance_of_two {c : SelectCall S} (htwo : 2 ≤ c.eligible.length) :
    ∃ h : c.awake ≠ [], c.selectInstance =
      ((c.context h).pick htwo (Strategy.ofName c.strategy),
        (c.context h).turn (Strategy.ofName c.strategy)) := by
  have hawake : c.awake ≠ [] := awake_ne_nil (List.ne_nil_of_length_pos (by omega))
  have hremaining := remaining_ne_nil hawake
  refine ⟨hawake, ?_⟩
  unfold selectInstance
  rw [if_neg (instances_ne_nil hremaining), if_neg hremaining, dif_neg hawake, dif_pos htwo]

/-- A selection leaves the counters of other groups as they are. -/
theorem selectInstance_other {c : SelectCall S} {key : String} (h : c.modelKey ≠ key) :
    c.selectInstance.2 key = c.app.rrCounters key := by
  unfold selectInstance
  split_ifs with _ _ _ htwo
  · rfl
  · rfl
  · rfl
  · cases Strategy.ofName c.strategy with
    | roundRobin => exact Function.update_of_ne (Ne.symm h) _ _
    | random => rfl
    | leastInflight => rfl
    | leastLoad => rfl
    | p2c => rfl
    | sessionAffinity => rfl
    | prefixAffinity => rfl
  · rfl

/-- A call in turn, among `candidates`. -/
structure InTurn (candidates : List String) (c : SelectCall S) : Prop where
  strategy : c.strategy = some "round_robin"
  eligible : c.eligible = candidates

/-- A selection in turn. -/
theorem InTurn.selectInstance {candidates : List String} {c : SelectCall S}
    (h : c.InTurn candidates) (hnonempty : candidates ≠ []) (htwo : 2 ≤ candidates.length)
    (counters : String → Nat) : (c.withCounters counters).selectInstance =
      (.ok (turnAt candidates hnonempty (counters c.modelKey)),
        Function.update counters c.modelKey (counters c.modelKey + 1)) := by
  obtain ⟨hstrategy, rfl⟩ := h
  obtain ⟨hawake, hselect⟩ := selectInstance_of_two (c := c.withCounters counters) htwo
  have hname : Strategy.ofName (c.withCounters counters).strategy = .roundRobin := by
    rw [show (c.withCounters counters).strategy = some "round_robin" from hstrategy]
    rfl
  rw [hselect, hname]
  rfl

end SelectCall

/-- The calls, served in order: the group of each with what it was answered. -/
def served : (String → Nat) → List (SelectCall S) → List (String × Except SelectError String)
  | _, [] => []
  | counters, c :: calls =>
    let selection := (c.withCounters counters).selectInstance
    (c.modelKey, selection.1) :: served selection.2 calls

/-- What was answered to the calls of one group. -/
def selections (key : String) (counters : String → Nat) (calls : List (SelectCall S)) :
    List (Except SelectError String) :=
  ((served counters calls).filter fun answer => answer.1 = key).map Prod.snd

variable {key : String} {counters : String → Nat} {calls : List (SelectCall S)}
  {candidates : List String}

theorem selections_cons (c : SelectCall S) : selections key counters (c :: calls) =
    if c.modelKey = key then
      (c.withCounters counters).selectInstance.1 ::
        selections key (c.withCounters counters).selectInstance.2 calls
    else selections key (c.withCounters counters).selectInstance.2 calls := by
  unfold selections
  rw [served, List.filter_cons]
  by_cases h : c.modelKey = key
  · rw [if_pos h, if_pos (decide_eq_true h)]
    rfl
  · rw [if_neg h, if_neg (by simpa using h)]

/-- The calls of a group. -/
def callsOf (key : String) (calls : List (SelectCall S)) : List (SelectCall S) :=
  calls.filter fun c => c.modelKey = key

/-- **A group takes its candidates in turns**, from where its counter stands, whatever is asked of
the other groups in between. -/
theorem selections_rotate (hnonempty : candidates ≠ []) (htwo : 2 ≤ candidates.length)
    (h : ∀ c ∈ callsOf key calls, c.InTurn candidates) : selections key counters calls =
      (turns candidates hnonempty (counters key) (callsOf key calls).length).map .ok := by
  induction calls generalizing counters with
  | nil => rfl
  | cons c calls ih =>
    rw [selections_cons]
    by_cases hkey : c.modelKey = key
    · have hcalls : callsOf key (c :: calls) = c :: callsOf key calls :=
        List.filter_cons_of_pos (decide_eq_true hkey)
      rw [hcalls] at h ⊢
      obtain ⟨hc, h⟩ := List.forall_mem_cons.mp h
      have hselect := hc.selectInstance hnonempty htwo counters
      have hcounter : (c.withCounters counters).selectInstance.2 key = counters key + 1 := by
        rw [hselect, hkey]
        exact Function.update_self key _ _
      rw [if_pos hkey, ih h, hcounter, hselect, hkey, List.length_cons, turns_succ, List.map_cons]
    · have hcalls : callsOf key (c :: calls) = callsOf key calls :=
        List.filter_cons_of_neg (by simpa using hkey)
      rw [hcalls] at h ⊢
      have hother := SelectCall.selectInstance_other (c := c.withCounters counters) hkey
      rw [if_neg hkey, ih h, hother]
      rfl

/-- **Round robin is fair**: when the calls of a group are all in turn among the same candidates, at
least two, every one of them is answered with a candidate, and each candidate was chosen its share
of the times, rounded down or up. Of the calls of other groups nothing is assumed. -/
theorem round_robin_fair (counters : String → Nat) (hnodup : candidates.Nodup)
    (htwo : 2 ≤ candidates.length) (h : ∀ c ∈ callsOf key calls, c.InTurn candidates) :
    ∃ chosen : List String, selections key counters calls = chosen.map .ok ∧
      chosen.length = (callsOf key calls).length ∧ ∀ i ∈ candidates,
        chosen.count i = chosen.length / candidates.length ∨
          chosen.count i = chosen.length ⌈/⌉ candidates.length := by
  have hnonempty : candidates ≠ [] := List.ne_nil_of_length_pos (by omega)
  refine ⟨_, selections_rotate hnonempty htwo h, length_turns, fun i hi => ?_⟩
  rw [length_turns]
  exact count_turns hnodup hi

/-- A call for a group with two instances, neither of which sleeps or drains. -/
def evenCall (modelKey : String) : SelectCall Nat where
  app := {}
  now := 0
  modelKey := modelKey
  instances := ["a", "b"]
  strategy := some "round_robin"
  margin := 50
  draw := (0, 0)
  sha1 := fun _ => 0

/-- Two calls for a group between which three come for another. -/
theorem round_robin_fair_between : ∃ chosen : List String,
    selections "g" (fun _ => 0)
        [evenCall "g", evenCall "h", evenCall "h", evenCall "h", evenCall "g"] = chosen.map .ok ∧
      chosen.length = 2 ∧ ∀ i ∈ ["a", "b"],
        chosen.count i = chosen.length / 2 ∨ chosen.count i = chosen.length ⌈/⌉ 2 :=
  round_robin_fair (fun _ => 0) (by decide : ["a", "b"].Nodup) (by decide)
    (by
      intro c hc
      have hcalls : callsOf "g"
          [evenCall "g", evenCall "h", evenCall "h", evenCall "h", evenCall "g"] =
            [evenCall "g", evenCall "g"] := by rfl
      rw [hcalls] at hc
      have hc : c = evenCall "g" := by simpa using hc
      subst hc
      exact ⟨rfl, by decide +kernel⟩)

end Llmops.Router
