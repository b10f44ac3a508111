import Llmops.Keys.Gate
import Llmops.Lib.Window

/-!
# The law of the rate limiter

A sequence of calls of `_check_rate` (`auth.py:34-48`), of any names and at any clock readings, with
the limiter's `_hits` between them.

* `rateLog_other`: what it answers a name depends on the calls of this name only;
* `Limited`: for a name with a constant positive limit, at most so many calls pass in any window
  `(t - 60, t]`, and one is rejected exactly if so many passed in the window that ends with it.
-/

namespace Llmops.Keys

open Llmops.Lib Llmops.Lib.Window

/-- A call of `_check_rate`, and the reading of its clock. -/
structure RateCall where
  name : String
  rpmLimit : Option Int
  now : Time

variable {ι : Type*}

/-- The call. -/
def Gate.rate (g : Gate ι) (c : RateCall) : Gate ι × Option Answer :=
  { g with mono := c.now }.checkRate c.name c.rpmLimit

/-- The calls of a sequence, each with its exception if it was rejected. -/
def rateLog : Gate ι → List RateCall → List (RateCall × Option Answer)
  | _, [] => []
  | g, c :: cs => (c, (g.rate c).2) :: rateLog (g.rate c).1 cs

/-- When calls of a name passed. -/
def passTimes (name : String) (log : List (RateCall × Option Answer)) : List Time :=
  (log.filter fun p => p.1.name = name ∧ p.2 = none).map (·.1.now)

/-- The limiter's law for a name, over the log of a sequence. -/
structure Limited (name : String) (limit : Int) (log : List (RateCall × Option Answer)) : Prop where
  window : ∀ t, (within 60 t (passTimes name log)).length ≤ limit
  rejects : ∀ before c rejected after, log = before ++ (c, rejected) :: after → c.name = name →
    (rejected ≠ none ↔ (within 60 c.now (passTimes name before)).length = limit)

section Law

variable {g h : Gate ι} {c : RateCall} {cs : List RateCall} {name : String} {limit : Int}

theorem rate_eq (hlimit : c.rpmLimit = some limit) (hpos : 0 < limit) :
    g.rate c = if limit ≤ (trailing 60 c.now (g.hits c.name)).length then
        ({ g with
            mono := c.now
            hits := Function.update g.hits c.name (trailing 60 c.now (g.hits c.name)) },
          some (.tooMany s!"rate limit exceeded for key '{c.name}' ({limit}/min)"))
      else ({ g with
          mono := c.now
          hits := Function.update g.hits c.name (trailing 60 c.now (g.hits c.name) ++ [c.now]) },
        none) := by
  unfold Gate.rate Gate.checkRate
  rw [hlimit, Option.filter_some, if_pos (by simpa using hpos.ne')]
  rfl

/-- A call of another name leaves the hits of this one. -/
theorem rate_hits_other (hne : c.name ≠ name) : (g.rate c).1.hits name = g.hits name := by
  unfold Gate.rate Gate.checkRate
  cases c.rpmLimit.filter (· ≠ 0) with
  | none => rfl
  | some limit =>
    dsimp only
    split_ifs <;> exact Function.update_of_ne (Ne.symm hne) _ _

/-- A call looks at the hits of its name and at its clock. -/
theorem rate_congr (hhits : g.hits c.name = h.hits c.name) :
    (g.rate c).2 = (h.rate c).2 ∧ (g.rate c).1.hits c.name = (h.rate c).1.hits c.name := by
  unfold Gate.rate Gate.checkRate Gate.trailing
  cases c.rpmLimit.filter (· ≠ 0) with
  | none => exact ⟨rfl, hhits⟩
  | some limit =>
    dsimp only
    rw [hhits]
    split_ifs
    · exact ⟨rfl, by simp⟩
    · exact ⟨rfl, by simp⟩

/-- **Calls of other names change nothing.** -/
theorem rateLog_other (hhits : g.hits name = h.hits name) :
    (rateLog g cs).filter (·.1.name = name) = rateLog h (cs.filter (·.name = name)) := by
  induction cs generalizing g h with
  | nil => rfl
  | cons c cs ih =>
    rw [rateLog]
    by_cases hname : c.name = name
    · subst hname
      obtain ⟨hanswer, hnext⟩ := rate_congr hhits
      rw [List.filter_cons_of_pos (by simp), List.filter_cons_of_pos (by simp), rateLog, hanswer,
        ih hnext]
    · rw [List.filter_cons_of_neg (by simpa using hname),
        List.filter_cons_of_neg (by simpa using hname),
        ih ((rate_hits_other hname).trans hhits)]

/-! ### The invariant -/

variable {log : List (RateCall × Option Answer)} {rejected : Option Answer} {now : Time}

theorem passTimes_concat : passTimes name (log ++ [(c, rejected)]) =
    passTimes name log ++ if c.name = name ∧ rejected = none then [c.now] else [] := by
  unfold passTimes
  rw [List.filter_append, List.map_append]
  split_ifs with hpass
  · rw [List.filter_cons_of_pos (by simpa using hpass)]
    rfl
  · rw [List.filter_cons_of_neg (by simpa using hpass)]
    rfl

/-- The limiter, after the calls of a log: its hits are what is left, and the law holds. -/
structure Fits (name : String) (limit : Int) (g : Gate ι) (log : List (RateCall × Option Answer))
    (now : Time) : Prop where
  kept : Kept 60 (passTimes name log) (g.hits name) now
  law : Limited name limit log

/-- The law for one more call. -/
theorem Limited.concat (h : Limited name limit log)
    (hwindow : ∀ t, (within 60 t (passTimes name (log ++ [(c, rejected)]))).length ≤ limit)
    (hlast : c.name = name →
      (rejected ≠ none ↔ (within 60 c.now (passTimes name log)).length = limit)) :
    Limited name limit (log ++ [(c, rejected)]) where
  window := hwindow
  rejects := by
    intro before c' rejected' after heq hname
    rcases List.eq_nil_or_concat' after with rfl | ⟨after, last, rfl⟩
    · obtain ⟨rfl, hpair⟩ := List.append_inj' heq rfl
      cases hpair
      exact hlast hname
    · rw [← List.cons_append, ← List.append_assoc] at heq
      obtain ⟨rfl, -⟩ := List.append_inj' heq rfl
      exact h.rejects before c' rejected' after rfl hname

/-- **What one call keeps.** -/
theorem Fits.call (h : Fits name limit g log now) (hpos : 0 < limit) (hnow : now ≤ c.now)
    (hconst : c.name = name → c.rpmLimit = some limit) :
    Fits name limit (g.rate c).1 (log ++ [(c, (g.rate c).2)]) c.now := by
  have hkept := h.kept.later hnow
  by_cases hname : c.name = name
  · subst hname
    have hatMost : ∀ t, (within 60 t (passTimes c.name log)).length ≤ limit := h.law.window
    rw [rate_eq (hconst rfl) hpos, hkept.trailing_eq]
    split_ifs with hfull
    · have hpasses : ∀ a, passTimes c.name (log ++ [(c, some a)]) = passTimes c.name log := by
        intro a
        rw [passTimes_concat, if_neg (by simp), List.append_nil]
      refine ⟨?_, h.law.concat (by simpa only [hpasses] using hatMost) fun _ => ?_⟩
      · rw [hpasses, ← hkept.trailing_eq]
        simpa using hkept.trim
      · exact iff_of_true (Option.some_ne_none _) (le_antisymm (hatMost _) hfull)
    · have hpasses : passTimes c.name (log ++ [(c, none)]) = passTimes c.name log ++ [c.now] := by
        rw [passTimes_concat, if_pos ⟨rfl, rfl⟩]
      have hroom : (within 60 c.now (passTimes c.name log)).length < limit.toNat := by omega
      have hbound : AtMost 60 limit.toNat (passTimes c.name log) := by
        intro t
        have := hatMost t
        omega
      refine ⟨?_, h.law.concat (fun t => ?_) fun _ => ?_⟩
      · rw [hpasses, ← hkept.trailing_eq]
        simpa using hkept.trim.pass
      · have := hbound.pass hkept.le_now hroom t
        rw [hpasses]
        omega
      · exact iff_of_false (fun hnone => hnone rfl) (by omega)
  · have hpasses : passTimes name (log ++ [(c, (g.rate c).2)]) = passTimes name log := by
      rw [passTimes_concat, if_neg fun hpass => hname hpass.1, List.append_nil]
    refine ⟨?_, h.law.concat (by simpa only [hpasses] using h.law.window) fun heq => ?_⟩
    · rw [hpasses, rate_hits_other hname]
      exact hkept
    · exact absurd heq hname

/-- What a sequence of calls keeps. -/
theorem Fits.calls (h : Fits name limit g log now) (hpos : 0 < limit)
    (hclock : (now :: cs.map (·.now)).Pairwise (· ≤ ·))
    (hconst : ∀ c ∈ cs, c.name = name → c.rpmLimit = some limit) :
    Limited name limit (log ++ rateLog g cs) := by
  induction cs generalizing g log now with
  | nil =>
    rw [rateLog, List.append_nil]
    exact h.law
  | cons c cs ih =>
    obtain ⟨hnow, hrest⟩ := List.pairwise_cons.mp hclock
    have hcall := h.call hpos (hnow c.now List.mem_cons_self) (hconst c List.mem_cons_self)
    have hlater := ih hcall hrest fun c' hc' => hconst c' (List.mem_cons_of_mem _ hc')
    rwa [List.append_assoc, List.singleton_append] at hlater

theorem Limited.empty (hpos : 0 < limit) : Limited name limit [] where
  window _ := hpos.le
  rejects before c rejected after heq := by simp at heq

/-- **The law of the rate limiter.** From an empty `_hits`, over any sequence of calls of any names
on a clock that does not go back: for a name with a constant positive limit, no window of a minute
has more calls that passed than the limit, a call is rejected exactly if the minute before it has as
many, and what the calls of this name are answered is what they would be alone. -/
theorem rate_law (g : Gate ι) (hfresh : g.hits = fun _ => []) (calls : List RateCall)
    (hclock : (calls.map (·.now)).Pairwise (· ≤ ·)) (name : String) (limit : Int) (hpos : 0 < limit)
    (hconst : ∀ c ∈ calls, c.name = name → c.rpmLimit = some limit) :
    Limited name limit (rateLog g calls) ∧
      (rateLog g calls).filter (·.1.name = name) =
        rateLog g (calls.filter (·.name = name)) := by
  refine ⟨?_, rateLog_other rfl⟩
  cases calls with
  | nil => exact Limited.empty hpos
  | cons c cs =>
    have hstart : Fits name limit g [] c.now :=
      ⟨by rw [hfresh]; exact Kept.empty, Limited.empty hpos⟩
    exact hstart.calls hpos (List.pairwise_cons.mpr ⟨by
      intro t ht
      rcases List.mem_cons.mp ht with rfl | ht
      · exact le_rfl
      · exact (List.pairwise_cons.mp hclock).1 t ht, hclock⟩) hconst

end Law

/-- A router that just started. -/
def freshGate : Gate Nat where
  keys := ⟨[], List.nodup_nil, List.nodup_nil⟩
  operators := ⟨[], List.nodup_nil, List.nodup_nil⟩

/-- Three calls of one name with the limit 1, the last one a minute after the first, and another
name's. -/
def ciCalls : List RateCall :=
  [⟨"ci", some 1, 0⟩, ⟨"ci", some 1, 10⟩, ⟨"dev", none, 59⟩, ⟨"ci", some 1, 60⟩]

theorem rate_law_ci : Limited "ci" 1 (rateLog freshGate ciCalls) ∧
    passTimes "ci" (rateLog freshGate ciCalls) = [0, 60] := by
  have hconst : ∀ c ∈ ciCalls, c.name = "ci" → c.rpmLimit = some 1 := by decide
  have hclock : (ciCalls.map (·.now)).Pairwise (· ≤ ·) := by decide +kernel
  exact ⟨(rate_law freshGate rfl ciCalls hclock "ci" 1 one_pos hconst).1, by decide +kernel⟩

end Llmops.Keys
