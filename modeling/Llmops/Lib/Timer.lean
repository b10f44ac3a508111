import Mathlib

/-!
# Timers of a sampled condition

A controller samples a condition at events and keeps the time since when it holds in an optional
timer: an event that sees it false resets the timer, one that sees it true sets a timer that is not
set, and one that does not look leaves it alone.

`Timer.Sound good time es timer` says what a set timer stands for after the events `es`: it is the
time of a `good` event, and every event since then is good, or did not look. It is kept by the
three moves (`Timer.Sound.reset`, `.arm`, `.keep`), so that a controller with any number of timers
has one invariant for each, and `Timer.Sound.lasted` reads the time it has run for off.
-/

namespace Llmops.Lib

variable {ε τ : Type*}

/-- The last part of a history, from an event at `since` on: that event is good, and so is every
event after it that looked. -/
def Since (good looks : ε → Prop) (time : ε → τ) (es : List ε) (since : τ) : Prop :=
  ∃ before first rest, es = before ++ first :: rest ∧ time first = since ∧ looks first ∧
    ∀ e ∈ first :: rest, looks e → good e

/-- Such a part has lasted for `span` until `now`. -/
def Lasted [Sub τ] [LE τ] (good looks : ε → Prop) (time : ε → τ) (es : List ε) (now span : τ) :
    Prop :=
  ∃ since, Since good looks time es since ∧ span ≤ now - since

/-- A timer that is set marks such a part. -/
def Timer.Sound (good looks : ε → Prop) (time : ε → τ) (es : List ε) (timer : Option τ) : Prop :=
  ∀ since ∈ timer, Since good looks time es since

namespace Timer

variable {good looks : ε → Prop} {time : ε → τ} {es : List ε} {e : ε} {since : τ}
  {timer : Option τ}

theorem since_now (hlooks : looks e) (hgood : good e) :
    Since good looks time (es ++ [e]) (time e) := by
  refine ⟨es, e, [], rfl, rfl, hlooks, fun x hx _ => ?_⟩
  rw [List.mem_singleton.mp hx]
  exact hgood

theorem since_snoc (h : Since good looks time es since) (hgood : looks e → good e) :
    Since good looks time (es ++ [e]) since := by
  obtain ⟨before, first, rest, rfl, htime, hlooks, hall⟩ := h
  refine ⟨before, first, rest ++ [e], by simp, htime, hlooks, fun x hx => ?_⟩
  rcases List.mem_append.mp (show x ∈ (first :: rest) ++ [e] from hx) with hx | hx
  · exact hall x hx
  · rw [List.mem_singleton.mp hx]
    exact hgood

theorem Sound.reset : Sound good looks time es none := by
  rintro _ ⟨⟩

/-- An event that does not look leaves the timer alone. -/
theorem Sound.keep (h : Sound good looks time es timer) (hskip : ¬ looks e) :
    Sound good looks time (es ++ [e]) timer :=
  fun since hs => since_snoc (h since hs) fun hlooks => absurd hlooks hskip

/-- An event that sees the condition sets the timer, unless it is set. -/
theorem Sound.arm (h : Sound good looks time es timer) (hlooks : looks e) (hgood : good e) :
    Sound good looks time (es ++ [e]) (some (timer.getD (time e))) := by
  intro since hs
  cases timer with
  | none =>
    obtain rfl := Option.some.inj hs
    exact since_now hlooks hgood
  | some start =>
    obtain rfl := Option.some.inj hs
    exact since_snoc (h start rfl) fun _ => hgood

/-- **What a timer has run for**: a part of the history that lasted as long. -/
theorem Sound.lasted [Sub τ] [LE τ] (h : Sound good looks time es (some since)) {now span : τ}
    (hspan : span ≤ now - since) : Lasted good looks time es now span :=
  ⟨since, h since rfl, hspan⟩

end Timer

/-- The last event is part of what lasted. -/
theorem Lasted.last [Sub τ] [LE τ] {good looks : ε → Prop} {time : ε → τ} {es : List ε} {e : ε}
    {now span : τ} (h : Lasted good looks time (es ++ [e]) now span) (hlooks : looks e) : good e := by
  obtain ⟨since, ⟨before, first, rest, hes, -, -, hall⟩, -⟩ := h
  refine hall e ?_ hlooks
  have hlast := congrArg List.getLast? hes
  rw [List.getLast?_concat, List.getLast?_append_cons] at hlast
  exact List.mem_of_getLast? hlast.symm

end Llmops.Lib
