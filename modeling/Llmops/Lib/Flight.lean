import Llmops.Lib.Json

/-!
# One flight for each key

A service starts background work under a key and keeps two dictionaries: the last object started
under a key, and the task of the work that runs. Objects are mutable and outlive their entries, so
they stand in a list, and an entry is an index of it.

`Flights` has the three moves that such a service makes: `launch` a new object, `update` one that
runs, and `land` one that ends. `Tracked` says that the dictionary of the tasks is exactly that of
the objects that run.

* `Tracked.launch`, `Tracked.update`, `Tracked.land`: the moves keep it, the first if the last object
  of the key does not run;
* `Tracked.unique`: two objects that run have different keys;
* `Tracked.has_iff`: a key has a task exactly if its last object runs.
-/

namespace Llmops.Lib

/-- The objects of a service and its two dictionaries. -/
structure Flights (α : Type*) where
  objects : List α := []
  current : Dict Nat := []
  tasks : Dict Nat := []

namespace Flights

variable {α : Type*} (key : α → String) (runs : α → Bool)

/-- A new object under its key. -/
def launch (f : Flights α) (x : α) : Flights α where
  objects := f.objects ++ [x]
  current := f.current.set (key x) f.objects.length
  tasks := f.tasks.set (key x) f.objects.length

/-- An object is written to. -/
def update (f : Flights α) (i : Nat) (x : α) : Flights α := { f with objects := f.objects.set i x }

/-- An object is written to for the last time, and its task goes. -/
def land (f : Flights α) (i : Nat) (x : α) : Flights α :=
  { f with objects := f.objects.set i x, tasks := f.tasks.pop (key x) }

/-- The last object of a key. -/
def last (f : Flights α) (k : String) : Option α := (f.current.get k).bind fun i => f.objects[i]?

/-- The tasks are those of the objects that run. -/
structure Tracked (f : Flights α) : Prop where
  current : ∀ {k i}, f.current.get k = some i → ∃ x, f.objects[i]? = some x ∧ key x = k
  task : ∀ {i x}, f.objects[i]? = some x → runs x = true → f.tasks.get (key x) = some i
  tasks : ∀ {k i}, f.tasks.get k = some i → f.current.get k = some i ∧
    ∃ x, f.objects[i]? = some x ∧ runs x = true

variable {key runs} {f : Flights α} {i j : Nat} {x y : α} {k : String}

theorem tracked_empty : Tracked key runs {} where
  current h := nomatch h
  task h := by simp at h
  tasks h := nomatch h

theorem getElem?_snoc {xs : List α} (h : (xs ++ [x])[i]? = some y) :
    xs[i]? = some y ∨ (i = xs.length ∧ y = x) := by
  rcases Nat.lt_or_ge i xs.length with hi | hi
  · rw [List.getElem?_append_left hi] at h
    exact .inl h
  · rw [List.getElem?_append_right hi] at h
    have hzero : i - xs.length = 0 := by
      by_contra hne
      rw [List.getElem?_eq_none (by simp; omega)] at h
      cases h
    rw [hzero] at h
    exact .inr ⟨by omega, (Option.some.inj h).symm⟩

theorem lt_of_getElem? {xs : List α} (h : xs[i]? = some x) : i < xs.length :=
  (List.getElem?_eq_some_iff.mp h).1

theorem getElem?_snoc_of {xs : List α} (h : xs[i]? = some y) : (xs ++ [x])[i]? = some y := by
  rw [List.getElem?_append_left (lt_of_getElem? h), h]

/-- The object at an index after a write. -/
theorem getElem?_set_eq {xs : List α} (h : (xs.set i x)[j]? = some y) :
    (j = i ∧ y = x) ∨ (j ≠ i ∧ xs[j]? = some y) := by
  by_cases hij : j = i
  · subst hij
    have hlt := lt_of_getElem? h
    rw [List.length_set] at hlt
    rw [List.getElem?_set_self hlt] at h
    exact .inl ⟨rfl, (Option.some.inj h).symm⟩
  · rw [List.getElem?_set_ne (Ne.symm hij)] at h
    exact .inr ⟨hij, h⟩

/-- **Two objects that run have different keys.** -/
theorem Tracked.unique (h : Tracked key runs f) (hi : f.objects[i]? = some x)
    (hj : f.objects[j]? = some y) (hx : runs x = true) (hy : runs y = true) (hkey : key x = key y) :
    i = j := by
  have hxi := h.task hi hx
  rw [hkey, h.task hj hy] at hxi
  exact (Option.some.inj hxi).symm

/-- **A key has a task exactly if its last object runs.** -/
theorem Tracked.has_iff (h : Tracked key runs f) :
    f.tasks.has k = true ↔ ∃ x, f.last k = some x ∧ runs x = true := by
  unfold Dict.has last
  constructor
  · intro htask
    obtain ⟨i, hi⟩ := Option.isSome_iff_exists.mp htask
    obtain ⟨hcurrent, x, hx, hruns⟩ := h.tasks hi
    exact ⟨x, by rw [hcurrent, Option.bind_some, hx], hruns⟩
  · rintro ⟨x, hlast, hruns⟩
    obtain ⟨i, hcurrent, hx⟩ := Option.bind_eq_some_iff.mp hlast
    obtain ⟨y, hy, hkey⟩ := h.current hcurrent
    obtain rfl := Option.some.inj (hx.symm.trans hy)
    rw [← hkey, h.task hx hruns]
    rfl

/-- A launch, where the last object of the key does not run. -/
theorem Tracked.launch (h : Tracked key runs f) (hx : runs x = true)
    (hfree : ∀ y, f.last (key x) = some y → runs y = false) :
    Tracked key runs (f.launch key x) := by
  -- no object of this key runs
  have hnone {j : Nat} {y : α} (hj : f.objects[j]? = some y) (hy : runs y = true) :
      key y ≠ key x := by
    intro hkey
    obtain ⟨hcurrent, -⟩ := h.tasks (h.task hj hy)
    rw [hkey] at hcurrent
    have hlast : f.last (key x) = some y := by
      unfold last
      rw [hcurrent, Option.bind_some, hj]
    rw [hfree y hlast] at hy
    cases hy
  have hself : (f.objects ++ [x])[f.objects.length]? = some x := by simp
  constructor
  · intro k i hi
    simp only [Flights.launch, Dict.get_set] at hi
    split_ifs at hi with hk
    · obtain rfl := Option.some.inj hi
      exact ⟨x, hself, hk.symm⟩
    · exact (h.current hi).imp fun y hy => ⟨getElem?_snoc_of hy.1, hy.2⟩
  · intro i y hi hy
    simp only [Flights.launch, Dict.get_set]
    rcases getElem?_snoc hi with hi | ⟨rfl, rfl⟩
    · rw [if_neg (hnone hi hy), h.task hi hy]
    · rw [if_pos rfl]
  · intro k i hi
    simp only [Flights.launch, Dict.get_set] at hi ⊢
    split_ifs at hi with hk
    · obtain rfl := Option.some.inj hi
      exact ⟨if_pos hk, x, hself, hx⟩
    · obtain ⟨hcurrent, y, hy, hruns⟩ := h.tasks hi
      exact ⟨by rw [if_neg hk, hcurrent], y, getElem?_snoc_of hy, hruns⟩

/-- A write that leaves the key, and whether the object runs, as they are. -/
theorem Tracked.update (h : Tracked key runs f) (hi : f.objects[i]? = some x) (hkey : key y = key x)
    (hruns : runs y = runs x) : Tracked key runs (f.update i y) := by
  have hlt := lt_of_getElem? hi
  have hget {j : Nat} {z : α} (hj : f.objects[j]? = some z) :
      ∃ w, (f.objects.set i y)[j]? = some w ∧ key w = key z ∧ runs w = runs z := by
    by_cases hij : i = j
    · subst hij
      obtain rfl := Option.some.inj (hi.symm.trans hj)
      exact ⟨y, List.getElem?_set_self hlt, hkey, hruns⟩
    · exact ⟨z, by rw [List.getElem?_set_ne hij, hj], rfl, rfl⟩
  constructor
  · intro k j hj
    obtain ⟨z, hz, rfl⟩ := h.current hj
    exact (hget hz).imp fun w hw => ⟨hw.1, hw.2.1⟩
  · intro j z hj hz
    rcases getElem?_set_eq hj with ⟨rfl, rfl⟩ | ⟨-, hj⟩
    · rw [hkey]
      exact h.task hi (hruns ▸ hz)
    · exact h.task hj hz
  · intro k j hj
    obtain ⟨hcurrent, z, hz, hr⟩ := h.tasks hj
    exact ⟨hcurrent, (hget hz).imp fun w hw => ⟨hw.1, hw.2.2.trans hr⟩⟩

/-- The last write to an object that runs. -/
theorem Tracked.land (h : Tracked key runs f) (hi : f.objects[i]? = some x) (hx : runs x = true)
    (hkey : key y = key x) (hruns : runs y = false) : Tracked key runs (f.land key i y) := by
  have hlt := lt_of_getElem? hi
  constructor
  · intro k j hj
    obtain ⟨z, hz, rfl⟩ := h.current hj
    by_cases hij : i = j
    · subst hij
      obtain rfl := Option.some.inj (hi.symm.trans hz)
      exact ⟨y, List.getElem?_set_self hlt, hkey⟩
    · exact ⟨z, by simp only [Flights.land, List.getElem?_set_ne hij, hz], rfl⟩
  · intro j z hj hz
    rcases getElem?_set_eq hj with ⟨rfl, rfl⟩ | ⟨hne, hj⟩
    · rw [hruns] at hz
      cases hz
    · have hother : key z ≠ key y := fun heq => hne (h.unique hj hi hz hx (heq.trans hkey))
      simp only [Flights.land, Dict.get_pop_ne hother]
      exact h.task hj hz
  · intro k j hj
    have hk : k ≠ key y := by
      rintro rfl
      simp [Flights.land, Dict.get_pop_self] at hj
    simp only [Flights.land, Dict.get_pop_ne hk] at hj ⊢
    obtain ⟨hcurrent, z, hz, hr⟩ := h.tasks hj
    refine ⟨hcurrent, z, ?_, hr⟩
    have hij : i ≠ j := by
      rintro rfl
      obtain rfl := Option.some.inj (hi.symm.trans hz)
      obtain ⟨w, hw, hwk⟩ := h.current hcurrent
      obtain rfl := Option.some.inj (hi.symm.trans hw)
      exact hk (hwk.symm.trans hkey.symm)
    rw [List.getElem?_set_ne hij, hz]

end Flights

end Llmops.Lib
