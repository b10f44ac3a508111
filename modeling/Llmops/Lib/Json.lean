import Mathlib

/-!
# JSON values and Python's dictionaries

The values that `json.load` and `yaml.safe_load` bring, and the dictionary methods on association
lists: lookups find the first entry of a key, `set` replaces that entry in place or appends one.
A dictionary that Python built has every key once (`Dict.Unique`); the methods keep it so. The floats
that are no numbers are left out, and so are the mappings with keys that are not strings and the
dates and binaries of YAML.
-/

namespace Llmops.Lib

/-- A conversion of every element of a list, element by element. -/
theorem mapM_eq_some_iff {α β : Type*} {f : α → Option β} {xs : List α} {ys : List β} :
    xs.mapM f = some ys ↔ List.Forall₂ (fun x y => f x = some y) xs ys := by
  induction xs generalizing ys with
  | nil => cases ys <;> simp
  | cons x xs ih =>
    rw [List.mapM_cons]
    cases ys with
    | nil => simp [Option.bind_eq_some_iff]
    | cons y ys =>
      rw [List.forall₂_cons, ← ih]
      simp [Option.bind_eq_some_iff]

theorem mapM_isSome_iff {α β : Type*} {f : α → Option β} {xs : List α} :
    (xs.mapM f).isSome ↔ ∀ x ∈ xs, (f x).isSome := by
  induction xs with
  | nil => simp
  | cons x xs ih =>
    rw [List.mapM_cons, List.forall_mem_cons, ← ih]
    cases f x with
    | none => simp
    | some y => cases xs.mapM f <;> simp

theorem map_of_mapM {α β : Type*} {f : α → Option β} {xs : List α} {ys : List β}
    (h : xs.mapM f = some ys) : xs.map f = ys.map some := by
  induction mapM_eq_some_iff.mp h with
  | nil => rfl
  | cons hx htail ih => rw [List.map_cons, List.map_cons, hx, ih (mapM_eq_some_iff.mpr htail)]

/-- A dictionary with string keys, in insertion order. -/
abbrev Dict (V : Type*) := List (String × V)

namespace Dict

variable {V : Type*}

/-- `d.get(key)`. -/
def get (d : Dict V) (key : String) : Option V := d.lookup key

/-- `key in d`. -/
def has (d : Dict V) (key : String) : Bool := (d.get key).isSome

/-- `d[key] = v`. -/
def set : Dict V → String → V → Dict V
  | [], key, v => [(key, v)]
  | (k, x) :: d, key, v => if k = key then (key, v) :: d else (k, x) :: set d key v

/-- `d.setdefault(key, v)`, as an effect on `d`. -/
def setDefault (d : Dict V) (key : String) (v : V) : Dict V := if d.has key then d else d.set key v

/-- `d.update(e)`. -/
def update (d e : Dict V) : Dict V := e.foldl (fun d p => d.set p.1 p.2) d

/-- `d.pop(key, None)`, as an effect on `d`. -/
def pop (d : Dict V) (key : String) : Dict V := d.filter (·.1 ≠ key)

/-- `list(d)`. -/
def keys (d : Dict V) : List String := d.map Prod.fst

/-- Every key once. -/
def Unique (d : Dict V) : Prop := d.keys.Nodup

instance (d : Dict V) : Decidable d.Unique := inferInstanceAs (Decidable d.keys.Nodup)

variable {d e : Dict V} {key key' k : String} {v x : V}

@[simp] theorem get_nil : get ([] : Dict V) key = none := rfl

theorem get_cons : get ((k, x) :: d) key = if key = k then some x else d.get key := by
  unfold get
  rw [List.lookup_cons]
  by_cases h : key = k
  · simp [h]
  · rw [if_neg h, show (key == k) = false from beq_false_of_ne h]

@[simp] theorem get_cons_self : get ((k, x) :: d) k = some x := by rw [get_cons, if_pos rfl]

theorem get_cons_ne (h : key ≠ k) : get ((k, x) :: d) key = d.get key := by
  rw [get_cons, if_neg h]

theorem get_append : get (d ++ e) key = (d.get key).or (e.get key) := List.lookup_append

theorem get_eq_none_iff : d.get key = none ↔ key ∉ d.keys := by
  unfold get keys
  rw [List.lookup_eq_none_iff]
  constructor
  · intro h hmem
    obtain ⟨p, hp, rfl⟩ := List.mem_map.mp hmem
    simpa using h p hp
  · intro h p hp
    simpa using fun hk : key = p.1 => h (List.mem_map.mpr ⟨p, hp, hk.symm⟩)

theorem has_iff : d.has key = true ↔ key ∈ d.keys := by
  rw [has, Option.isSome_iff_ne_none, ne_eq, get_eq_none_iff, not_not]

theorem mem_of_get (h : d.get key = some v) : (key, v) ∈ d := by
  induction d with
  | nil => cases h
  | cons p d ih =>
    rw [get_cons] at h
    split_ifs at h with hk
    · subst hk
      exact Option.some.inj h ▸ List.mem_cons_self
    · exact List.mem_cons_of_mem _ (ih h)

theorem get_of_mem (hd : d.Unique) (h : (key, v) ∈ d) : d.get key = some v := by
  induction d with
  | nil => cases h
  | cons p d ih =>
    obtain ⟨hp, hd⟩ := List.nodup_cons.mp hd
    rcases List.mem_cons.mp h with rfl | h
    · exact get_cons_self
    · have hne : key ≠ p.1 := fun hk => hp (hk ▸ List.mem_map.mpr ⟨_, h, rfl⟩)
      rw [get_cons_ne hne, ih hd h]

@[simp] theorem get_set_self : (d.set key v).get key = some v := by
  induction d with
  | nil => exact get_cons_self
  | cons p d ih =>
    rw [set]
    split_ifs with hk
    · exact get_cons_self
    · rw [get_cons_ne fun h => hk h.symm, ih]

theorem get_set_ne (h : k ≠ key) : (d.set key v).get k = d.get k := by
  induction d with
  | nil => exact get_cons_ne h
  | cons p d ih =>
    rw [set]
    split_ifs with hk
    · rw [get_cons_ne h, get_cons_ne (hk ▸ h)]
    · rw [get_cons, get_cons, ih]

theorem get_set : (d.set key v).get k = if k = key then some v else d.get k := by
  split_ifs with h
  · rw [h, get_set_self]
  · exact get_set_ne h

/-- Set to what it is. -/
theorem set_eq_self (h : d.get key = some v) : d.set key v = d := by
  induction d with
  | nil => cases h
  | cons p d ih =>
    obtain ⟨k, x⟩ := p
    rw [get_cons] at h
    by_cases hk : key = k
    · rw [if_pos hk] at h
      cases h
      simp [set, hk]
    · rw [if_neg hk] at h
      simp [set, Ne.symm hk, ih h]

/-- A key that is set again. -/
@[simp] theorem set_set : (d.set key v).set key x = d.set key x := by
  induction d with
  | nil => simp [set]
  | cons p d ih =>
    rw [set, set]
    split_ifs with hk
    · rw [set, if_pos rfl]
    · rw [set, if_neg hk, ih]

theorem mem_set_of_ne (h : k ≠ key) : (k, x) ∈ d.set key v ↔ (k, x) ∈ d := by
  induction d with
  | nil => simp [set, h]
  | cons p d ih =>
    rw [set]
    split_ifs with hk
    · simp [h, Prod.ext_iff, show k ≠ p.1 from hk ▸ h]
    · rw [List.mem_cons, List.mem_cons, ih]

theorem keys_set : (d.set key v).keys = if key ∈ d.keys then d.keys else d.keys ++ [key] := by
  induction d with
  | nil => rfl
  | cons p d ih =>
    rw [set]
    split_ifs with hk hmem hmem
    · simp [keys, hk]
    · exact absurd (by simp [keys, hk]) hmem
    · rw [keys, List.map_cons, ← keys, ih, if_pos]
      · rfl
      · exact (List.mem_cons.mp hmem).resolve_left fun h => hk h.symm
    · rw [keys, List.map_cons, ← keys, ih, if_neg]
      · rfl
      · exact fun h => hmem (List.mem_cons_of_mem _ h)

theorem mem_keys_set : k ∈ (d.set key v).keys ↔ k = key ∨ k ∈ d.keys := by
  rw [keys_set]
  split_ifs with h
  · constructor
    · exact .inr
    · rintro (rfl | h')
      · exact h
      · exact h'
  · rw [List.mem_append, List.mem_singleton, or_comm]

theorem Unique.set (h : d.Unique) : (d.set key v).Unique := by
  unfold Unique at h ⊢
  rw [keys_set]
  split_ifs with hk
  · exact h
  · exact List.nodup_append.mpr ⟨h, List.nodup_singleton _, by rintro a ha b hb rfl; simp_all⟩

theorem get_setDefault_self : (d.setDefault key v).get key = some ((d.get key).getD v) := by
  unfold setDefault
  split_ifs with h
  · obtain ⟨x, hx⟩ := Option.isSome_iff_exists.mp h
    rw [hx]
    rfl
  · rw [get_set_self, Option.not_isSome_iff_eq_none.mp h]
    rfl

@[simp] theorem update_nil : d.update [] = d := rfl

theorem update_cons (p : String × V) : d.update (p :: e) = (d.set p.1 p.2).update e := rfl

theorem get_update_of_notMem (h : k ∉ e.keys) : (d.update e).get k = d.get k := by
  induction e generalizing d with
  | nil => rfl
  | cons p e ih =>
    have hk : k ≠ p.1 ∧ k ∉ keys e := by simpa [keys] using h
    rw [update_cons, ih hk.2, get_set_ne hk.1]

/-- After an update a key has the updating value, if there is one. -/
theorem get_update (he : e.Unique) : (d.update e).get k = (e.get k).or (d.get k) := by
  induction e generalizing d with
  | nil => simp
  | cons p e ih =>
    obtain ⟨hp, he⟩ := List.nodup_cons.mp he
    rw [update_cons, get_cons]
    split_ifs with hk
    · subst hk
      rw [get_update_of_notMem hp, get_set_self]
      rfl
    · rw [ih he, get_set_ne hk]

/-- What an update leaves under a key comes from one of the two. -/
theorem mem_of_get_update (h : (d.update e).get k = some v) : (k, v) ∈ e ∨ d.get k = some v := by
  induction e generalizing d with
  | nil => exact .inr h
  | cons p e ih =>
    obtain h | h := ih h
    · exact .inl (List.mem_cons_of_mem _ h)
    · rw [get_set] at h
      split_ifs at h with hk
      · cases h
        exact .inl (hk ▸ List.mem_cons_self)
      · exact .inr h

/-- Updating with new keys, each once, appends them. -/
theorem update_eq_append (he : e.Unique) (hd : ∀ k ∈ e.keys, k ∉ d.keys) : d.update e = d ++ e := by
  induction e generalizing d with
  | nil => simp
  | cons p e ih =>
    obtain ⟨hp, he⟩ := List.nodup_cons.mp he
    have hset : d.set p.1 p.2 = d ++ [p] := by
      have hnew : p.1 ∉ d.keys := hd _ List.mem_cons_self
      clear ih hd
      induction d with
      | nil => rfl
      | cons q d ihd =>
        obtain ⟨hq, hd⟩ := not_or.mp (mt List.mem_cons.mpr hnew)
        rw [set, if_neg fun h => hq h.symm, ihd hd]
        rfl
    rw [update_cons, hset, ih he, List.append_assoc]
    · rfl
    · intro k hk hmem
      simp only [keys, List.map_append, List.map_cons, List.map_nil, List.mem_append,
        List.mem_singleton] at hmem
      obtain hmem | rfl := hmem
      · exact hd k (List.mem_cons_of_mem _ hk) hmem
      · exact hp hk

theorem mem_keys_update : k ∈ (d.update e).keys ↔ k ∈ d.keys ∨ k ∈ e.keys := by
  induction e generalizing d with
  | nil => simp [keys]
  | cons p e ih =>
    rw [update_cons, ih, mem_keys_set]
    simp only [keys, List.map_cons, List.mem_cons]
    tauto

theorem Unique.update (h : d.Unique) : (d.update e).Unique := by
  induction e generalizing d with
  | nil => exact h
  | cons p e ih => exact ih h.set

theorem get_pop_self : (d.pop key).get key = none := by
  rw [get_eq_none_iff]
  simp [pop, keys]

theorem get_pop_ne (h : k ≠ key) : (d.pop key).get k = d.get k := by
  induction d with
  | nil => rfl
  | cons p d ih =>
    unfold pop at ih ⊢
    rw [List.filter_cons]
    split_ifs with hk
    · rw [get_cons, get_cons, ih]
    · have hp : p.1 = key := by simpa using hk
      rw [get_cons_ne (hp ▸ h), ih]

theorem mem_keys_pop : k ∈ (d.pop key).keys ↔ k ∈ d.keys ∧ k ≠ key := by
  constructor
  · intro h
    obtain ⟨p, hp, rfl⟩ := List.mem_map.mp h
    obtain ⟨hp, hne⟩ := List.mem_filter.mp hp
    exact ⟨List.mem_map.mpr ⟨p, hp, rfl⟩, by simpa using hne⟩
  · rintro ⟨h, hne⟩
    obtain ⟨p, hp, rfl⟩ := List.mem_map.mp h
    exact List.mem_map.mpr ⟨p, List.mem_filter.mpr ⟨hp, by simpa using hne⟩, rfl⟩

theorem Unique.pop (h : d.Unique) : (d.pop key).Unique :=
  h.sublist (List.filter_sublist.map Prod.fst)

/-- The entries whose values pass. -/
def filterValues (f : V → Bool) (d : Dict V) : Dict V := d.filter fun p => f p.2

theorem Unique.filterValues (h : d.Unique) (f : V → Bool) : (d.filterValues f).Unique :=
  h.sublist (List.filter_sublist.map Prod.fst)

theorem get_filterValues {f : V → Bool} (hd : d.Unique) :
    (d.filterValues f).get key = (d.get key).filter f := by
  induction d with
  | nil => rfl
  | cons p d ih =>
    obtain ⟨hp, hd⟩ := List.nodup_cons.mp hd
    unfold filterValues at ih ⊢
    rw [List.filter_cons, get_cons]
    by_cases hk : key = p.1
    · subst hk
      have hnone : get d p.1 = none := get_eq_none_iff.mpr hp
      rw [if_pos rfl]
      split_ifs with hf
      · rw [get_cons_self, Option.filter_some, if_pos hf]
      · rw [ih hd, hnone, Option.filter_some, if_neg hf]
        rfl
    · rw [if_neg hk, ← ih hd]
      split_ifs
      · exact get_cons_ne hk
      · rfl

/-! ## Dictionaries of converted values -/

variable {W : Type*} {f : V → Option W}

/-- Every value converted; `none` if one cannot be. -/
def mapValues (f : V → Option W) : Dict V → Option (Dict W)
  | [] => some []
  | (k, v) :: d => do
    let w ← f v
    let e ← mapValues f d
    return (k, w) :: e

theorem mapValues_cons_eq_some {e : Dict W} :
    mapValues f ((k, v) :: d) = some e ↔
      ∃ w e', f v = some w ∧ mapValues f d = some e' ∧ e = (k, w) :: e' := by
  simp only [mapValues, Option.bind_eq_bind, Option.bind_eq_some_iff, Option.pure_def,
    Option.some.injEq]
  constructor
  · rintro ⟨w, hw, e', he', rfl⟩
    exact ⟨w, e', hw, he', rfl⟩
  · rintro ⟨w, e', hw, he', rfl⟩
    exact ⟨w, hw, e', he', rfl⟩

theorem keys_mapValues {e : Dict W} (h : mapValues f d = some e) : e.keys = d.keys := by
  induction d generalizing e with
  | nil =>
    cases h
    rfl
  | cons p d ih =>
    obtain ⟨w, e', -, he', rfl⟩ := mapValues_cons_eq_some.mp h
    rw [keys, List.map_cons, ← keys, ih he']
    rfl

theorem get_mapValues {e : Dict W} (h : mapValues f d = some e) : e.get k = (d.get k).bind f := by
  induction d generalizing e with
  | nil =>
    cases h
    rfl
  | cons p d ih =>
    obtain ⟨w, e', hw, he', rfl⟩ := mapValues_cons_eq_some.mp h
    rw [get_cons, get_cons, ih he']
    split_ifs
    · exact hw.symm
    · rfl

/-- The entries with other keys than these. -/
def without (d : Dict V) (fields : List String) : Dict V := d.filter (·.1 ∉ fields)

theorem Unique.without {fields : List String} (h : d.Unique) : (d.without fields).Unique :=
  h.sublist (List.filter_sublist.map Prod.fst)

theorem notMem_keys_without {fields : List String} (h : key ∈ fields) :
    key ∉ (d.without fields).keys := by
  simp [Dict.without, keys, h]

theorem without_set {fields : List String} (h : key ∈ fields) :
    (d.set key v).without fields = d.without fields := by
  induction d with
  | nil => simp [set, without, h]
  | cons p d ih =>
    obtain ⟨k, x⟩ := p
    by_cases hk : key = k
    · simp [set, without, ← hk, h]
    · rw [show set ((k, x) :: d) key v = (k, x) :: set d key v by simp [set, Ne.symm hk]]
      unfold without at ih ⊢
      rw [List.filter_cons, List.filter_cons, ih]

theorem get_without {fields : List String} (h : key ∉ fields) :
    (d.without fields).get key = d.get key := by
  induction d with
  | nil => rfl
  | cons p d ih =>
    unfold Dict.without at ih ⊢
    rw [List.filter_cons]
    split_ifs with hp
    · rw [get_cons, get_cons, ih]
    · have hne : key ≠ p.1 := fun hk => h (by simpa [hk] using hp)
      rw [get_cons_ne hne, ih]

end Dict

/-- A Python float that is a number, with the text that `repr` gives it. -/
structure PyFloat where
  value : ℚ
  repr : String
  deriving DecidableEq, Repr

/-- A JSON value. -/
inductive Json where
  | null
  | bool (b : Bool)
  | int (n : Int)
  | float (x : PyFloat)
  | str (s : String)
  | arr (xs : List Json)
  | obj (d : List (String × Json))
  deriving Inhabited, Repr

/-- What two hashable values are compared by: numbers by their value, `True` being `1`. -/
inductive Scalar where
  | null
  | num (x : ℚ)
  | str (s : String)
  deriving DecidableEq, Repr

namespace Json

/-- `bool(v)`. -/
def truthy : Json → Bool
  | null => false
  | bool b => b
  | int n => n ≠ 0
  | float x => x.value ≠ 0
  | str s => s ≠ ""
  | arr xs => !xs.isEmpty
  | obj d => !d.isEmpty

/-- The value as a dictionary key or member of a set; lists and dictionaries are not hashable. -/
def scalar : Json → Option Scalar
  | null => some .null
  | bool b => some (.num (if b then 1 else 0))
  | int n => some (.num n)
  | float x => some (.num x.value)
  | str s => some (.str s)
  | arr _ | obj _ => none

/-- The entries of an object. -/
def asObj : Json → Option (Dict Json)
  | obj d => some d
  | _ => none

/-- The elements of a list. -/
def asArr : Json → Option (List Json)
  | arr xs => some xs
  | _ => none

/-- A string. -/
def asStr : Json → Option String
  | str s => some s
  | _ => none

/-- `for x in v`: the elements of a list, the keys of an object, the characters of a string. -/
def iter : Json → Option (List Json)
  | arr xs => some xs
  | obj d => some ((Dict.keys d).map str)
  | str s => some (s.toList.map fun c => str (.singleton c))
  | _ => none

/-- The entries that `dict.update` takes from a value: those of an object, or a list of pairs. A pair
whose key is no string would leave a mapping that no schema accepts. -/
def pairs : Json → Option (Dict Json)
  | obj d => some d
  | arr xs => xs.mapM fun
    | arr [str k, v] => some (k, v)
    | obj [(k, _), (k', _)] => some (k, str k')
    | str s =>
      match s.toList with
      | [c, c'] => some (.singleton c, str (.singleton c'))
      | _ => none
    | _ => none
  | str s => if s = "" then some [] else none
  | _ => none

/-- `None`, or the value. -/
def ofOption {α : Type*} (f : α → Json) : Option α → Json
  | none => null
  | some a => f a

theorem asObj_eq_some {v : Json} {d : Dict Json} : v.asObj = some d ↔ v = obj d := by
  cases v <;> simp [asObj]

theorem asArr_eq_some {v : Json} {xs : List Json} : v.asArr = some xs ↔ v = arr xs := by
  cases v <;> simp [asArr]

theorem asStr_eq_some {v : Json} {s : String} : v.asStr = some s ↔ v = str s := by
  cases v <;> simp [asStr]

end Json

end Llmops.Lib
