import Llmops.Lib.Json

/-!
# Python objects that can be mutated

Dictionaries and lists are objects of a heap and are reached by reference, so that two places can
share one. An operation (`Op`) takes the heap and leaves another, or raises. `copy.deepcopy` keeps a
memo of the objects that it has copied: what is shared in the original is shared in the copy.

* `Owned`: the old objects are untouched, and the new ones refer to new ones only;
* `Safe`: an operation keeps it so. There is a rule for each operation; an object may be written to
  if it is new (`Safe.setKey`), and a copy is new (`Safe.deepcopy`).
-/

namespace Llmops.Lib.Objects

/-- A value: one without parts, or a reference to an object. -/
inductive Val where
  | atom (v : Scalar)
  | ref (a : Nat)
  deriving DecidableEq, Repr

/-- An object. -/
inductive Obj where
  | dict (d : Dict Val)
  | list (xs : List Val)
  deriving DecidableEq, Repr

/-- The objects, each at its address. -/
abbrev Heap := List Obj

/-- An operation; `none` where it raises. -/
abbrev Op (α : Type) := StateT Heap Option α

namespace Op

/-! ## The operations -/

/-- A new object. -/
def alloc (o : Obj) : Op Val := fun h => some (.ref h.length, h ++ [o])

/-- The object that a value is. -/
def load : Val → Op Obj
  | .atom _ => fun _ => none
  | .ref a => fun h => h[a]?.map fun o => (o, h)

/-- The object at a reference becomes another. -/
def store : Val → Obj → Op Unit
  | .atom _, _ => fun _ => none
  | .ref a, o => fun h => some ((), h.set a o)

/-- The entries of a dictionary; anything else has no `items()`. -/
def items (v : Val) : Op (Dict Val) := do
  match ← load v with
  | .dict d => return d
  | .list _ => failure

/-- The elements of a list. -/
def elements (v : Val) : Op (List Val) := do
  match ← load v with
  | .list xs => return xs
  | .dict _ => failure

/-- `v.get(key)`. -/
def getKey (v : Val) (key : String) : Op (Option Val) := do
  return (← items v).get key

/-- `v[key] = x`. -/
def setKey (v : Val) (key : String) (x : Val) : Op Unit := do
  store v (.dict ((← items v).set key x))

/-- `v.setdefault(key, x)`. -/
def setDefault (v : Val) (key : String) (x : Val) : Op Val := do
  match ← getKey v key with
  | some y => return y
  | none => do
    setKey v key x
    return x

/-- `v.update(w)`. -/
def update (v w : Val) : Op Unit := do
  let d ← items v
  store v (.dict (d.update (← items w)))

/-- `v.append(x)`. -/
def append (v x : Val) : Op Unit := do
  store v (.list ((← elements v) ++ [x]))

/-- `v[n] = x`. -/
def setIndex (v : Val) (n : Nat) (x : Val) : Op Unit := do
  store v (.list ((← elements v).set n x))

/-- `isinstance(v, dict)`. -/
def isDict : Val → Op Bool
  | .atom _ => return false
  | .ref a => do
    match ← load (.ref a) with
    | .dict _ => return true
    | .list _ => return false

/-- `bool(v)`. -/
def truthy : Val → Op Bool
  | .atom .null => return false
  | .atom (.num x) => return x ≠ 0
  | .atom (.str s) => return s ≠ ""
  | .ref a => do
    match ← load (.ref a) with
    | .dict d => return !d.isEmpty
    | .list xs => return !xs.isEmpty

/-- The copies that were made, by the address of the original. -/
abbrev Memo := List (Nat × Val)

/-- `deepcopy(v, memo)`. Each nested call is for an object that has no copy yet, so that the number
of objects bounds the depth. -/
def copy : Nat → Memo → Val → Op (Val × Memo)
  | 0, _, _ => failure
  | _ + 1, memo, .atom v => return (.atom v, memo)
  | fuel + 1, memo, .ref a =>
    match memo.lookup a with
    | some v => return (v, memo)
    | none => do
      match ← load (.ref a) with
      | .list xs =>
        let y ← alloc (.list [])
        let memo ← xs.foldlM (fun memo x => do
          let (v, memo) ← copy fuel memo x
          append y v
          return memo) ((a, y) :: memo)
        return (y, memo)
      | .dict d =>
        let y ← alloc (.dict [])
        let memo ← d.foldlM (fun memo p => do
          let (v, memo) ← copy fuel memo p.2
          setKey y p.1 v
          return memo) ((a, y) :: memo)
        return (y, memo)

/-- `copy.deepcopy(v)`. -/
def deepcopy (v : Val) : Op Val := do
  let (w, _) ← copy ((← get).length + 1) [] v
  return w

end Op

/-! ## New objects -/

/-- A value that refers to no old object: `n` is the number of these. -/
def Val.Fresh (n : Nat) : Val → Prop
  | .atom _ => True
  | .ref a => n ≤ a

/-- An object that refers to no old object. -/
def Obj.Fresh (n : Nat) : Obj → Prop
  | .dict d => ∀ p ∈ d, p.2.Fresh n
  | .list xs => ∀ x ∈ xs, x.Fresh n

/-- The old objects are as they were, and the new ones refer to new ones only. -/
structure Owned (old h : Heap) : Prop where
  kept : old <+: h
  fresh : ∀ a o, old.length ≤ a → h[a]? = some o → o.Fresh old.length

/-- An operation that keeps the old objects as they are; its result has the property. -/
def Safe (old : Heap) {α : Type} (m : Op α) (Q : α → Prop) : Prop :=
  ∀ h a h', Owned old h → m h = some (a, h') → Owned old h' ∧ Q a

section Fresh

variable {n : Nat} {d e : Dict Val} {key : String} {x : Val}

theorem fresh_set (hd : ∀ p ∈ d, p.2.Fresh n) (hx : x.Fresh n) : ∀ p ∈ d.set key x, p.2.Fresh n := by
  induction d with
  | nil =>
    intro p hp
    rw [List.mem_singleton.mp hp]
    exact hx
  | cons q d ih =>
    obtain ⟨hq, hd⟩ := List.forall_mem_cons.mp hd
    rw [Dict.set]
    split_ifs
    · exact List.forall_mem_cons.mpr ⟨hx, hd⟩
    · exact List.forall_mem_cons.mpr ⟨hq, ih hd⟩

theorem fresh_update (hd : ∀ p ∈ d, p.2.Fresh n) (he : ∀ p ∈ e, p.2.Fresh n) :
    ∀ p ∈ d.update e, p.2.Fresh n := by
  induction e generalizing d with
  | nil => exact hd
  | cons q e ih =>
    obtain ⟨hq, he⟩ := List.forall_mem_cons.mp he
    exact ih (fresh_set hd hq) he

end Fresh

namespace Safe

variable {old : Heap} {α β γ : Type} {m : Op α} {f : α → Op β} {Q : α → Prop} {R : β → Prop}

/-! ## Rules -/

theorem pure {a : α} (h : Q a) : Safe old (Pure.pure a) Q := by
  rintro heap b heap' hown hrun
  cases hrun
  exact ⟨hown, h⟩

theorem failure : Safe old (failure : Op α) Q := by
  rintro heap b heap' - hrun
  cases hrun

theorem bind (hm : Safe old m Q) (hf : ∀ a, Q a → Safe old (f a) R) : Safe old (m >>= f) R := by
  intro heap b heap' hown hrun
  obtain ⟨⟨a, mid⟩, ha, hrun⟩ := Option.bind_eq_some_iff.mp hrun
  obtain ⟨hmid, hq⟩ := hm heap a mid hown ha
  exact hf a hq mid b heap' hmid hrun

theorem mono {Q' : α → Prop} (hm : Safe old m Q) (h : ∀ a, Q a → Q' a) : Safe old m Q' :=
  fun heap a heap' hown hrun => (hm heap a heap' hown hrun).imp_right (h a)

/-- A loop keeps what each of its rounds keeps. -/
theorem foldlM {xs : List γ} {step : α → γ → Op α} {a : α} (ha : Q a)
    (h : ∀ a, ∀ x ∈ xs, Q a → Safe old (step a x) Q) : Safe old (xs.foldlM step a) Q := by
  induction xs generalizing a with
  | nil => exact pure ha
  | cons x xs ih =>
    rw [List.foldlM_cons]
    refine bind (h a x List.mem_cons_self ha) fun b hb => ?_
    exact ih hb fun a y hy => h a y (List.mem_cons_of_mem _ hy)

theorem forM {xs : List γ} {step : γ → Op PUnit} (h : ∀ x ∈ xs, Safe old (step x) fun _ => True) :
    Safe old (xs.forM step) fun _ => True := by
  induction xs with
  | nil => exact pure trivial
  | cons x xs ih =>
    change Safe old (step x >>= fun _ => xs.forM step) _
    refine bind (h x List.mem_cons_self) fun _ _ => ?_
    exact ih fun y hy => h y (List.mem_cons_of_mem _ hy)

theorem mapM {xs : List γ} {step : γ → Op β} (h : ∀ x ∈ xs, Safe old (step x) fun _ => True) :
    Safe old (xs.mapM step) fun _ => True := by
  induction xs with
  | nil => exact pure trivial
  | cons x xs ih =>
    rw [List.mapM_cons]
    refine bind (h x List.mem_cons_self) fun _ _ => ?_
    exact bind (ih fun y hy => h y (List.mem_cons_of_mem _ hy)) fun _ _ => pure trivial

/-! ## Reading -/

/-- An object that is read is an old one, or it refers to new ones only. -/
theorem load (v : Val) : Safe old (Op.load v) fun o => v.Fresh old.length → o.Fresh old.length := by
  intro heap o heap' hown hrun
  cases v with
  | atom => cases hrun
  | ref a =>
    obtain ⟨o', ho, heq⟩ := Option.map_eq_some_iff.mp hrun
    cases heq
    exact ⟨hown, fun ha => hown.fresh a o ha ho⟩

theorem items (v : Val) :
    Safe old (Op.items v) fun d => v.Fresh old.length → ∀ p ∈ d, p.2.Fresh old.length := by
  refine bind (load v) fun o ho => ?_
  cases o with
  | dict d => exact pure ho
  | list xs => exact failure

theorem elements (v : Val) :
    Safe old (Op.elements v) fun xs => v.Fresh old.length → ∀ x ∈ xs, x.Fresh old.length := by
  refine bind (load v) fun o ho => ?_
  cases o with
  | dict d => exact failure
  | list xs => exact pure ho

theorem getKey (v : Val) (key : String) : Safe old (Op.getKey v key) fun x =>
    v.Fresh old.length → ∀ y, x = some y → y.Fresh old.length := by
  refine bind (items v) fun d hd => pure fun hv y hy => ?_
  exact hd hv _ (Dict.mem_of_get hy)

theorem isDict (v : Val) : Safe old (Op.isDict v) fun _ => True := by
  cases v with
  | atom => exact pure trivial
  | ref a =>
    refine bind (load (.ref a)) fun o _ => ?_
    cases o <;> exact pure trivial

theorem truthy (v : Val) : Safe old (Op.truthy v) fun _ => True := by
  cases v with
  | atom x => cases x <;> exact pure trivial
  | ref a =>
    refine bind (load (.ref a)) fun o _ => ?_
    cases o <;> exact pure trivial

/-! ## Writing -/

theorem alloc {o : Obj} (ho : o.Fresh old.length) :
    Safe old (Op.alloc o) fun v => v.Fresh old.length := by
  intro heap v heap' hown hrun
  cases hrun
  refine ⟨⟨hown.kept.trans (List.prefix_append _ _), fun a o' ha ho' => ?_⟩, hown.kept.length_le⟩
  rw [List.getElem?_append] at ho'
  split_ifs at ho' with hlt
  · exact hown.fresh a o' ha ho'
  · have hmem := List.mem_of_getElem? ho'
    rw [List.mem_singleton] at hmem
    rw [hmem]
    exact ho

/-- A new object may be written to. -/
theorem store {v : Val} {o : Obj} (hv : v.Fresh old.length) (ho : o.Fresh old.length) :
    Safe old (Op.store v o) fun _ => True := by
  intro heap u heap' hown hrun
  cases v with
  | atom => cases hrun
  | ref a =>
    cases hrun
    obtain ⟨news, rfl⟩ := hown.kept
    refine ⟨⟨?_, fun b o' hb ho' => ?_⟩, trivial⟩
    · rw [List.set_append_right _ _ hv]
      exact List.prefix_append _ _
    · rw [List.getElem?_set] at ho'
      split_ifs at ho' with heq hlt
      · cases ho'
        exact ho
      · exact hown.fresh b o' hb ho'

theorem setKey {v x : Val} {key : String} (hv : v.Fresh old.length) (hx : x.Fresh old.length) :
    Safe old (Op.setKey v key x) fun _ => True :=
  bind (items v) fun _ hd => store hv (fresh_set (hd hv) hx)

theorem setDefault {v x : Val} {key : String} (hv : v.Fresh old.length) (hx : x.Fresh old.length) :
    Safe old (Op.setDefault v key x) fun y => y.Fresh old.length := by
  refine bind (getKey v key) fun found hfound => ?_
  cases found with
  | none => exact bind (setKey hv hx) fun _ _ => pure hx
  | some y => exact pure (hfound hv y rfl)

theorem update {v w : Val} (hv : v.Fresh old.length) (hw : w.Fresh old.length) :
    Safe old (Op.update v w) fun _ => True := by
  refine bind (items v) fun d hd => bind (items w) fun e he => store hv ?_
  exact fresh_update (hd hv) (he hw)

theorem append {v x : Val} (hv : v.Fresh old.length) (hx : x.Fresh old.length) :
    Safe old (Op.append v x) fun _ => True := by
  refine bind (elements v) fun xs hxs => store hv fun y hy => ?_
  obtain hy | hy := List.mem_append.mp hy
  · exact hxs hv y hy
  · rw [List.mem_singleton.mp hy]
    exact hx

theorem setIndex {v x : Val} {n : Nat} (hv : v.Fresh old.length) (hx : x.Fresh old.length) :
    Safe old (Op.setIndex v n x) fun _ => True := by
  refine bind (elements v) fun xs hxs => store hv fun y hy => ?_
  obtain hy | rfl := List.mem_or_eq_of_mem_set hy
  · exact hxs hv y hy
  · exact hx

/-! ## Copies -/

/-- The copies in a memo are new objects. -/
def MemoFresh (old : Heap) (memo : Op.Memo) : Prop := ∀ p ∈ memo, p.2.Fresh old.length

theorem copy (fuel : Nat) (memo : Op.Memo) (v : Val) (hmemo : MemoFresh old memo) :
    Safe old (Op.copy fuel memo v) fun r => r.1.Fresh old.length ∧ MemoFresh old r.2 := by
  induction fuel generalizing memo v with
  | zero => exact failure
  | succ fuel ih =>
    cases v with
    | atom x => exact pure ⟨trivial, hmemo⟩
    | ref a =>
      unfold Op.copy
      split
      · next v hv =>
        obtain ⟨memo₁, memo₂, hsplit, -⟩ := List.lookup_eq_some_iff.mp hv
        refine pure ⟨hmemo (a, v) ?_, hmemo⟩
        rw [hsplit]
        exact List.mem_append_right _ List.mem_cons_self
      · refine bind (load (.ref a)) fun o _ => ?_
        cases o with
        | list xs =>
          refine bind (alloc fun x hx => absurd hx List.not_mem_nil) fun y hy => ?_
          have hstart : MemoFresh old ((a, y) :: memo) := List.forall_mem_cons.mpr ⟨hy, hmemo⟩
          refine bind (foldlM (Q := MemoFresh old) hstart fun memo x _ hm => ?_) fun memo hm =>
            pure ⟨hy, hm⟩
          exact bind (ih memo x hm) fun r hr => bind (append hy hr.1) fun _ _ => pure hr.2
        | dict d =>
          refine bind (alloc fun x hx => absurd hx List.not_mem_nil) fun y hy => ?_
          have hstart : MemoFresh old ((a, y) :: memo) := List.forall_mem_cons.mpr ⟨hy, hmemo⟩
          refine bind (foldlM (Q := MemoFresh old) hstart fun memo p _ hm => ?_) fun memo hm =>
            pure ⟨hy, hm⟩
          exact bind (ih memo p.2 hm) fun r hr => bind (setKey hy hr.1) fun _ _ => pure hr.2

/-- **A copy is new.** -/
theorem deepcopy (v : Val) : Safe old (Op.deepcopy v) fun w => w.Fresh old.length := by
  have hget : Safe old (get : Op Heap) fun _ => True := by
    intro heap h heap' hown hrun
    cases hrun
    exact ⟨hown, trivial⟩
  refine bind hget fun heap _ => ?_
  exact bind (copy _ [] v fun p hp => absurd hp List.not_mem_nil) fun r hr => pure hr.1

/-- What a safe operation leaves of the old objects: all of them. -/
theorem kept (hm : Safe old m Q) {a : α} {heap : Heap} (h : m old = some (a, heap)) :
    old <+: heap := by
  refine (hm old a heap ⟨List.prefix_rfl, fun b o hb ho => ?_⟩ h).1.kept
  have hlt := (List.getElem?_eq_some_iff.mp ho).1
  omega

end Safe

end Llmops.Lib.Objects
