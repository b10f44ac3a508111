import Llmops.Lib.Json

/-!
# Conversions that can fail, of a whole list

* `mapM_eq_some_getElem`: the conversion of a list, place by place;
* `exists_mem_zip_left`, `exists_mem_zip_right`, `eq_of_mem_zip`: the elements beside what they are
  converted to;
* `mapM_perm`, `mapM_flatMap`: of a list in another order, and of parts one after the other;
* `flatMap_filter_perm`: the parts of a list by a key;
* `forall₂_take`: a list that was converted in part.
-/

namespace Llmops.Lib

/-- A conversion of every element, by the places. -/
theorem mapM_eq_some_getElem {α β : Type} {f : α → Option β} {as : List α} {bs : List β} :
    as.mapM f = some bs ↔
      as.length = bs.length ∧
        ∀ (n : Nat) (a : α), as[n]? = some a → ∃ b, bs[n]? = some b ∧ f a = some b := by
  rw [mapM_eq_some_iff]
  constructor
  · intro h
    refine ⟨h.length_eq, ?_⟩
    induction h with
    | nil => simp
    | cons hab _ ih =>
      intro n a ha
      cases n with
      | zero =>
        cases ha
        exact ⟨_, rfl, hab⟩
      | succ n => exact ih n a ha
  · rintro ⟨hlen, h⟩
    induction as generalizing bs with
    | nil =>
      cases List.eq_nil_of_length_eq_zero hlen.symm
      exact .nil
    | cons a as ih =>
      cases bs with
      | nil => cases hlen
      | cons b bs =>
        obtain ⟨_, hb, hab⟩ := h 0 a rfl
        cases hb
        exact .cons hab (ih (Nat.succ.inj hlen) fun n => h (n + 1))

/-- The parts of a list by a key, for distinct keys that are all there are. -/
theorem flatMap_filter_perm {α κ : Type*} [DecidableEq κ] {key : α → κ} {ks : List κ} {xs : List α}
    (hks : ks.Nodup) (h : ∀ x ∈ xs, key x ∈ ks) :
    (ks.flatMap fun k => xs.filter fun x => key x = k).Perm xs := by
  induction ks generalizing xs with
  | nil =>
    have hnil : xs = [] := List.eq_nil_iff_forall_not_mem.mpr fun x hx => by simpa using h x hx
    rw [hnil]
    rfl
  | cons k ks ih =>
    obtain ⟨hk, hks⟩ := List.nodup_cons.mp hks
    have hrest : (ks.flatMap fun k => xs.filter fun x => key x = k) =
        ks.flatMap fun k' => (xs.filter fun x => !decide (key x = k)).filter fun x => key x = k' := by
      refine List.flatMap_congr fun k' hk' => ?_
      rw [List.filter_filter]
      refine List.filter_congr fun x _ => ?_
      have hne : k' ≠ k := fun heq => hk (heq ▸ hk')
      by_cases hx : key x = k'
      · simp [hx, hne]
      · simp [hx]
    rw [List.flatMap_cons, hrest]
    refine (List.Perm.append_left _ (ih hks fun x hx => ?_)).trans (List.filter_append_perm _ xs)
    obtain ⟨hx, hne⟩ := List.mem_filter.mp hx
    exact (List.mem_cons.mp (h x hx)).resolve_left (by simpa using hne)

/-- Every element stands beside its conversion. -/
theorem exists_mem_zip_left {α β : Type} {f : α → Option β} {as : List α} {bs : List β} {a : α}
    (h : as.mapM f = some bs) (ha : a ∈ as) : ∃ b, (a, b) ∈ as.zip bs := by
  have hlen : as.length = bs.length := (mapM_eq_some_iff.mp h).length_eq
  obtain ⟨n, hn⟩ := List.getElem?_of_mem ha
  have hlt : n < bs.length := hlen ▸ (List.getElem?_eq_some_iff.mp hn).1
  exact ⟨bs[n], List.mem_iff_getElem?.mpr
    ⟨n, List.getElem?_zip_eq_some.mpr ⟨hn, List.getElem?_eq_getElem hlt⟩⟩⟩

/-- Every conversion stands beside the element that it is of. -/
theorem exists_mem_zip_right {α β : Type} {f : α → Option β} {as : List α} {bs : List β} {b : β}
    (h : as.mapM f = some bs) (hb : b ∈ bs) : ∃ a, (a, b) ∈ as.zip bs := by
  have hlen : as.length = bs.length := (mapM_eq_some_iff.mp h).length_eq
  obtain ⟨n, hn⟩ := List.getElem?_of_mem hb
  have hlt : n < as.length := hlen ▸ (List.getElem?_eq_some_iff.mp hn).1
  exact ⟨as[n], List.mem_iff_getElem?.mpr
    ⟨n, List.getElem?_zip_eq_some.mpr ⟨List.getElem?_eq_getElem hlt, hn⟩⟩⟩

theorem eq_of_mem_zip {α β : Type} {f : α → Option β} {as : List α} {bs : List β} {a : α} {b : β}
    (h : as.mapM f = some bs) (hab : (a, b) ∈ as.zip bs) : f a = some b :=
  (List.forall₂_iff_zip.mp (mapM_eq_some_iff.mp h)).2 hab

/-- Conversions of a list in another order. -/
theorem mapM_perm {α β : Type} {f : α → Option β} {xs xs' : List α} {ys : List β}
    (h : xs.mapM f = some ys) (hperm : xs.Perm xs') : ∃ ys', xs'.mapM f = some ys' ∧ ys.Perm ys' := by
  have hsome : (xs'.mapM f).isSome := mapM_isSome_iff.mpr fun x hx =>
    mapM_isSome_iff.mp (by rw [h]; rfl) x (hperm.mem_iff.mpr hx)
  obtain ⟨ys', hys'⟩ := Option.isSome_iff_exists.mp hsome
  refine ⟨ys', hys', ?_⟩
  have hmap := hperm.map f
  rw [map_of_mapM h, map_of_mapM hys'] at hmap
  exact (List.map_perm_map_iff (Option.some_injective β)).mp hmap

theorem mapM_flatMap {α β κ : Type} {f : α → Option β} {g : κ → List α} {rows : κ → List β}
    {ks : List κ} (h : ∀ k ∈ ks, (g k).mapM f = some (rows k)) :
    (ks.flatMap g).mapM f = some (ks.flatMap rows) := by
  induction ks with
  | nil => rfl
  | cons k ks ih =>
    obtain ⟨hk, h⟩ := List.forall_mem_cons.mp h
    rw [List.flatMap_cons, List.flatMap_cons, List.mapM_append, hk, ih h]
    rfl

/-- A fold that does not fail fails at no element. -/
theorem foldlM_isSome {α β : Type} {f : β → α → Option β} {b : β} {as : List α}
    (h : (as.foldlM f b).isSome) : ∀ a ∈ as, ∃ b, (f b a).isSome := by
  induction as generalizing b with
  | nil => simp
  | cons a as ih =>
    rw [List.foldlM_cons] at h
    cases hstep : f b a with
    | none => simp [hstep] at h
    | some b' =>
      rw [hstep] at h
      exact List.forall_mem_cons.mpr ⟨⟨b, by rw [hstep]; rfl⟩, ih h⟩

/-- A list that begins as the conversions of another one. -/
theorem forall₂_take {α β : Type} {f : α → Option β} {as : List α} {bs : List β}
    (h : bs.map some <+: as.map f) :
    List.Forall₂ (fun a b => f a = some b) (as.take bs.length) bs := by
  induction bs generalizing as with
  | nil => exact .nil
  | cons b bs ih =>
    cases as with
    | nil => cases List.prefix_nil.mp h
    | cons a as =>
      obtain ⟨hb, hrest⟩ := List.cons_prefix_cons.mp h
      exact .cons hb.symm (ih hrest)

/-- Everything on the right has its like on the left. -/
theorem exists_of_forall₂ {α β : Type} {R : α → β → Prop} {as : List α} {bs : List β}
    (h : List.Forall₂ R as bs) {b : β} (hb : b ∈ bs) : ∃ a ∈ as, R a b := by
  induction h with
  | nil => cases hb
  | cons hab _ ih =>
    rcases List.mem_cons.mp hb with rfl | hb
    · exact ⟨_, List.mem_cons_self, hab⟩
    · obtain ⟨a, ha, hR⟩ := ih hb
      exact ⟨a, List.mem_cons_of_mem _ ha, hR⟩

end Llmops.Lib
