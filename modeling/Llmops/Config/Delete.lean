import Llmops.Config.Noop

/-!
# Deleting an instance, seen in the merged configuration

`delete_overlay_model` (`llmops/manager.py:957-987`) drops an instance from the overlay's entry of
its group, and the entry when it lists none any more. An entry also carries edits of the group itself
(`set_autoscale`, `set_fallback`, the settings that an update or a LoRA has written), and these go
with it.

* `filter_dropped`: the merge without the overlay's instances of an id, one list against the other;
* `EditOf.local_iff`: beside the instances, a deletion can only change what the group declares;
* `localDelete_iff`: it is local exactly when it drops no edit of a group of `config.yaml`;
* `policy_dropped`: the autoscale policy of a group goes with the last instance added to it.
-/

namespace Llmops.Config

open Lib Node

/-! ## Lists with one element replaced -/

section Lists

variable {α : Type} {p : α → Bool} {new : α}

/-- Between elements that are dropped, a replacement is not seen. -/
theorem filter_set_of_false {xs : List α} {n : Nat} (hnew : p new = false)
    (hold : ∀ x, xs[n]? = some x → p x = false) : (xs.set n new).filter p = xs.filter p := by
  induction xs generalizing n with
  | nil => rfl
  | cons x xs ih =>
    cases n with
    | zero =>
      have hx : p x = false := hold x rfl
      simp [hx, hnew]
    | succ n =>
      rw [List.set_cons_succ, List.filter_cons, List.filter_cons, ih hold]

/-- Between elements that are kept, it is at the place that the kept ones before it make. -/
theorem filter_set_of_true {xs : List α} {n : Nat} (hnew : p new = true)
    (hold : ∀ x, xs[n]? = some x → p x = true) :
    (xs.set n new).filter p = (xs.filter p).set ((xs.take n).countP p) new := by
  induction xs generalizing n with
  | nil => rfl
  | cons x xs ih =>
    cases n with
    | zero =>
      have hx : p x = true := hold x rfl
      simp [hx, hnew]
    | succ n =>
      rw [List.set_cons_succ, List.take_succ_cons, List.filter_cons, List.filter_cons, ih hold,
        List.countP_cons]
      by_cases hx : p x = true
      · rw [if_pos hx, if_pos hx, if_pos hx, List.set_cons_succ]
      · rw [if_neg hx, if_neg hx, if_neg hx, Nat.add_zero]

end Lists

/-! ## The merged instances without an id -/

section Instances

variable {s : Scalar} {ids : List Scalar} {base overlay xs ys : List Json} {inst : Json}

/-- The instance has the id. -/
def hasScalar (s : Scalar) (x : Json) : Bool := decide (idOf x = some s)

theorem dropInstance_eq_filter {instanceId : String} (h : dropInstance instanceId xs = some ys) :
    ys = xs.filter fun x => !hasScalar (.str instanceId) x := by
  induction xs generalizing ys with
  | nil =>
    cases h
    rfl
  | cons i rest ih =>
    rw [dropInstance] at h
    obtain ⟨same, hsame, h⟩ := Option.bind_eq_some_iff.mp h
    obtain ⟨zs, hzs, h⟩ := Option.bind_eq_some_iff.mp h
    obtain ⟨_, rfl, hid⟩ := idIs_eq_some hsame
    rw [List.filter_cons, ← ih hzs]
    cases same with
    | true =>
      have hi : hasScalar (.str instanceId) i = true := decide_eq_true (hid.mp rfl)
      rw [if_neg (by simp [hi])]
      simpa using h.symm
    | false =>
      have hi : hasScalar (.str instanceId) i = false :=
        decide_eq_false fun hi => Bool.false_ne_true (hid.mpr hi)
      rw [if_pos (by simp [hi])]
      simpa using h.symm

/-- What two merges over one base have in common: without the id they are the same list. -/
structure Beside (s : Scalar) (ids : List Scalar) (base xs ys : List Json) : Prop where
  ledLeft : Led ids xs
  ledRight : Led ids ys
  others : ys.filter (fun x => !hasScalar s x) = xs.filter fun x => !hasScalar s x
  kept : ys.filter (hasScalar s) = base.filter (hasScalar s)

/-- The elements before a position of the base, counted by their ids. -/
theorem Led.countP_take {n : Nat} (hxs : Led ids xs) (hys : Led ids ys) (hn : n < ids.length)
    (s : Scalar) : (xs.take n).countP (fun x => !hasScalar s x) =
      (ys.take n).countP fun x => !hasScalar s x := by
  have hcount : ∀ {zs : List Json}, Led ids zs → (zs.take n).countP (fun x => !hasScalar s x) =
      ((ids.map some).take n).countP fun i => !decide (i = some s) := by
    intro zs hzs
    obtain ⟨rest, hrest⟩ := hzs
    have hmap : (zs.take n).map idOf = (ids.map some).take n := by
      rw [List.map_take, ← hrest, List.take_append_of_le_length (by simpa using hn.le)]
    rw [← hmap, List.countP_map]
    rfl
  rw [hcount hxs, hcount hys]

/-- An instance of the id is merged on one side only. -/
theorem Beside.skip (h : Beside s ids base xs ys) (hinst : idOf inst = some s) {zs : List Json}
    (hmerge : mergeInstance ids (.arr xs) inst = some (.arr zs)) : Beside s ids base zs ys := by
  have hzs := mergeInstance_eq_some h.ledLeft hmerge
  obtain ⟨_, heq, hled, -⟩ := hzs
  cases heq
  refine ⟨hled, h.ledRight, h.others.trans ?_, h.kept⟩
  have hnew : hasScalar s inst = true := decide_eq_true hinst
  simp only [mergeInstance, hinst, Json.asArr, Option.bind_eq_bind, Option.bind_some,
    Option.pure_def, Option.some.injEq, Json.arr.injEq] at hmerge
  cases hn : lastIndex s ids with
  | none =>
    rw [hn] at hmerge
    rw [← hmerge, List.filter_append]
    simp [hnew]
  | some n =>
    rw [hn] at hmerge
    rw [← hmerge]
    refine (filter_set_of_false (by simp [hnew]) fun x hx => ?_).symm
    have hold := h.ledLeft.getElem? (lastIndex_eq_some hn)
    rw [List.getElem?_map, hx, Option.map_some, Option.some.injEq] at hold
    simp [hasScalar, hold]

/-- An instance of another id is merged on both. -/
theorem Beside.both (h : Beside s ids base xs ys) {t : Scalar} (hinst : idOf inst = some t)
    (hne : t ≠ s) {zs us : List Json} (hleft : mergeInstance ids (.arr xs) inst = some (.arr zs))
    (hright : mergeInstance ids (.arr ys) inst = some (.arr us)) : Beside s ids base zs us := by
  obtain ⟨_, heq, hledLeft, -⟩ := mergeInstance_eq_some h.ledLeft hleft
  cases heq
  obtain ⟨_, heq, hledRight, -⟩ := mergeInstance_eq_some h.ledRight hright
  cases heq
  have hnew : hasScalar s inst = false := decide_eq_false (by rw [hinst]; simpa using hne)
  simp only [mergeInstance, hinst, Json.asArr, Option.bind_eq_bind, Option.bind_some,
    Option.pure_def, Option.some.injEq, Json.arr.injEq] at hleft hright
  cases hn : lastIndex t ids with
  | none =>
    rw [hn] at hleft hright
    refine ⟨hledLeft, hledRight, ?_, ?_⟩
    · rw [← hleft, ← hright, List.filter_append, List.filter_append, h.others]
    · rw [← hright, List.filter_append, h.kept]
      simp [hnew]
  | some n =>
    rw [hn] at hleft hright
    have hlt : n < ids.length := (List.getElem?_eq_some_iff.mp (lastIndex_eq_some hn)).1
    have hold {ws : List Json} (hws : Led ids ws) (x : Json) (hx : ws[n]? = some x) :
        hasScalar s x = false := by
      have hid := hws.getElem? (lastIndex_eq_some hn)
      rw [List.getElem?_map, hx, Option.map_some, Option.some.injEq] at hid
      exact decide_eq_false (by rw [hid]; simpa using hne)
    refine ⟨hledLeft, hledRight, ?_, ?_⟩
    · rw [← hleft, ← hright,
        filter_set_of_true (by simp [hnew]) fun x hx => by simp [hold h.ledRight x hx],
        filter_set_of_true (by simp [hnew]) fun x hx => by simp [hold h.ledLeft x hx],
        h.others, h.ledRight.countP_take h.ledLeft hlt s]
    · rw [← hright, filter_set_of_false hnew (hold h.ledRight), h.kept]

/-- **The merge without the overlay's instances of an id**: the other instances are the same, and of
the id there are those of the base. -/
theorem filter_dropped (hfull : mergeInstances (.arr base) overlay = some (.arr xs))
    (hdropped : mergeInstances (.arr base) (overlay.filter fun x => !hasScalar s x) =
      some (.arr ys)) :
    ys.filter (fun x => !hasScalar s x) = xs.filter (fun x => !hasScalar s x) ∧
      ys.filter (hasScalar s) = base.filter (hasScalar s) := by
  simp only [mergeInstances, Json.iter, Option.bind_eq_bind, Option.bind_some,
    Option.bind_eq_some_iff] at hfull hdropped
  obtain ⟨ids, hids, hfull⟩ := hfull
  obtain ⟨_, hids', hdropped⟩ := hdropped
  cases hids.symm.trans hids'
  have hfold : ∀ (overlay xs₀ ys₀ : List Json), Beside s ids base xs₀ ys₀ →
      overlay.foldlM (mergeInstance ids) (.arr xs₀) = some (.arr xs) →
      (overlay.filter fun x => !hasScalar s x).foldlM (mergeInstance ids) (.arr ys₀) =
        some (.arr ys) → Beside s ids base xs ys := by
    intro overlay
    induction overlay with
    | nil =>
      intro xs₀ ys₀ h hx hy
      cases hx
      cases hy
      exact h
    | cons inst overlay ih =>
      intro xs₀ ys₀ h hx hy
      rw [List.foldlM_cons, Option.bind_eq_bind, Option.bind_eq_some_iff] at hx
      obtain ⟨_, hleft, hx⟩ := hx
      obtain ⟨zs, rfl, -⟩ := mergeInstance_eq_some h.ledLeft hleft
      by_cases hinst : idOf inst = some s
      · rw [List.filter_cons_of_neg (by simp [hasScalar, hinst])] at hy
        exact ih zs ys₀ (h.skip hinst hleft) hx hy
      · rw [List.filter_cons_of_pos (by simp [hasScalar, hinst]), List.foldlM_cons,
          Option.bind_eq_bind, Option.bind_eq_some_iff] at hy
        obtain ⟨_, hright, hy⟩ := hy
        obtain ⟨us, rfl, -⟩ := mergeInstance_eq_some h.ledRight hright
        obtain ⟨t, ht, -⟩ := Option.bind_eq_some_iff.mp hleft
        have hne : t ≠ s := by
          rintro rfl
          exact hinst ht
        exact ih zs us (h.both ht hne hleft hright) hx hy
  have hled : Led ids base := by
    rw [Led, map_of_mapM hids]
  have hbeside := hfold overlay base base ⟨hled, hled, rfl, rfl⟩ hfull hdropped
  exact ⟨hbeside.others, hbeside.kept⟩

/-- The validated instances of a choice by the id. -/
theorem filter_validated {py : Pydantic} {insts : List InstanceConfig} (q : String → Bool)
    (p : Json → Bool) (hp : ∀ x inst, InstanceConfig.validate py x = some inst → p x = q inst.id)
    (h : xs.mapM (InstanceConfig.validate py) = some insts) :
    (xs.filter p).mapM (InstanceConfig.validate py) = some (insts.filter fun i => q i.id) := by
  induction mapM_eq_some_iff.mp h with
  | nil => rfl
  | @cons x inst xs insts hx htail ih =>
    have ih := ih (mapM_eq_some_iff.mpr htail)
    rw [List.filter_cons, List.filter_cons, hp x inst hx]
    by_cases hq : q inst.id = true
    · rw [if_pos hq, if_pos hq, List.mapM_cons, hx, ih]
      rfl
    · rw [if_neg hq, if_neg hq, ih]

end Instances

/-! ## A group without its instances -/

/-- A group without its instances: its settings, its policies, and what it declares beside them. -/
def LLMEngine.bare (engine : LLMEngine) : LLMEngine := { engine with instances := [] }

section Bare

variable {py : Pydantic} {b : Option Json} {d e : Dict Json} {v v' i i' : Json} {xs ys : List Json}
  {key : String} {fields : List String} {engine engine' : LLMEngine}

theorem Extra.rest_congr {d d' : { d : Dict Json // d.Unique }} {used : List String}
    (h : d'.1.without (fields ++ used) = d.1.without (fields ++ used)) :
    (Extra.rest d' used : Extra fields) = Extra.rest d used := by
  unfold Extra.rest
  simp only [h]

/-- Two groups that differ in their instances only. -/
theorem bare_congr (h : LLMEngine.validate py (.obj (d.set "instances" i)) = some engine)
    (h' : LLMEngine.validate py (.obj (d.set "instances" i')) = some engine') :
    engine'.bare = engine.bare := by
  have hget (key : String) (hne : key ≠ "instances") :
      (d.set "instances" i').get key = (d.set "instances" i).get key := by
    rw [Dict.get_set_ne hne, Dict.get_set_ne hne]
  have hkey : settingsKey (d.set "instances" i') = settingsKey (d.set "instances" i) := by
    rw [settingsKey, settingsKey, Dict.has, Dict.has, hget _ (by decide)]
  have hsettings : settingsKey (d.set "instances" i) ≠ "instances" := by
    unfold settingsKey
    split_ifs <;> decide
  simp only [LLMEngine.validate, Option.bind_eq_bind, Option.pure_def, Option.bind_eq_some_iff,
    required, withDefault] at h h'
  obtain ⟨⟨_, hu⟩, hd, insts, -, s, ⟨u, hu, hs⟩, a, ha, f, hf, hc⟩ := h
  obtain ⟨⟨_, hu'⟩, hd', insts', -, s', ⟨u', hu', hs'⟩, a', ha', f', hf', hc'⟩ := h'
  cases entries_eq_some.mp hd
  cases entries_eq_some.mp hd'
  dsimp only at hu hu' ha ha' hf hf' hc hc'
  rw [hkey, hget _ hsettings, hu] at hu'
  cases hu'
  rw [hs] at hs'
  rw [hget _ (by decide), ha] at ha'
  rw [hget _ (by decide), hf] at hf'
  cases hs'
  cases ha'
  cases hf'
  cases hc
  cases hc'
  unfold LLMEngine.bare
  congr 1
  rw [hkey]
  refine Extra.rest_congr ?_
  rw [Dict.without_set (by simp), Dict.without_set (by simp)]

/-- An entry that lists other instances makes a group that differs in its instances. -/
theorem mergedAt_set_instances (hi : e.get "instances" = some i)
    (h : mergedAt backendFields b (some (.obj e)) = some v)
    (h' : mergedAt backendFields b (some (.obj (e.set "instances" (.arr ys)))) = some v') :
    ∃ (d : Dict Json) (j j' : Json), v = .obj (d.set "instances" j) ∧
      v' = .obj (d.set "instances" j') := by
  cases b with
  | none =>
    cases h
    cases h'
    exact ⟨e, i, .arr ys, by rw [Dict.set_eq_self hi], rfl⟩
  | some base =>
    simp only [mergedAt, mergeGroup, Json.asObj, Option.bind_eq_bind, Option.bind_some,
      Option.pure_def, Option.bind_eq_some_iff] at h h'
    obtain ⟨g, hg, s, hs, _, -, j, -, hv⟩ := h
    obtain ⟨_, hg', s', hs', _, -, j', -, hv'⟩ := h'
    cases hg.symm.trans hg'
    rw [Dict.get_set_ne (by decide), hs] at hs'
    cases hs'
    have hfields : backendFields.foldl (replaceField (e.set "instances" (.arr ys))) s =
        backendFields.foldl (replaceField e) s := by
      simp [backendFields, replaceField, Dict.get_set_ne]
    rw [hfields] at hv'
    exact ⟨_, j, j', (Option.some.inj hv).symm, (Option.some.inj hv').symm⟩

end Bare

/-! ## What an edit of the groups leaves at the top -/

section Top

variable {py : Pydantic} {yaml : Option Json} {overlay overlay' merged out : Dict Json}
  {ovEmb : Option Json} {c c' : RootConfig}

theorem mergeEmbedding_eq (h : mergeEmbedding merged ovEmb = some out) :
    out = merged ∨ ∃ v, out = merged.set "embedding_server" v := by
  unfold mergeEmbedding at h
  split at h
  · split_ifs at h
    · obtain ⟨fields, -, h⟩ := Option.bind_eq_some_iff.mp h
      obtain ⟨v, -, h⟩ := Option.bind_eq_some_iff.mp h
      cases h
      exact .inr ⟨v, rfl⟩
    · cases h
      exact .inl rfl
  · cases h
    exact .inl rfl

/-- `server`, and what `config.yaml` declares beside its sections, are never merged. -/
theorem top_merged (h : buildMergedConfig py yaml overlay = some c)
    (h' : buildMergedConfig py yaml overlay' = some c') :
    c'.server = c.server ∧ c'.extra = c.extra := by
  have htop {overlay : Dict Json} {c : RootConfig}
      (h : buildMergedConfig py yaml overlay = some c) :
      ∃ base : Dict Json, orEmpty yaml = some (.obj base) ∧
        required base "server" (ServerConfig.validate py) = some c.server ∧
        c.extra.entries = base.without ["server", "LLM_engines", "embedding_server"] := by
    simp only [buildMergedConfig, mergeInto, Option.bind_eq_bind, Option.bind_eq_some_iff,
      Json.asObj_eq_some] at h
    obtain ⟨_, hyaml, merged, ⟨base, rfl, groups, -, engines, -, hemb⟩, h⟩ := h
    simp only [RootConfig.validate, Option.bind_eq_bind, Option.pure_def,
      Option.bind_eq_some_iff] at h
    obtain ⟨⟨_, hd⟩, hv, server, hserver, llm, -, emb, -, hc⟩ := h
    cases entries_eq_some.mp hv
    split_ifs at hc
    cases hc
    refine ⟨base, hyaml, ?_, ?_⟩
    · rw [← hserver, required, required]
      dsimp only
      rw [(mergeEmbedding_eq_some hemb).1 _ (by decide), Dict.get_set_ne (by decide)]
    · show Dict.without _ _ = _
      obtain rfl | ⟨v, rfl⟩ := mergeEmbedding_eq hemb
      · exact Dict.without_set (by simp)
      · exact (Dict.without_set (by simp)).trans (Dict.without_set (by simp))
  obtain ⟨base, hyaml, hserver, hextra⟩ := htop h
  obtain ⟨_, hyaml', hserver', hextra'⟩ := htop h'
  cases hyaml.symm.trans hyaml'
  refine ⟨Option.some.inj (hserver'.symm.trans hserver), ?_⟩
  rw [Extra.mk.injEq]
  exact hextra'.trans hextra.symm

end Top

/-! ## The deletion -/

/-- A deletion that is **local**: it removes the instances of the id, or restores those of
`config.yaml`, and the group with them if neither side lists another. -/
structure LocalDelete (w : Setup) (group instanceId : String) (c c' : RootConfig) : Prop where
  server : c'.server = c.server
  extra : c'.extra = c.extra
  embedding : c'.embeddingServer = c.embeddingServer
  other : ∀ g, g ≠ group → c'.llmEngines.get g = c.llmEngines.get g
  same : ∀ engine', c'.llmEngines.get group = some engine' →
    ∃ engine, c.llmEngines.get group = some engine ∧ engine'.bare = engine.bare ∧
      engine'.instances.filter (·.id ≠ instanceId) =
        engine.instances.filter (·.id ≠ instanceId) ∧
      ((listed (w.baseGroup group)).filter (hasScalar (.str instanceId))).mapM
        (InstanceConfig.validate w.py) = some (engine'.instances.filter (·.id = instanceId))
  gone : c'.llmEngines.get group = none → w.baseGroup group = none ∧
    ∀ engine, c.llmEngines.get group = some engine → ∀ inst ∈ engine.instances, inst.id = instanceId

/-- What the entry sets beside its instances makes no difference, if the entry goes and the group
stays: the group is declared in `config.yaml` as it is merged. -/
def PlainEntry (w : Setup) (file : Option Json) (group instanceId : String) (c : RootConfig) :
    Prop :=
  dropInstance instanceId (fileListed file group) = some [] →
    ∀ declared engine, (w.baseGroup group).bind (LLMEngine.validate w.py) = some declared →
      c.llmEngines.get group = some engine → declared.bare = engine.bare

section Deletion

variable {w : Setup} {x : Surround} {m m' : Manager} {key group instanceId : String}
  {entry entry' : Option Json} {c c' : RootConfig} {engine engine' : LLMEngine} {reply : Reply}

/-- The instances of the other ids stay, and of the id those of `config.yaml` come back. -/
theorem EditOf.instances_dropped (h : EditOf w group entry entry' c c')
    (hlisted : listed entry' = (listed entry).filter fun x => !hasScalar (.str instanceId) x)
    (hget : c.llmEngines.get group = some engine)
    (hget' : c'.llmEngines.get group = some engine') :
    engine'.instances.filter (·.id ≠ instanceId) = engine.instances.filter (·.id ≠ instanceId) ∧
      ((listed (w.baseGroup group)).filter (hasScalar (.str instanceId))).mapM
        (InstanceConfig.validate w.py) = some (engine'.instances.filter (·.id = instanceId)) := by
  obtain ⟨v, hv, hval⟩ := Option.bind_eq_some_iff.mp (h.before.symm.trans hget)
  obtain ⟨v', hv', hval'⟩ := Option.bind_eq_some_iff.mp (h.after.symm.trans hget')
  obtain ⟨xs, hxs, hinsts⟩ := merged_instances hv hval
  obtain ⟨ys, hys, hinsts'⟩ := merged_instances hv' hval'
  rw [hlisted] at hys
  obtain ⟨hothers, hkept⟩ := filter_dropped hxs hys
  have hid (x : Json) (inst : InstanceConfig) (hx : InstanceConfig.validate w.py x = some inst) :
      hasScalar (.str instanceId) x = decide (inst.id = instanceId) := by
    rw [hasScalar, idOf_validated hx]
    simp
  have hnot (x : Json) (inst : InstanceConfig) (hx : InstanceConfig.validate w.py x = some inst) :
      (!hasScalar (.str instanceId) x) = decide (inst.id ≠ instanceId) := by
    rw [hid x inst hx, decide_not]
  constructor
  · have hbefore := filter_validated (fun s => decide (s ≠ instanceId)) _ hnot hinsts
    have hafter := filter_validated (fun s => decide (s ≠ instanceId)) _ hnot hinsts'
    rw [hothers, hbefore] at hafter
    exact (Option.some.inj hafter).symm
  · rw [← hkept]
    exact filter_validated (fun s => decide (s = instanceId)) _ hid hinsts'

/-- Beside the instances, a deletion can only change what the group declares. -/
theorem EditOf.local_iff (h : EditOf w group entry entry' c c') (hentry : entry.isSome)
    (hlisted : listed entry' = (listed entry).filter fun x => !hasScalar (.str instanceId) x)
    (htop : c'.server = c.server ∧ c'.extra = c.extra) :
    LocalDelete w group instanceId c c' ↔
      ∀ engine engine', c.llmEngines.get group = some engine →
        c'.llmEngines.get group = some engine' → engine'.bare = engine.bare := by
  constructor
  · intro hlocal engine engine' hget hget'
    obtain ⟨_, hbefore, hbare, -⟩ := hlocal.same engine' hget'
    cases hget.symm.trans hbefore
    exact hbare
  · intro hbare
    refine ⟨htop.1, htop.2, h.embedding, h.other, fun engine' hget' => ?_, fun hnone => ?_⟩
    · cases hget : c.llmEngines.get group with
      | none =>
        rw [(h.absent hget).2] at hentry
        cases hentry
      | some engine =>
        exact ⟨engine, rfl, hbare engine engine' hget hget', h.instances_dropped hlisted hget hget'⟩
    · obtain ⟨hbase, rfl⟩ := h.present hnone
      refine ⟨hbase, fun engine hget inst hinst => ?_⟩
      obtain hin | hin := (mem_ids h.before hget).mp ⟨inst, hinst, rfl⟩
      · rw [hbase] at hin
        obtain ⟨x, hx, -⟩ := hin
        cases hx
      · obtain ⟨x, hx, hid⟩ := hin
        have hdropped : (!hasScalar (.str instanceId) x) = false := by
          rw [Bool.eq_false_iff]
          intro hkept
          have hmem : x ∈ (listed entry).filter fun x => !hasScalar (.str instanceId) x :=
            List.mem_filter.mpr ⟨hx, hkept⟩
          rw [← hlisted] at hmem
          cases hmem
        have hsame : idOf x = some (.str instanceId) := by simpa [hasScalar] using hdropped
        rw [hid] at hsame
        simpa using hsame

/-- **A deletion is local** exactly when it drops no edit of a group that `config.yaml` declares. -/
theorem localDelete_iff (hparsed : Parsed m.file) (hbefore : mergedFile w m.file = some c)
    (h : deleteOverlayModel w x key m = (m', .ok reply)) :
    mergedFile w m'.file = some m'.config ∧
      (LocalDelete w (partition key "::").1 (partition key "::").2 c m'.config ↔
        PlainEntry w m.file (partition key "::").1 (partition key "::").2 c) := by
  obtain ⟨overlay, config, hplan, hmerged, rfl⟩ := deleteOverlayModel_eq_ok h
  obtain ⟨-, ⟨ov, hov, howned⟩, hedit⟩ := planDelete_eq_ok hplan
  obtain ⟨-, hfile, engines, engines', hengines, hf, hof⟩ :=
    editOf touches_removeInstance hparsed hbefore hedit hmerged
  refine ⟨hfile, ?_⟩
  show LocalDelete w _ _ c config ↔ _
  generalize (partition key "::").1 = group at *
  generalize (partition key "::").2 = instanceId at *
  rw [overlayOwns] at howned
  obtain ⟨_, hgroups, howned⟩ := Option.bind_eq_some_iff.mp howned
  rw [hov, Option.bind_some, hgroups] at hengines
  cases hengines
  obtain ⟨e, xs, hg, hi, hid⟩ := listed_of_owned howned
  obtain ⟨ys, hys, rfl⟩ := removeInstance_eq_some hg hi hf
  have hxs : listed (engines.get group) = xs := by
    rw [hg, listed_obj, hi]
    rfl
  have hfileListed : fileListed m.file group = xs := by
    rw [fileListed, hov, Option.bind_some, hgroups, Option.bind_some, hxs]
  have htop : config.server = c.server ∧ config.extra = c.extra := by
    rw [mergedFile, hov] at hbefore
    exact top_merged hbefore (merged_eq_ok.mp hmerged)
  have hpresent : (engines.get group).isSome := by
    rw [hg]
    rfl
  cases ys with
  | nil =>
    -- the entry goes, and the group is what `config.yaml` declares
    simp only [List.isEmpty_nil, if_true, Dict.get_pop_self] at hof
    rw [hof.local_iff hpresent (by rw [hxs, ← dropInstance_eq_filter hys]; rfl) htop]
    have hafter : config.llmEngines.get group =
        (w.baseGroup group).bind (LLMEngine.validate w.py) := by
      rw [hof.after]
      cases w.baseGroup group <;> rfl
    constructor
    · intro hbare _ declared engine hdeclared hget
      exact hbare engine declared hget (hafter.trans hdeclared)
    · intro hplain engine engine' hget hget'
      exact hplain (by rw [hfileListed, hys]) engine' engine (hafter.symm.trans hget') hget
  | cons y ys =>
    simp only [List.isEmpty_cons, Bool.false_eq_true, if_false, Dict.get_set_self] at hof
    have hlisted : listed (some (.obj (e.set "instances" (.arr (y :: ys))))) = y :: ys := by
      rw [listed_obj, Dict.get_set_self]
      rfl
    rw [hof.local_iff hpresent (by rw [hxs, ← dropInstance_eq_filter hys, hlisted]) htop]
    refine iff_of_true (fun engine engine' hget hget' => ?_) fun hdropped => ?_
    · obtain ⟨v, hv, hval⟩ := Option.bind_eq_some_iff.mp (hof.before.symm.trans hget)
      obtain ⟨v', hv', hval'⟩ := Option.bind_eq_some_iff.mp (hof.after.symm.trans hget')
      rw [hg] at hv
      obtain ⟨d, i, i', rfl, rfl⟩ := mergedAt_set_instances hi hv hv'
      exact bare_congr hval hval'
    · rw [hfileListed, hys] at hdropped
      cases hdropped

end Deletion

/-- Two instances that the overlay adds to the group. -/
def twoAdded : List Event :=
  [.call {} (.create "chat" [("id", .str "b"), ("port", .int 8002)] [] none),
    .call {} (.create "chat" [("id", .str "c"), ("port", .int 8003)] [] none)]

/-- The first of two added instances is deleted. -/
theorem localDelete_twoAdded : ∃ m₀ m m' c reply, boot oneGroup none = some m₀ ∧
    run (step oneGroup) m₀ twoAdded = some m ∧ mergedFile oneGroup m.file = some c ∧
      deleteOverlayModel oneGroup {} "chat::b" m = (m', .ok reply) ∧
      LocalDelete oneGroup "chat" "b" c m'.config := by
  obtain ⟨m₀, m, hboot, hrun, hP⟩ := @exists_oneGroup
    (fun m => (mergedFile oneGroup m.file).isSome &&
      (deleteOverlayModel oneGroup {} "chat::b" m).2.toOption.isSome &&
      (dropInstance "b" (fileListed m.file "chat")).any fun left => !left.isEmpty)
    twoAdded (by decide +kernel)
  simp only [Bool.and_eq_true] at hP
  obtain ⟨⟨hmerged, hok⟩, hleft⟩ := hP
  obtain ⟨c, hc⟩ := Option.isSome_iff_exists.mp hmerged
  obtain ⟨reply, hreply⟩ := Option.isSome_iff_exists.mp hok
  have halong : Along (step oneGroup) (AgreeGuard oneGroup) m₀ twoAdded :=
    ⟨trivial, fun _ _ => ⟨trivial, fun _ _ => trivial⟩⟩
  have hkept : Kept oneGroup m := (Reach.of_guarded_run hrun halong).invariant
    (kept_boot parsed_none hboot) fun ha hG he => kept_step ha hG he
  have hdelete : deleteOverlayModel oneGroup {} "chat::b" m = (_, .ok reply) :=
    Prod.ext rfl (toOption_eq_some.mp hreply)
  refine ⟨m₀, m, _, c, reply, hboot, hrun, hc, hdelete,
    (localDelete_iff hkept.parsed hc hdelete).2.mpr fun hdropped => ?_⟩
  rw [show (partition "chat::b" "::") = ("chat", "b") by decide] at hdropped
  rw [hdropped] at hleft
  cases hleft

/-- **A policy that goes with an instance.** The group of `config.yaml` had it set after an instance
was added, and its own instances stay. -/
theorem policy_dropped : ∃ m₀ m m' c reply, boot oneGroup none = some m₀ ∧
    run (step oneGroup) m₀ grown = some m ∧ mergedFile oneGroup m.file = some c ∧
      deleteOverlayModel oneGroup {} "chat::b" m = (m', .ok reply) ∧
      ¬ LocalDelete oneGroup "chat" "b" c m'.config := by
  obtain ⟨m₀, m, hboot, hrun, hP⟩ := @exists_oneGroup
    (fun m => (mergedFile oneGroup m.file).any (fun c =>
        ((c.llmEngines.get "chat").bind (·.autoscale)).isSome) &&
      (deleteOverlayModel oneGroup {} "chat::b" m).2.toOption.isSome &&
      ((deleteOverlayModel oneGroup {} "chat::b" m).1.config.llmEngines.get "chat").any
        (·.autoscale.isNone)) grown (by decide +kernel)
  simp only [Bool.and_eq_true] at hP
  obtain ⟨⟨hbefore, hok⟩, hafter⟩ := hP
  obtain ⟨c, hc, hpolicy⟩ := (Option.any_eq_true _ _).mp hbefore
  obtain ⟨reply, hreply⟩ := Option.isSome_iff_exists.mp hok
  obtain ⟨engine', hget', hnone⟩ := (Option.any_eq_true _ _).mp hafter
  refine ⟨m₀, m, _, c, reply, hboot, hrun, hc, Prod.ext rfl (toOption_eq_some.mp hreply),
    fun hlocal => ?_⟩
  obtain ⟨engine, hget, hbare, -⟩ := hlocal.same engine' hget'
  have hsame : engine'.bare.autoscale = engine.bare.autoscale := by rw [hbare]
  rw [hget, Option.bind_some, show engine.autoscale = engine'.autoscale from hsame.symm,
    Option.isSome_iff_ne_none] at hpolicy
  exact hpolicy (Option.isNone_iff_eq_none.mp hnone)

end Llmops.Config
