import Llmops.Config.Resolve

/-!
# An edit of an embedding model

`update_embedding_model` writes into the overlay's `embedding_server`, which is merged into that of
`config.yaml` field by field. The launch of the server depends on its address, its GPU and on whether
it has a model at all, and the edit is of a model that is there.
-/

namespace Llmops.Config

open Lib Node

/-- The fields that are maps of models. -/
def modelFields : List String := ["embedding_models", "reranking_models"]

section Fields

variable {b b' fields : Dict Json} {p : String × Json} {k name : String} {out : Json}

/-- A merged field is set; the others stay. -/
theorem mergeEmbeddingField_eq_some (h : mergeEmbeddingField (.obj b) p = some out) :
    ∃ v, out = .obj (b.set p.1 v) ∧ (p.1 ∉ modelFields → v = p.2) ∧
      (∀ models : Dict Json, p.2 = .obj models → p.1 ∈ modelFields →
        models.foldlM mergeModel ((b.get p.1).getD (.obj [])) = some v) ∧
      (p.2.asObj = none → v = p.2) := by
  unfold mergeEmbeddingField at h
  obtain ⟨_, hb, h⟩ := Option.bind_eq_some_iff.mp h
  cases hb
  split at h
  next models hmodels =>
    obtain ⟨hobj, hfield⟩ := Option.filter_eq_some_iff.mp hmodels
    obtain ⟨dest, hdest, h⟩ := Option.bind_eq_some_iff.mp h
    cases h
    have hval := Json.asObj_eq_some.mp hobj
    have hmem : p.1 ∈ modelFields := by simpa [modelFields] using hfield
    refine ⟨dest, rfl, fun hn => absurd hmem hn, fun ms hms _ => ?_, fun hn => ?_⟩
    · rw [hval] at hms
      cases hms
      exact hdest
    · rw [hobj] at hn
      cases hn
  next hnone =>
    cases h
    refine ⟨p.2, rfl, fun _ => rfl, fun ms hms hmem => ?_, fun _ => rfl⟩
    rw [hms] at hnone
    have hn : p.1 ∉ modelFields := by simpa [Json.asObj, modelFields] using hnone
    exact absurd hmem hn

/-- **A field that is no map of models** is the overlay's last, else the base's. -/
theorem get_mergedServer (hk : k ∉ modelFields)
    (h : fields.foldlM mergeEmbeddingField (.obj b) = some (.obj b')) :
    b'.get k = (((fields.filter (·.1 = k)).getLast?).map Prod.snd).or (b.get k) := by
  induction fields generalizing b with
  | nil =>
    cases h
    rfl
  | cons p fields ih =>
    rw [List.foldlM_cons, Option.bind_eq_bind, Option.bind_eq_some_iff] at h
    obtain ⟨_, hp, h⟩ := h
    obtain ⟨v, rfl, hother, -, -⟩ := mergeEmbeddingField_eq_some hp
    rw [ih h, List.filter_cons]
    by_cases heq : p.1 = k
    · subst heq
      rw [Dict.get_set_self, hother hk, if_pos (by simp), List.getLast?_cons]
      cases (fields.filter fun q => decide (q.1 = p.1)).getLast? <;> rfl
    · rw [Dict.get_set_ne (Ne.symm heq), if_neg (by simpa using heq)]

/-- The models of the field have the name, if the field is a map at all. -/
def Carries (b : Dict Json) (k name : String) : Prop :=
  ∃ v, b.get k = some v ∧ ∀ d : Dict Json, v = .obj d → name ∈ d.keys

theorem mergeModel_eq_some {dest : Json} (h : mergeModel dest p = some out) :
    ∃ (d : Dict Json) (v : Json), dest = .obj d ∧ out = .obj (d.set p.1 v) := by
  obtain ⟨d, hd, h⟩ := Option.bind_eq_some_iff.mp h
  cases h
  exact ⟨d, _, Json.asObj_eq_some.mp hd, rfl⟩

/-- Merged models are those of both sides. -/
theorem mem_keys_mergeModels {models d d' : Dict Json}
    (h : models.foldlM mergeModel (.obj d) = some (.obj d')) :
    name ∈ d'.keys ↔ name ∈ d.keys ∨ name ∈ models.keys := by
  induction models generalizing d with
  | nil =>
    cases h
    simp [Dict.keys]
  | cons p models ih =>
    rw [List.foldlM_cons, Option.bind_eq_bind, Option.bind_eq_some_iff] at h
    obtain ⟨_, hp, h⟩ := h
    obtain ⟨_, v, heq, rfl⟩ := mergeModel_eq_some hp
    cases heq
    rw [ih h, Dict.mem_keys_set, show Dict.keys (p :: models) = p.1 :: Dict.keys models from rfl,
      List.mem_cons]
    tauto

theorem mergeModels_of_cons {models : Dict Json} {dest : Json} (hne : models ≠ [])
    (h : models.foldlM mergeModel dest = some out) :
    ∃ d d' : Dict Json, dest = .obj d ∧ out = .obj d' := by
  induction models generalizing dest with
  | nil => exact absurd rfl hne
  | cons p models ih =>
    rw [List.foldlM_cons, Option.bind_eq_bind, Option.bind_eq_some_iff] at h
    obtain ⟨_, hp, h⟩ := h
    obtain ⟨d, v, rfl, rfl⟩ := mergeModel_eq_some hp
    by_cases hnil : models = []
    · subst hnil
      cases h
      exact ⟨d, _, rfl, rfl⟩
    · obtain ⟨_, d', -, rfl⟩ := ih hnil h
      exact ⟨d, d', rfl, rfl⟩

/-- One field of the overlay keeps a name that is carried. -/
theorem Carries.field (h : Carries b k name) (hk : k ∈ modelFields)
    (hp : mergeEmbeddingField (.obj b) p = some (.obj b')) : Carries b' k name := by
  obtain ⟨v, hb', -, hmodels, hplain⟩ := mergeEmbeddingField_eq_some hp
  cases hb'
  obtain ⟨old, hold, hname⟩ := h
  by_cases heq : p.1 = k
  · subst heq
    refine ⟨v, Dict.get_set_self, fun d hd => ?_⟩
    cases hobj : p.2.asObj with
    | none =>
      rw [hplain hobj] at hd
      rw [hd] at hobj
      cases hobj
    | some models =>
      have hfold := hmodels models (Json.asObj_eq_some.mp hobj) hk
      rw [hold, Option.getD_some] at hfold
      by_cases hne : models = []
      · subst hne
        cases hfold
        exact hname d hd
      · obtain ⟨d₀, d₁, rfl, rfl⟩ := mergeModels_of_cons hne hfold
        cases hd
        exact (mem_keys_mergeModels hfold).mpr (.inl (hname d₀ rfl))
  · exact ⟨old, by rw [Dict.get_set_ne (Ne.symm heq)]; exact hold, hname⟩

/-- The field that lists the name brings it. -/
theorem carries_of_field {models : Dict Json} (hk : k ∈ modelFields) (hname : name ∈ models.keys)
    (hp : mergeEmbeddingField (.obj b) (k, .obj models) = some (.obj b')) : Carries b' k name := by
  obtain ⟨v, hb', -, hmodels, -⟩ := mergeEmbeddingField_eq_some hp
  cases hb'
  have hfold := hmodels models rfl hk
  have hne : models ≠ [] := by
    rintro rfl
    cases hname
  obtain ⟨d₀, d₁, h₀, rfl⟩ := mergeModels_of_cons hne hfold
  refine ⟨_, Dict.get_set_self, fun d hd => ?_⟩
  cases hd
  rw [h₀] at hfold
  exact (mem_keys_mergeModels hfold).mpr (.inr hname)

/-- **An overlay that lists a model** gives it to the merged server. -/
theorem carries_mergedServer {models : Dict Json} (hk : k ∈ modelFields)
    (hname : name ∈ models.keys) (hmem : (k, .obj models) ∈ fields)
    (h : fields.foldlM mergeEmbeddingField (.obj b) = some (.obj b')) : Carries b' k name := by
  have hkeep : ∀ (fields b : Dict Json), Carries b k name →
      fields.foldlM mergeEmbeddingField (.obj b) = some (.obj b') → Carries b' k name := by
    intro fields
    induction fields with
    | nil =>
      intro b hb h
      cases h
      exact hb
    | cons p fields ih =>
      intro b hb h
      rw [List.foldlM_cons, Option.bind_eq_bind, Option.bind_eq_some_iff] at h
      obtain ⟨_, hp, h⟩ := h
      obtain ⟨v, rfl, -⟩ := mergeEmbeddingField_eq_some hp
      exact ih _ (hb.field hk hp) h
  induction fields generalizing b with
  | nil => cases hmem
  | cons p fields ih =>
    rw [List.foldlM_cons, Option.bind_eq_bind, Option.bind_eq_some_iff] at h
    obtain ⟨_, hp, h⟩ := h
    obtain ⟨v, rfl, -⟩ := mergeEmbeddingField_eq_some hp
    obtain rfl | hmem := List.mem_cons.mp hmem
    · exact hkeep _ _ (carries_of_field hk hname hp) h
    · exact ih hmem h

end Fields

/-! ## The validated server -/

section Server

variable {py : Pydantic} {w : Setup} {k name : String} {file : Option Json}
  {settings overlay : Dict Json} {c c' : RootConfig}

/-- What of the source a validated server is read from. -/
theorem EmbeddingServer.source {v : Json} {emb : EmbeddingServer}
    (h : EmbeddingServer.validate py v = some emb) :
    ∃ d : Dict Json, v = .obj d ∧ d ≠ [] ∧
      withDefault d "host" "localhost" Json.asStr = some emb.host ∧
      required d "port" py.int = some emb.port ∧
      withDefault d "cuda_device" none (optional py.int) = some emb.cudaDevice ∧
      withDefault d "embedding_models" [] (dictOf (EmbeddingModelEntry.validate py)) =
        some emb.embeddingModels ∧
      withDefault d "reranking_models" [] (dictOf (EmbeddingModelEntry.validate py)) =
        some emb.rerankingModels := by
  simp only [EmbeddingServer.validate, Option.bind_eq_bind, Option.pure_def,
    Option.bind_eq_some_iff] at h
  obtain ⟨⟨d, hd⟩, hv, host, hhost, port, hport, cuda, hcuda, em, hem, rm, hrm, hc⟩ := h
  cases hc
  refine ⟨d, entries_eq_some.mp hv, ?_, hhost, hport, hcuda, hem, hrm⟩
  rintro rfl
  cases hport

/-- The models that a server is to serve are there. -/
theorem nonempty_of_carries {d : Dict Json} {models : Dict EmbeddingModelEntry}
    (h : Carries d k name)
    (hv : withDefault d k [] (dictOf (EmbeddingModelEntry.validate py)) = some models) :
    models.isEmpty = false := by
  obtain ⟨v, hget, hname⟩ := h
  obtain ⟨hnone, -⟩ | ⟨_, hget', hv⟩ := withDefault_eq_some.mp hv
  · rw [hget] at hnone
    cases hnone
  · cases hget.symm.trans hget'
    obtain ⟨e, rfl, he⟩ := dictOf_eq_some.mp hv
    have hmem := hname e rfl
    rw [← Dict.keys_mapValues he] at hmem
    cases models with
    | nil => cases hmem
    | cons => rfl

/-- The merged server is a fold of the overlay's fields, also where the overlay has none. -/
theorem server_merged {ovEmb base : Option Json} {merged : Option Json} {emb : EmbeddingServer}
    {server : Dict Json} (h : mergedServer ovEmb base = some merged)
    (hserver : (ovEmb.getD (.obj [])).asObj = some server)
    (hval : merged.elim (c.embeddingServer = none)
      (fun v => optional (EmbeddingServer.validate py) v = some c.embeddingServer))
    (hemb : c.embeddingServer = some emb) :
    ∃ b b' : Dict Json, base = some (.obj b) ∧ b ≠ [] ∧
      server.foldlM mergeEmbeddingField (.obj b) = some (.obj b') ∧
      EmbeddingServer.validate py (.obj b') = some emb := by
  have hmerged : ∃ v, merged = some v ∧ EmbeddingServer.validate py v = some emb := by
    cases merged with
    | none =>
      rw [Option.elim_none, hemb] at hval
      cases hval
    | some v =>
      refine ⟨v, rfl, ?_⟩
      rw [Option.elim_some, hemb] at hval
      unfold optional at hval
      split at hval
      · cases hval
      · obtain ⟨e, he, heq⟩ := Option.map_eq_some_iff.mp hval
        cases heq
        exact he
  obtain ⟨v, rfl, hv⟩ := hmerged
  obtain ⟨d, rfl, hd, -⟩ := EmbeddingServer.source hv
  cases base with
  | none => cases ovEmb <;> cases h
  | some base =>
    cases ovEmb with
    | none =>
      cases h
      cases hserver
      exact ⟨d, d, rfl, hd, rfl, hv⟩
    | some ov =>
      cases Json.asObj_eq_some.mp hserver
      unfold mergedServer at h
      dsimp only at h
      by_cases ht : Json.truthy (.obj server) && base.truthy
      · rw [if_pos ht] at h
        simp only [Json.asObj, Option.bind_eq_bind, Option.bind_some, Option.pure_def,
          Option.bind_eq_some_iff, Option.some.injEq] at h
        obtain ⟨_, hfold, rfl⟩ := h
        obtain ⟨hs, hb⟩ : Json.truthy (.obj server) = true ∧ base.truthy = true := by simpa using ht
        cases server with
        | nil => cases hs
        | cons p server =>
          have hobj : ∃ b : Dict Json, base = .obj b := by
            rw [List.foldlM_cons, Option.bind_eq_bind, Option.bind_eq_some_iff] at hfold
            obtain ⟨_, hp, -⟩ := hfold
            obtain ⟨b, hb, -⟩ := Option.bind_eq_some_iff.mp hp
            exact ⟨b, Json.asObj_eq_some.mp hb⟩
          obtain ⟨b, rfl⟩ := hobj
          refine ⟨b, d, rfl, ?_, hfold, hv⟩
          rintro rfl
          cases hb
      · rw [if_neg ht] at h
        cases h
        have hempty : server = [] := by
          cases server with
          | nil => rfl
          | cons p server =>
            cases d with
            | nil => exact absurd rfl hd
            | cons q d => exact absurd rfl ht
        subst hempty
        exact ⟨d, d, rfl, hd, rfl, hv⟩

theorem foldlM_server {b fields : Dict Json} {out : Json}
    (h : fields.foldlM mergeEmbeddingField (.obj b) = some out) : ∃ b' : Dict Json, out = .obj b' := by
  induction fields generalizing b with
  | nil =>
    cases h
    exact ⟨b, rfl⟩
  | cons p fields ih =>
    rw [List.foldlM_cons, Option.bind_eq_bind, Option.bind_eq_some_iff] at h
    obtain ⟨_, hp, h⟩ := h
    obtain ⟨v, rfl, -⟩ := mergeEmbeddingField_eq_some hp
    exact ih h

theorem withDefault_congr {α : Type} {d d' : Dict Json} {default : α} {f : Json → Option α}
    (h : d'.get k = d.get k) : withDefault d' k default f = withDefault d k default f := by
  unfold withDefault
  rw [h]

theorem editModel_eq_some (h : editModel k name settings file = some overlay) :
    ∃ ov server models : Dict Json, loadOverlay file = some ov ∧
      ((ov.get "embedding_server").getD (.obj [])).asObj = some server ∧ name ∈ models.keys ∧
      overlay = ov.set "embedding_server" (.obj (server.set k (.obj models))) := by
  simp only [editModel, Option.bind_eq_bind, Option.pure_def, Option.bind_eq_some_iff,
    Option.some.injEq] at h
  obtain ⟨ov, hov, server, hserver, models, -, params, -, rfl⟩ := h
  exact ⟨ov, server, _, hov, hserver, by rw [Dict.mem_keys_set]; exact .inl rfl, rfl⟩

theorem mem_set (d : Dict Json) (v : Json) : (k, v) ∈ Dict.set d k v :=
  Dict.mem_of_get Dict.get_set_self

theorem filter_set {key : String} (h : k ≠ key) (d : Dict Json) (v : Json) :
    (Dict.set d key v).filter (·.1 = k) = d.filter (·.1 = k) := by
  induction d with
  | nil => simp [Dict.set, Ne.symm h]
  | cons p d ih =>
    rw [Dict.set]
    split_ifs with hp
    · rw [List.filter_cons, List.filter_cons, hp]
      simp [Ne.symm h]
    · rw [List.filter_cons, List.filter_cons, ih]

/-- The models of a kind. -/
def modelsOf (emb : EmbeddingServer) (field : String) : Dict EmbeddingModelEntry :=
  if field = "embedding_models" then emb.embeddingModels else emb.rerankingModels

theorem servedEmbedding_of_known {emb : EmbeddingServer} (hemb : c.embeddingServer = some emb)
    (h : (modelsOf emb k).isEmpty = false) : servedEmbedding c = some emb := by
  unfold servedEmbedding
  rw [hemb]
  refine Option.filter_some_pos ?_
  unfold modelsOf at h
  split_ifs at h <;> simp [h]

/-- The merged server of an overlay that sets one of its fields. -/
theorem server_edited {server b : Dict Json} {v : Json} {merged : Option Json} (hb : b ≠ [])
    (h : mergedServer (some (.obj (server.set k v))) (some (.obj b)) = some merged)
    (hval : merged.elim (c.embeddingServer = none)
      (fun v => optional (EmbeddingServer.validate py) v = some c.embeddingServer)) :
    ∃ b' emb, (server.set k v).foldlM mergeEmbeddingField (.obj b) = some (.obj b') ∧
      EmbeddingServer.validate py (.obj b') = some emb ∧ c.embeddingServer = some emb := by
  have hset : (Json.obj (server.set k v)).truthy = true := by
    have hmem := mem_set (k := k) server v
    cases hs : server.set k v with
    | nil =>
      rw [hs] at hmem
      cases hmem
    | cons => rfl
  have hbase : (Json.obj b).truthy = true := by
    cases b with
    | nil => exact absurd rfl hb
    | cons => rfl
  unfold mergedServer at h
  dsimp only at h
  rw [hset, hbase, Bool.and_self, if_pos rfl] at h
  simp only [Json.asObj, Option.bind_eq_bind, Option.bind_some, Option.pure_def,
    Option.bind_eq_some_iff, Option.some.injEq] at h
  obtain ⟨out, hfold, rfl⟩ := h
  obtain ⟨b', rfl⟩ := foldlM_server hfold
  rw [Option.elim_some] at hval
  obtain ⟨emb, hemb, heq⟩ := Option.map_eq_some_iff.mp hval
  exact ⟨b', emb, hfold, hemb, heq.symm⟩

/-- **An edit of a model that is there** leaves every spec. -/
theorem sameSpecs_editModel {emb : EmbeddingServer} (hparsed : Parsed file)
    (hfile : mergedFile w file = some c) (hk : k ∈ modelFields)
    (hemb : c.embeddingServer = some emb) (hknown : (modelsOf emb k).isEmpty = false)
    (hedit : editModel k name settings file = some overlay) (hmerged : w.merged overlay = .ok c') :
    Parsed (some (.obj overlay)) ∧ mergedFile w (some (.obj overlay)) = some c' ∧
      ∀ key, SameSpecs w.env c c' key := by
  obtain ⟨ov, server, models, hov, hserver, hname, rfl⟩ := editModel_eq_some hedit
  have hload : loadOverlay (some (.obj (ov.set "embedding_server"
      (.obj (server.set k (.obj models)))))) =
        some (ov.set "embedding_server" (.obj (server.set k (.obj models)))) := by
    have hhas : Dict.has (ov.set "embedding_server" (.obj (server.set k (.obj models))))
        "LLM_engines" = true := by
      rw [Dict.has, Dict.get_set_ne (by decide)]
      exact has_loaded hov
    rw [loadOverlay, Json.asObj, Option.map_some, Dict.setDefault, if_pos hhas]
  have hgroups : groupsOf (ov.set "embedding_server" (.obj (server.set k (.obj models)))) =
      groupsOf ov := by
    rw [groupsOf, Dict.get_set_ne (by decide), groupsOf]
  have hmerged := merged_eq_ok.mp hmerged
  have hparsed' : Parsed (some (.obj (ov.set "embedding_server"
      (.obj (server.set k (.obj models)))))) := by
    intro ov' groups hov' hg
    rw [hload] at hov'
    cases hov'
    exact hparsed ov groups hov (hgroups ▸ hg)
  refine ⟨hparsed', by rw [mergedFile, hload]; exact hmerged, ?_⟩
  rw [mergedFile, hov, Option.bind_some] at hfile
  obtain ⟨base, baseGroups, groups, hyaml, hm⟩ :=
    buildMergedConfig_eq_some (fun groups hg => hparsed ov groups hov hg) hfile
  obtain ⟨base', baseGroups', groups', hyaml', hm'⟩ :=
    buildMergedConfig_eq_some (fun groups hg => hparsed ov groups hov (hgroups ▸ hg)) hmerged
  cases hyaml.symm.trans hyaml'
  cases hm.baseEq.symm.trans hm'.baseEq
  cases hm.overlayEq.symm.trans (hgroups ▸ hm'.overlayEq)
  -- the server before and after
  obtain ⟨merged, hserved, hval⟩ := hm.embedding
  obtain ⟨b, b₁, hb, hne, hfold, hemb₁⟩ := server_merged hserved hserver hval hemb
  obtain ⟨merged', hserved', hval'⟩ := hm'.embedding
  rw [Dict.get_set_self, hb] at hserved'
  obtain ⟨b₂, emb', hfold', hemb₂, hemb'⟩ := server_edited hne hserved' hval'
  have hsame (key : String) (hkey : key ∉ modelFields) :
      Dict.get b₂ key = Dict.get b₁ key := by
    have hne : key ≠ k := fun h => hkey (h ▸ hk)
    rw [get_mergedServer hkey hfold', get_mergedServer hkey hfold, filter_set hne]
  have hcarries := carries_mergedServer hk hname (mem_set server _) hfold'
  obtain ⟨_, hd, -, hhost, hport, hcuda, -⟩ := EmbeddingServer.source hemb₁
  cases hd
  obtain ⟨_, hd, -, hhost', hport', hcuda', hem, hrm⟩ := EmbeddingServer.source hemb₂
  cases hd
  rw [withDefault_congr (hsame _ (by decide)), hhost, Option.some.injEq] at hhost'
  rw [required, hsame _ (by decide), ← required, hport, Option.some.injEq] at hport'
  rw [withDefault_congr (hsame _ (by decide)), hcuda, Option.some.injEq] at hcuda'
  have hknown' : (modelsOf emb' k).isEmpty = false := by
    unfold modelsOf
    split_ifs with hfield
    · exact nonempty_of_carries (hfield ▸ hcarries) hem
    · obtain rfl : k = "reranking_models" := by simpa [modelFields, hfield] using hk
      exact nonempty_of_carries hcarries hrm
  have hserves := servedEmbedding_of_known hemb hknown
  have hserves' := servedEmbedding_of_known hemb' hknown'
  intro key l hl
  obtain ⟨r, rfl, -⟩ | rfl := mem_launchers hl
  · have hgets (g : String) : c'.llmEngines.get g = c.llmEngines.get g := by
      rw [hm.get, hm'.get]
    refine ⟨?_, fun _ => ?_⟩
    · show key ∈ r.keys c' ↔ key ∈ r.keys c
      rw [mem_keys_iff, mem_keys_iff]
      unfold Finds
      simp only [hgets]
    · show r.buildSpec w.env c' key = r.buildSpec w.env c key
      rw [LlmLauncher.buildSpec, LlmLauncher.buildSpec, resolve_congr (hgets _)]
  · refine ⟨?_, fun _ => ?_⟩
    · show key ∈ embeddingKeys c' ↔ key ∈ embeddingKeys c
      rw [embeddingKeys, embeddingKeys, hserves, hserves']
      rfl
    · show buildEmbeddingSpec w.env c' key = buildEmbeddingSpec w.env c key
      rw [buildEmbeddingSpec, buildEmbeddingSpec, hserves, hserves']
      dsimp only
      rw [hhost', hport', hcuda']

end Server

end Llmops.Config
