import Llmops.Lib.JsonText
import Llmops.Config.Noop

/-!
# The version history (`core/config_versioning.py`, `api/config.py:139-160`)

Every mutating request is wrapped in a middleware that hashes the overlay before and after and records
a snapshot if the two differ and the response is no error. With Postgres an import records the snapshot
itself, since the router's reload then takes the shared file from the database. A row that has the hash
of the newest one is not recorded (`llmops_store.py:646-661`).

A rollback imports a recorded overlay. Requests come one after another; in between there are starts,
changes of what runs, prunes, restarts and, with Postgres, syncs and the rows of other replicas. A blob
is kept here as the value that it is the text of, and the digest is a parameter.

* `recorded_happen`: the newest row stays in line with the overlay;
* `restored`: a rollback from such a state restores the version, and repeating it changes nothing;
* `restored_of_guarded`: so it does after every guarded history;
* `stranded_unrecorded`: a refused create that stays in the overlay makes a rollback leave no row.
-/

namespace Llmops.Config

open Lib Node

/-! ## Rows and requests -/

/-- A row of `config_versions`; who made it, when and why is left out. -/
structure Version (H : Type) where
  id : Nat
  sha256 : H
  overlay : Json

/-- A backend and the versions of the store, newest first. -/
structure Backend (H : Type) where
  manager : Manager
  versions : List (Version H) := []
  nextId : Nat := 1

/-- What surrounds a request: the call itself, whether the store records a snapshot, and whether the
router's reload succeeds. -/
structure Around where
  surround : Surround := {}
  stored : Bool := true
  reloaded : Bool := true

/-- The requests that may change the overlay. -/
inductive Req where
  | op (op : Op)
  | lora (answers : String → Posted) (op : LoraOp)
  | rollback (id : Nat) (force : Bool)

section Versions

variable {H : Type} [DecidableEq H] (w : Setup) (digest : String → H) (postgres : Bool)

/-- `overlay_blob_and_hash`. -/
def blobAndHash (file : Option Json) : Option (Json × H) :=
  (loadOverlay file).map fun overlay =>
    let blob := sortKeys (.obj overlay)
    (blob, digest (dumps false blob))

/-- The hash of the overlay. -/
def overlayHash (file : Option Json) : Option H := (blobAndHash digest file).map Prod.snd

namespace Backend

/-- `record_config_version`. -/
def record (b : Backend H) (blob : Json) (sha256 : H) : Backend H :=
  if b.versions.head?.map (·.sha256) = some sha256 then b
  else { b with versions := ⟨b.nextId, sha256, blob⟩ :: b.versions, nextId := b.nextId + 1 }

/-- `snapshot_overlay`; an error of the store is only logged. -/
def snapshot (b : Backend H) (stored : Bool) : Backend H :=
  match blobAndHash digest b.manager.file with
  | some (blob, sha256) => if stored then b.record blob sha256 else b
  | none => b

/-- The call, with what the reload takes from the database. -/
def surround (b : Backend H) (a : Around) : Surround :=
  { a.surround with hydrated :=
      if postgres && a.reloaded then b.versions.head?.map (·.overlay) else none }

/-- `import_overlay`, which with Postgres records its snapshot before the reload. -/
def importOverlay (b : Backend H) (a : Around) (overlay : Json) (force : Bool) :
    Backend H × Bool :=
  match planImport w b.manager overlay force with
  | .error _ => (b, false)
  | .ok (saved, _, _) =>
    let blob := sortKeys (.obj saved)
    let recorded :=
      if postgres && a.surround.saves && a.stored then b.record blob (digest (dumps false blob)) else b
    let (m, reply) :=
      Config.importOverlay w (recorded.surround postgres a) overlay force b.manager
    ({ recorded with manager := m }, reply.isOk)

/-- The handler of a request: the state it leaves, and whether it answers without an error. -/
def handle (b : Backend H) (a : Around) : Req → Backend H × Bool
  | .op (.importOverlay overlay force) => b.importOverlay w digest postgres a overlay force
  | .op op =>
    let (m, reply) := apply w (b.surround postgres a) op b.manager
    ({ b with manager := m }, reply.isOk)
  | .lora answers op =>
    match applyLora w a.surround answers op b.manager with
    | .error _ => (b, false)
    | .ok (m, _) => ({ b with manager := m }, true)
  | .rollback id force =>
    match b.versions.find? (·.id = id) with
    | none => (b, false)
    | some v => b.importOverlay w digest postgres a v.overlay force

/-- A request through the middleware. -/
def request (b : Backend H) (a : Around) (r : Req) : Backend H × Bool :=
  match overlayHash digest b.manager.file with
  | none => (b, false)
  | some before =>
    let (b', ok) := b.handle w digest postgres a r
    if ok && decide (overlayHash digest b'.manager.file ≠ some before) then
      (b'.snapshot digest a.stored, true)
    else (b', ok)

/-- A start of the backend: the overlay of the database, and the baseline snapshot. -/
def restart (b : Backend H) (stored : Bool) : Option (Backend H) := do
  let file := if postgres then (b.versions.head?.map (·.overlay)).or b.manager.file
    else b.manager.file
  let m ← boot w file
  return { b with manager := m }.snapshot digest stored

/-- A pass of `sync_overlay_from_store`. -/
def sync (b : Backend H) (a : Around) : Backend H :=
  match b.versions.head? with
  | none => b
  | some v =>
    if postgres then
      { b with manager := (syncOverlay w (b.surround postgres a) v.overlay b.manager).1 }
    else b

end Backend

/-- What happens to a backend. -/
inductive Happening where
  | request (a : Around) (r : Req)
  | sync (a : Around)
  | start (key : String) (gpu : Option String) (now : Time)
  | runtime (x : Surround) (keys : List String)
  | prune (keep : Nat)
  | foreign (overlay : Dict Json)
  | restart (stored : Bool)

def happen (b : Backend H) : Happening → Option (Backend H)
  | .request a r => some (b.request w digest postgres a r).1
  | .sync a => some (b.sync w postgres a)
  | .start key gpu now =>
    (step w b.manager (.start key gpu now)).map fun m => { b with manager := m }
  | .runtime x keys => (step w b.manager (.runtime x keys)).map fun m => { b with manager := m }
  | .prune keep => some { b with versions := b.versions.take keep }
  | .foreign overlay =>
    let blob := sortKeys (.obj (overlay.setDefault "LLM_engines" (.obj [])))
    if postgres then some (b.record blob (digest (dumps false blob))) else none
  | .restart stored => b.restart w digest postgres stored

/-- The first start, with an empty table. -/
def startup (file : Option Json) : Option (Backend H) := do
  let m ← boot w file
  return { manager := m : Backend H }.snapshot digest true

end Versions

/-! ## Rows and hashes -/

/-- A row as the store has it: the blob is canonical, and the hash is that of its text. -/
def Blob {H : Type} (digest : String → H) (v : Version H) : Prop :=
  ∃ d : Dict Json, v.overlay = sortKeys (.obj d) ∧ d.has "LLM_engines" = true ∧
    v.sha256 = digest (dumps false v.overlay)

section Rows

variable {H : Type} [DecidableEq H] {w : Setup} {digest : String → H} {postgres : Bool}
  {b b' : Backend H} {a : Around} {v : Version H} {file : Option Json}

theorem keys_sortKeysFields (d : Dict Json) : Dict.keys (sortKeysFields d) = Dict.keys d := by
  rw [sortKeysFields_eq_map, Dict.keys, Dict.keys, List.map_map]
  rfl

/-- A canonical blob is loaded as it is. -/
theorem load_blob {d : Dict Json} (h : d.has "LLM_engines" = true) :
    ∃ e : Dict Json, sortKeys (.obj d) = .obj e ∧ e.setDefault "LLM_engines" (.obj []) = e ∧
      loadOverlay (some (.obj e)) = some e := by
  have hhas : Dict.has (sortFields (sortKeysFields d)) "LLM_engines" = true := by
    rw [Dict.has_iff] at h ⊢
    rw [← keys_sortKeysFields] at h
    exact ((List.perm_insertionSort _ _).map Prod.fst).mem_iff.mpr h
  have hset : Dict.setDefault (sortFields (sortKeysFields d)) "LLM_engines" (.obj []) =
      sortFields (sortKeysFields d) := if_pos hhas
  refine ⟨sortFields (sortKeysFields d), by rw [sortKeys], hset, ?_⟩
  rw [loadOverlay, Json.asObj, Option.map_some, hset]

omit [DecidableEq H] in
/-- **The hash of a recorded overlay** is the row's. -/
theorem hash_row (h : Blob digest v) : overlayHash digest (some v.overlay) = some v.sha256 := by
  obtain ⟨d, hv, hd, hsha⟩ := h
  obtain ⟨e, he, -, hload⟩ := load_blob hd
  rw [hsha, hv]
  rw [overlayHash, blobAndHash, he, hload, Option.map_some, Option.map_some]
  dsimp only
  rw [← he, sortKeys_sortKeys]

namespace Backend

theorem record_manager (b : Backend H) (blob : Json) (sha : H) :
    (b.record blob sha).manager = b.manager := by
  unfold record
  split_ifs <;> rfl

theorem record_newest (b : Backend H) (blob : Json) (sha : H) :
    (b.record blob sha).versions.head?.map (·.sha256) = some sha := by
  unfold record
  split_ifs with h
  · exact h
  · rfl

theorem record_of_newest {blob : Json} {sha : H}
    (h : b.versions.head?.map (·.sha256) = some sha) : b.record blob sha = b :=
  if_pos h

theorem record_cases (b : Backend H) (blob : Json) (sha : H) :
    b.record blob sha = b ∨ b.record blob sha =
      { b with versions := ⟨b.nextId, sha, blob⟩ :: b.versions, nextId := b.nextId + 1 } := by
  unfold record
  split_ifs
  · exact .inl rfl
  · exact .inr rfl

theorem snapshot_manager (b : Backend H) (stored : Bool) :
    (b.snapshot digest stored).manager = b.manager := by
  unfold snapshot
  split
  · split_ifs
    · exact record_manager _ _ _
    · rfl
  · rfl

end Backend

/-- The rows are canonical and older than the next id, and no key is twice in the registry. -/
structure Rows (digest : String → H) (b : Backend H) : Prop where
  blobs : ∀ v ∈ b.versions, Blob digest v
  ids : ∀ v ∈ b.versions, v.id < b.nextId
  unique : b.manager.registry.Unique

omit [DecidableEq H] in
theorem Rows.manager {m : Manager} (h : Rows digest b) (hu : m.registry.Unique) :
    Rows digest { b with manager := m } :=
  ⟨h.blobs, h.ids, hu⟩

theorem Rows.record (h : Rows digest b) {d : Dict Json} (hd : d.has "LLM_engines" = true) :
    Rows digest (b.record (sortKeys (.obj d)) (digest (dumps false (sortKeys (.obj d))))) := by
  obtain hsame | hnew := b.record_cases (sortKeys (.obj d)) (digest (dumps false (sortKeys (.obj d))))
  · rw [hsame]
    exact h
  · rw [hnew]
    refine ⟨List.forall_mem_cons.mpr ⟨⟨d, rfl, hd, rfl⟩, h.blobs⟩,
      List.forall_mem_cons.mpr ⟨Nat.lt_succ_self _, fun v hv => ?_⟩, h.unique⟩
    exact Nat.lt_succ_of_lt (h.ids v hv)

theorem Rows.snapshot (h : Rows digest b) (stored : Bool) : Rows digest (b.snapshot digest stored) := by
  unfold Backend.snapshot
  split
  next blob sha hblob =>
    obtain ⟨overlay, hload, heq⟩ := Option.map_eq_some_iff.mp hblob
    cases heq
    split_ifs
    · exact h.record (has_loaded hload)
    · exact h
  next => exact h

/-- A recorded version is found after a new one is recorded. -/
theorem find_record {id : Nat} {blob : Json} {sha : H} (h : Rows digest b)
    (hv : b.versions.find? (·.id = id) = some v) :
    (b.record blob sha).versions.find? (·.id = id) = some v := by
  obtain hsame | hnew := b.record_cases blob sha
  · rw [hsame, hv]
  · have hid : v.id = id := by simpa using List.find?_some hv
    have hlt := h.ids v (List.mem_of_find?_eq_some hv)
    have hne : b.nextId ≠ id := by omega
    rw [hnew]
    dsimp only
    rw [List.find?_cons_of_neg (by simpa using hne), hv]

end Rows

/-! ## No key is twice in the registry -/

section Unique

variable {w : Setup} {x : Surround} {m m' : Manager}

theorem unique_stopBusy (x : Surround) (busy : List String) {reg : Registry} (hu : reg.Unique) :
    Dict.Unique (stopBusy x busy reg) := by
  unfold Dict.Unique
  rw [keys_stopBusy]
  exact hu

theorem registry_reload : (m.reload x).registry = m.registry := by
  unfold Manager.reload
  cases x.hydrated <;> rfl

theorem config_reload : (m.reload x).config = m.config := by
  unfold Manager.reload
  cases x.hydrated <;> rfl

/-- An import whose plan is made: all of it, or the stops alone. -/
theorem importOverlay_of_plan {overlay : Json} {force : Bool} {ov : Dict Json} {config : RootConfig}
    {desired : Dict LaunchSpec} (h : planImport w m overlay force = .ok (ov, config, desired)) :
    importOverlay w x overlay force m =
      if x.saves then
        (({ m.commit ov config with registry :=
            (resync (stopBusy x (busyKeys m.registry desired) m.registry) desired).1 }).reload x,
          .ok (resync (stopBusy x (busyKeys m.registry desired) m.registry) desired).2)
      else ({ m with registry := stopBusy x (busyKeys m.registry desired) m.registry },
        .error .notSaved) := by
  unfold importOverlay
  rw [h]
  cases x.saves <;> rfl

theorem unique_import {overlay : Json} {force : Bool} (hu : m.registry.Unique) :
    (importOverlay w x overlay force m).1.registry.Unique := by
  cases hplan : planImport w m overlay force with
  | error e =>
    unfold importOverlay
    rw [hplan]
    exact hu
  | ok plan =>
    obtain ⟨ov, config, desired⟩ := plan
    obtain ⟨-, -, hdesired, -⟩ := planImport_eq_ok hplan
    rw [importOverlay_of_plan hplan]
    split_ifs
    · rw [registry_reload]
      exact unique_resync (unique_stopBusy _ _ hu) (unique_collect hdesired)
    · exact unique_stopBusy _ _ hu

/-- No operation puts a key into the registry twice. -/
theorem unique_apply {op : Op} (hu : m.registry.Unique) : (apply w x op m).1.registry.Unique := by
  cases op with
  | create =>
    simp only [apply, createOverlayModel]
    split
    · exact hu
    · split_ifs
      · exact hu
      · split
        · exact hu
        · exact hu.set
  | update =>
    simp only [apply, updateOverlayModel]
    split
    · exact hu
    · split_ifs
      · exact hu
      · split
        · exact hu
        · exact hu.set
  | delete =>
    simp only [apply, deleteOverlayModel]
    split
    · exact hu
    · split_ifs
      · exact hu
      · split
        · exact hu
        · exact hu.pop
  | setAutoscale =>
    simp only [apply, setAutoscale]
    split
    · exact hu
    · split_ifs <;> exact hu
  | setFallback =>
    simp only [apply, setFallback]
    split
    · exact hu
    · split_ifs
      · exact hu
      · rw [registry_reload]
        exact hu
  | updateEmbedding =>
    simp only [apply, updateEmbeddingModel]
    split
    · exact hu
    · split_ifs <;> exact hu
  | importOverlay => exact unique_import hu

theorem unique_sync {overlay : Json} (hu : m.registry.Unique) :
    (syncOverlay w x overlay m).1.registry.Unique := by
  unfold syncOverlay
  split_ifs
  · exact hu
  · dsimp only
    split
    · exact hu
    · split
      · exact hu
      next desired hdesired =>
        have hunique := unique_resync hu (unique_collect hdesired)
        split
        · exact hunique
        · rw [registry_reload]
          exact hunique

theorem unique_start {key : String} {gpu : Option String} {now : Time} (hu : m.registry.Unique)
    (h : step w m (.start key gpu now) = some m') : m'.registry.Unique := by
  simp only [step, Option.bind_eq_bind, Option.bind_eq_some_iff, Option.pure_def,
    Option.some.injEq] at h
  obtain ⟨inst, -, spec, -, inst', -, rfl⟩ := h
  exact hu.set

theorem unique_boot {file : Option Json} (h : boot w file = some m) : m.registry.Unique := by
  simp only [boot, Option.bind_eq_bind, Option.bind_eq_some_iff, Option.pure_def,
    Option.some.injEq] at h
  obtain ⟨overlay, -, config, -, registry, hreg, rfl⟩ := h
  exact unique_collect (toOption_eq_some.mp hreg)

end Unique

/-! ## A rollback -/

section Rollback

variable {H : Type} [DecidableEq H] {w : Setup} {digest : String → H} {postgres : Bool}
  {b b' : Backend H} {a : Around} {v : Version H} {id : Nat} {force : Bool}

/-- What a rollback to `v` leaves: the overlay has the hash of `v`, the configuration is its merge, the
registry has the keys of the configuration with their specs, and the newest row has that hash. -/
structure Restored (w : Setup) (digest : String → H) (v : Version H) (b : Backend H) : Prop where
  hash : overlayHash digest b.manager.file = some v.sha256
  config : mergedFile w (some v.overlay) = some b.manager.config
  keys : ∀ key, key ∈ b.manager.registry.keys ↔ key ∈ definedKeys b.manager.config
  specs : ∃ desired, resolveSpecs w.env b.manager.config = .ok desired ∧
    ∀ key inst, b.manager.registry.get key = some inst → desired.get key = some inst.spec
  newest : b.versions.head?.map (·.sha256) = some v.sha256

/-- One more rollback succeeds and changes nothing. -/
def Repeats (w : Setup) (digest : String → H) (postgres : Bool) (id : Nat) (b : Backend H) : Prop :=
  ∀ (a : Around) (force : Bool), a.surround.saves = true →
    ∃ b', b.request w digest postgres a (.rollback id force) = (b', true) ∧
      overlayHash digest b'.manager.file = overlayHash digest b.manager.file ∧
      b'.manager.config = b.manager.config ∧ b'.manager.registry = b.manager.registry ∧
      b'.versions = b.versions

omit [DecidableEq H] in
/-- The file after an import, which with Postgres the reload takes from the newest row. -/
theorem hash_reloaded {recorded : Backend H} {m : Manager} (hrows : Rows digest recorded)
    (hfile : overlayHash digest m.file = some v.sha256)
    (hnewest : postgres = true → recorded.versions.head?.map (·.sha256) = some v.sha256) :
    overlayHash digest (m.reload (recorded.surround postgres a)).file = some v.sha256 := by
  unfold Manager.reload Backend.surround
  dsimp only
  split
  next => exact hfile
  next overlay hbrought =>
    split_ifs at hbrought with hpg
    obtain ⟨hpostgres, -⟩ : postgres = true ∧ a.reloaded = true := by simpa using hpg
    obtain ⟨r, hr, rfl⟩ := Option.map_eq_some_iff.mp hbrought
    have hsha := hnewest hpostgres
    rw [hr, Option.map_some, Option.some.injEq] at hsha
    have hmem : r ∈ recorded.versions := List.mem_of_head? hr
    rw [hash_row (hrows.blobs r hmem), hsha]

omit [DecidableEq H] in
/-- The plan of importing a recorded overlay. -/
theorem planImport_row {m : Manager} {saved : Dict Json} {config : RootConfig}
    {desired : Dict LaunchSpec} (hv : Blob digest v)
    (h : planImport w m v.overlay force = .ok (saved, config, desired)) :
    v.overlay = .obj saved ∧ mergedFile w (some v.overlay) = some config ∧
      resolveSpecs w.env config = .ok desired ∧
      digest (dumps false (sortKeys (.obj saved))) = v.sha256 := by
  obtain ⟨d, hov, hd, hsha⟩ := hv
  obtain ⟨e, he, hset, hload⟩ := load_blob hd
  obtain ⟨⟨d', hd', rfl⟩, hconfig, hdesired, -⟩ := planImport_eq_ok h
  have hobj : v.overlay = .obj e := hov.trans he
  rw [hobj] at hd'
  cases hd'
  rw [hset] at hconfig ⊢
  refine ⟨hobj, ?_, hdesired, ?_⟩
  · rw [mergedFile, hobj, hload]
    exact hconfig
  · rw [hsha, hov, ← he, sortKeys_sortKeys]

/-- An import that answers without an error has saved, and recorded with Postgres. -/
theorem importOverlay_eq_true {overlay : Json}
    (h : b.importOverlay w digest postgres a overlay force = (b', true)) :
    ∃ saved config desired recorded, a.surround.saves = true ∧
      planImport w b.manager overlay force = .ok (saved, config, desired) ∧
      recorded = (if postgres && a.stored then
        b.record (sortKeys (.obj saved)) (digest (dumps false (sortKeys (.obj saved)))) else b) ∧
      b' = { recorded with manager :=
        ({ b.manager.commit saved config with registry :=
          (resync (stopBusy (recorded.surround postgres a) (busyKeys b.manager.registry desired)
            b.manager.registry) desired).1 }).reload (recorded.surround postgres a) } := by
  unfold Backend.importOverlay at h
  cases hplan : planImport w b.manager overlay force with
  | error e =>
    rw [hplan] at h
    cases h
  | ok plan =>
    obtain ⟨saved, config, desired⟩ := plan
    rw [hplan] at h
    dsimp only at h
    have hsaved (c : Backend H) : (c.surround postgres a).saves = a.surround.saves := rfl
    rw [importOverlay_of_plan hplan, hsaved] at h
    cases hs : a.surround.saves with
    | false =>
      rw [hs] at h
      cases h
    | true =>
      rw [hs, Bool.and_true, if_pos rfl] at h
      cases h
      exact ⟨saved, config, desired, _, rfl, rfl, rfl, rfl⟩

/-- **The import of a recorded overlay**, before the middleware has compared. -/
structure Imported (w : Setup) (digest : String → H) (postgres : Bool) (v : Version H)
    (b b' : Backend H) : Prop where
  hash : overlayHash digest b'.manager.file = some v.sha256
  config : mergedFile w (some v.overlay) = some b'.manager.config
  registry : ∃ desired reg, resolveSpecs w.env b'.manager.config = .ok desired ∧
    Dict.Unique reg ∧ b'.manager.registry = (resync reg desired).1
  newest : postgres = true → b'.versions.head?.map (·.sha256) = some v.sha256
  rows : Rows digest b'
  kept : postgres = false → b'.versions = b.versions
  found : ∀ id r, b.versions.find? (·.id = id) = some r → b'.versions.find? (·.id = id) = some r

theorem imported (hrows : Rows digest b) (hv : Blob digest v) (hstored : a.stored = true)
    (h : b.importOverlay w digest postgres a v.overlay force = (b', true)) :
    Imported w digest postgres v b b' := by
  obtain ⟨saved, config, desired, recorded, -, hplan, hrecorded, rfl⟩ := importOverlay_eq_true h
  obtain ⟨hobj, hconfig, hdesired, hsha⟩ := planImport_row hv hplan
  rw [hstored, Bool.and_true, hsha] at hrecorded
  have hload : overlayHash digest (some (.obj saved)) = some v.sha256 := by
    rw [← hobj]
    exact hash_row hv
  have hhas : saved.has "LLM_engines" = true := by
    obtain ⟨d, hov, hd, -⟩ := hv
    obtain ⟨e, he, hset, hl⟩ := load_blob hd
    rw [hobj, he] at hov
    cases hov
    exact has_loaded hl
  have hnewest : postgres = true → recorded.versions.head?.map (·.sha256) = some v.sha256 := by
    intro hpg
    rw [hrecorded, if_pos hpg]
    exact Backend.record_newest _ _ _
  have hrowsRecorded : Rows digest recorded := by
    rw [hrecorded]
    split_ifs
    · rw [← hsha]
      exact hrows.record hhas
    · exact hrows
  have hunique := unique_stopBusy (recorded.surround postgres a)
    (busyKeys b.manager.registry desired) hrows.unique
  refine ⟨?_, ?_, ⟨desired, _, ?_, hunique, ?_⟩, hnewest, ?_, fun hpg => ?_, fun id r hr => ?_⟩
  · exact hash_reloaded hrowsRecorded hload hnewest
  · dsimp only
    rw [config_reload]
    exact hconfig
  · dsimp only
    rw [config_reload]
    exact hdesired
  · exact registry_reload
  · refine hrowsRecorded.manager ?_
    rw [registry_reload]
    exact unique_resync hunique (unique_collect hdesired)
  · dsimp only
    rw [hrecorded, if_neg (by simpa using hpg)]
  · dsimp only
    rw [hrecorded]
    split_ifs
    · exact find_record hrows hr
    · exact hr

/-- What a resync leaves is in line with what it was given. -/
theorem resynced (reg : Registry) (desired : Dict LaunchSpec) :
    (∀ key, key ∈ (resync reg desired).1.keys ↔ key ∈ desired.keys) ∧
      ∀ key inst, (resync reg desired).1.get key = some inst → desired.get key = some inst.spec := by
  refine ⟨fun key => mem_keys_resync, fun key inst hget => ?_⟩
  obtain ⟨spec, hspec, rfl | ⟨old, -, rfl | ⟨rfl, hsame⟩⟩⟩ := get_resync hget
  · exact hspec
  · exact hspec
  · rw [hspec, hsame]

/-- The second import of the same overlay. -/
theorem importOverlay_again (a : Around) (force : Bool) (hrows : Rows digest b) (hv : Blob digest v)
    (hconfig : mergedFile w (some v.overlay) = some b.manager.config) {desired : Dict LaunchSpec}
    (hdesired : resolveSpecs w.env b.manager.config = .ok desired)
    (hbusy : busyKeys b.manager.registry desired = [])
    (hresync : resync b.manager.registry desired = (b.manager.registry, .keys [] [] []))
    (hnewest : b.versions.head?.map (·.sha256) = some v.sha256)
    (hsaves : a.surround.saves = true) :
    ∃ b', b.importOverlay w digest postgres a v.overlay force = (b', true) ∧
      overlayHash digest b'.manager.file = some v.sha256 ∧ b'.manager.config = b.manager.config ∧
      b'.manager.registry = b.manager.registry ∧ b'.versions = b.versions := by
  obtain ⟨d, hov, hd, hsha⟩ := id hv
  obtain ⟨e, he, hset, hload⟩ := load_blob hd
  have hobj : v.overlay = .obj e := hov.trans he
  have hmerged : buildMergedConfig w.py w.yaml e = some b.manager.config := by
    rw [mergedFile, hobj, hload] at hconfig
    exact hconfig
  have hplan : planImport w b.manager v.overlay force = .ok (e, b.manager.config, desired) := by
    rw [planImport, hobj, Json.asObj, orRaise]
    simp only [hset, hmerged, hdesired, hbusy, orRaise, sorted_nil, refuseIf, raiseIf, bind,
      Except.bind, List.isEmpty_nil, Bool.not_true, Bool.false_and, Bool.false_eq_true, if_false,
      pure, Except.pure]
  have hdigest : digest (dumps false (sortKeys (.obj e))) = v.sha256 := by
    rw [hsha, hov, ← he, sortKeys_sortKeys]
  have hrecord : (if postgres && a.surround.saves && a.stored then
      b.record (sortKeys (.obj e)) (digest (dumps false (sortKeys (.obj e)))) else b) = b := by
    rw [hdigest, Backend.record_of_newest hnewest, ite_self]
  have hstop : stopBusy (b.surround postgres a) [] b.manager.registry = b.manager.registry := by
    rw [stopBusy]
    simp
  have hsaved : (b.surround postgres a).saves = true := hsaves
  refine ⟨{ b with manager := ({ b.manager.commit e b.manager.config with
    registry := b.manager.registry }).reload (b.surround postgres a) }, ?_, ?_, config_reload,
    registry_reload, rfl⟩
  · unfold Backend.importOverlay
    rw [hplan]
    dsimp only
    rw [hrecord, importOverlay_of_plan hplan, hsaved, if_pos rfl, hbusy, hstop, hresync]
    rfl
  · refine hash_reloaded hrows ?_ fun _ => hnewest
    show overlayHash digest (some (.obj e)) = some v.sha256
    rw [← hobj]
    exact hash_row hv

/-- The rows are in order, and without Postgres the newest one is the overlay's. -/
structure Recorded (digest : String → H) (postgres : Bool) (b : Backend H) : Prop where
  rows : Rows digest b
  current : postgres = false → ∀ sha r, overlayHash digest b.manager.file = some sha →
    b.versions.head? = some r → r.sha256 = sha

theorem snapshot_newest {sha : H} (h : overlayHash digest b.manager.file = some sha) :
    (b.snapshot digest true).versions.head?.map (·.sha256) = some sha := by
  obtain ⟨⟨blob, _⟩, hblob, rfl⟩ := Option.map_eq_some_iff.mp h
  unfold Backend.snapshot
  rw [hblob]
  exact Backend.record_newest _ _ _

/-- A request that answers without an error, step by step. -/
theorem request_eq_true {r : Req} (h : b.request w digest postgres a r = (b', true)) :
    ∃ before b₁, overlayHash digest b.manager.file = some before ∧
      b.handle w digest postgres a r = (b₁, true) ∧
      b' = if overlayHash digest b₁.manager.file ≠ some before then b₁.snapshot digest a.stored
        else b₁ := by
  unfold Backend.request at h
  cases hbefore : overlayHash digest b.manager.file with
  | none =>
    rw [hbefore] at h
    cases h
  | some before =>
    rw [hbefore] at h
    dsimp only at h
    rcases hhandle : b.handle w digest postgres a r with ⟨b₁, ok⟩
    cases ok with
    | false =>
      rw [hhandle] at h
      cases h
    | true =>
      rw [hhandle, Bool.true_and] at h
      refine ⟨before, b₁, rfl, rfl, ?_⟩
      by_cases hne : overlayHash digest b₁.manager.file ≠ some before
      · rw [if_pos (by simpa using hne)] at h
        rw [if_pos hne]
        exact (congrArg Prod.fst h).symm
      · rw [if_neg (by simpa using hne)] at h
        rw [if_neg hne]
        exact (congrArg Prod.fst h).symm

/-- **A rollback restores the version**, and a second one changes nothing. -/
theorem restored (hi : Recorded digest postgres b) (hstored : a.stored = true)
    (hfind : b.versions.find? (·.id = id) = some v)
    (h : b.request w digest postgres a (.rollback id force) = (b', true)) :
    Restored w digest v b' ∧ Repeats w digest postgres id b' := by
  obtain ⟨before, b₁, hbefore, hhandle, hb'⟩ := request_eq_true h
  have hv : Blob digest v := hi.rows.blobs v (List.mem_of_find?_eq_some hfind)
  unfold Backend.handle at hhandle
  dsimp only at hhandle
  rw [hfind] at hhandle
  have himp := imported hi.rows hv hstored hhandle
  rw [hstored, himp.hash] at hb'
  -- the middleware leaves the manager, and the newest row has the hash
  have hmanager : b'.manager = b₁.manager := by
    rw [hb']
    split_ifs
    · exact Backend.snapshot_manager _ _
    · rfl
  have hnewest : b'.versions.head?.map (·.sha256) = some v.sha256 := by
    rw [hb']
    split_ifs with hne
    · exact snapshot_newest himp.hash
    · cases hpg : postgres with
      | true => exact himp.newest hpg
      | false =>
        have hsame : v.sha256 = before := by simpa using hne
        rw [himp.kept hpg]
        cases hhead : b.versions.head? with
        | none =>
          rw [List.head?_eq_none_iff.mp hhead] at hfind
          cases hfind
        | some r =>
          rw [Option.map_some, hi.current hpg before r hbefore hhead, hsame]
  have hfound : b'.versions.find? (·.id = id) = some v := by
    have hfound := himp.found id v hfind
    rw [hb']
    split_ifs
    · unfold Backend.snapshot
      split
      · exact find_record himp.rows hfound
      · exact hfound
    · exact hfound
  have hrows : Rows digest b' := by
    rw [hb']
    split_ifs
    · exact himp.rows.snapshot _
    · exact himp.rows
  obtain ⟨desired, reg, hdesired, hunique, hreg⟩ := himp.registry
  obtain ⟨hkeys, hspecs⟩ := resynced reg desired
  rw [← hreg, ← hmanager] at hkeys hspecs
  rw [← hmanager] at hdesired
  have hconfig : mergedFile w (some v.overlay) = some b'.manager.config := by
    rw [hmanager]
    exact himp.config
  have hhash : overlayHash digest b'.manager.file = some v.sha256 := by
    rw [hmanager]
    exact himp.hash
  constructor
  · refine ⟨hhash, hconfig, fun key => ?_, ⟨desired, hdesired, hspecs⟩, hnewest⟩
    exact (hkeys key).trans (mem_keys_collect hdesired)
  · intro a' force' hsaves
    obtain ⟨hbusy, hresync⟩ := resync_same hrows.unique hkeys hspecs
    obtain ⟨b₂, himport, hhash₂, hconfig₂, hregistry₂, hversions₂⟩ :=
      importOverlay_again a' force' hrows hv hconfig hdesired hbusy hresync hnewest hsaves
    have hagain : b'.handle w digest postgres a' (.rollback id force') = (b₂, true) := by
      unfold Backend.handle
      dsimp only
      rw [hfound]
      exact himport
    refine ⟨b₂, ?_, hhash₂.trans hhash.symm, hconfig₂, hregistry₂, hversions₂⟩
    unfold Backend.request
    rw [hhash]
    dsimp only
    rw [hagain]
    dsimp only
    rw [hhash₂]
    simp

end Rollback

/-! ## The history before it -/

section History

variable {H : Type} [DecidableEq H] {w : Setup} {digest : String → H} {postgres : Bool}
  {b b' : Backend H} {a : Around} {r : Req} {file : Option Json}

theorem rows_importOverlay (h : Rows digest b) (overlay : Json) (force : Bool) :
    Rows digest (b.importOverlay w digest postgres a overlay force).1 := by
  unfold Backend.importOverlay
  cases hplan : planImport w b.manager overlay force with
  | error e => exact h
  | ok plan =>
    obtain ⟨saved, config, desired⟩ := plan
    obtain ⟨⟨d, -, rfl⟩, -⟩ := planImport_eq_ok hplan
    have hhas := has_loaded (loadOverlay_setDefault d)
    dsimp only
    split_ifs
    · exact (h.record hhas).manager (unique_import h.unique)
    · exact h.manager (unique_import h.unique)

theorem rows_handle (h : Rows digest b) (a : Around) (r : Req) :
    Rows digest (b.handle w digest postgres a r).1 := by
  unfold Backend.handle
  split
  · exact rows_importOverlay h _ _
  · exact h.manager (unique_apply h.unique)
  next answers op =>
    split
    next => exact h
    next m reply happ =>
      obtain ⟨overlay, config, -, rfl⟩ := applyLora_eq_ok happ
      exact h.manager h.unique
  · split
    · exact h
    · exact rows_importOverlay h _ _

/-- Without Postgres only the middleware records. -/
theorem versions_importOverlay (overlay : Json) (force : Bool) :
    (b.importOverlay w digest false a overlay force).1.versions = b.versions := by
  unfold Backend.importOverlay
  cases planImport w b.manager overlay force <;> rfl

theorem versions_handle (a : Around) (r : Req) :
    (b.handle w digest false a r).1.versions = b.versions := by
  unfold Backend.handle
  split
  · exact versions_importOverlay _ _
  · rfl
  · split <;> rfl
  · split
    · rfl
    · exact versions_importOverlay _ _

/-- The condition on what happens. With Postgres there is none. -/
def RecordGuard (w : Setup) (digest : String → H) (postgres : Bool) (b : Backend H) :
    Happening → Prop
  | .request a r => postgres = false → a.stored = true ∧
      ((b.request w digest postgres a r).2 = false →
        overlayHash digest (b.request w digest postgres a r).1.manager.file =
          overlayHash digest b.manager.file)
  | .restart stored => postgres = false → stored = true
  | .sync .. | .start .. | .runtime .. | .prune .. | .foreign .. => True

theorem rows_request (h : Rows digest b) (a : Around) (r : Req) :
    Rows digest (b.request w digest postgres a r).1 := by
  unfold Backend.request
  split
  next => exact h
  next before hbefore =>
    have hrows : Rows digest (b.handle w digest postgres a r).1 := rows_handle h a r
    dsimp only
    split_ifs
    · exact hrows.snapshot _
    · exact hrows

omit [DecidableEq H] in
theorem Recorded.manager {m : Manager} (h : Recorded digest postgres b) (hu : m.registry.Unique)
    (hfile : overlayHash digest m.file = overlayHash digest b.manager.file) :
    Recorded digest postgres { b with manager := m } :=
  ⟨h.rows.manager hu, fun hpg sha v hsha hv => h.current hpg sha v (hfile.symm.trans hsha) hv⟩

/-- A snapshot that is stored makes the newest row that of the overlay. -/
theorem Recorded.of_snapshot (h : Rows digest b) :
    Recorded digest postgres (b.snapshot digest true) := by
  refine ⟨h.snapshot _, fun _ sha v hsha hv => ?_⟩
  rw [Backend.snapshot_manager] at hsha
  have hnewest := snapshot_newest hsha
  rw [hv, Option.map_some] at hnewest
  exact Option.some.inj hnewest

/-- **A request keeps the newest row in line.** -/
theorem recorded_request (h : Recorded digest postgres b)
    (hguard : RecordGuard w digest postgres b (.request a r)) :
    Recorded digest postgres (b.request w digest postgres a r).1 := by
  cases hpg : postgres with
  | true => exact ⟨rows_request h.rows _ _, fun hfalse => absurd hfalse (by simp)⟩
  | false =>
    subst hpg
    obtain ⟨hstored, hrefused⟩ := hguard rfl
    have hrows : Rows digest (b.handle w digest false a r).1 := rows_handle h.rows a r
    have hversions : (b.handle w digest false a r).1.versions = b.versions := versions_handle a r
    refine ⟨rows_request h.rows _ _, fun _ => ?_⟩
    cases hbefore : overlayHash digest b.manager.file with
    | none =>
      intro sha v hsha hv
      unfold Backend.request at hsha
      rw [hbefore] at hsha
      rw [hbefore] at hsha
      cases hsha
    | some before =>
      unfold Backend.request at hrefused ⊢
      rw [hbefore] at hrefused ⊢
      dsimp only at hrefused ⊢
      rcases hhandle : b.handle w digest false a r with ⟨b₁, ok⟩
      rw [hhandle] at hrefused hrows hversions
      dsimp only at hrefused hrows hversions ⊢
      split_ifs at hrefused ⊢ with hchanged
      · rw [hstored]
        exact (show Recorded digest false (b₁.snapshot digest true) from .of_snapshot hrows).current rfl
      · -- nothing is recorded: the hash is the one before
        have hsame : overlayHash digest b₁.manager.file = some before := by
          cases ok with
          | false => exact hrefused rfl
          | true => simpa using hchanged
        intro sha v hsha hv
        dsimp only at hsha hv
        rw [hversions] at hv
        exact h.current rfl sha v (hbefore.trans (hsame.symm.trans hsha)) hv

omit [DecidableEq H] in
theorem recorded_sync (h : Recorded digest postgres b) (a : Around) :
    Recorded digest postgres (b.sync w postgres a) := by
  unfold Backend.sync
  split
  · exact h
  · split_ifs with hpg
    · exact ⟨h.rows.manager (unique_sync h.rows.unique), fun hfalse => absurd (hpg.symm.trans hfalse)
        (by simp)⟩
    · exact h

theorem recorded_restart {stored : Bool} (h : Recorded digest postgres b)
    (hguard : RecordGuard w digest postgres b (.restart stored))
    (hrestart : b.restart w digest postgres stored = some b') : Recorded digest postgres b' := by
  simp only [Backend.restart, Option.bind_eq_bind, Option.bind_eq_some_iff, Option.pure_def,
    Option.some.injEq] at hrestart
  obtain ⟨m, hboot, rfl⟩ := hrestart
  have hrows : Rows digest { b with manager := m } := h.rows.manager (unique_boot hboot)
  cases hpg : postgres with
  | true => exact ⟨hrows.snapshot _, fun hfalse => absurd hfalse (by simp)⟩
  | false =>
    rw [hguard hpg]
    exact Recorded.of_snapshot hrows

omit [DecidableEq H] in
theorem mem_of_head?_take {n : Nat} {v : Version H} {vs : List (Version H)}
    (h : (vs.take n).head? = some v) : vs.head? = some v := by
  cases n with
  | zero => cases h
  | succ n =>
    rw [List.head?_take, if_neg (Nat.succ_ne_zero n)] at h
    exact h

/-- **The step lemma.** -/
theorem recorded_happen {e : Happening} (h : Recorded digest postgres b)
    (hguard : RecordGuard w digest postgres b e)
    (he : happen w digest postgres b e = some b') : Recorded digest postgres b' := by
  cases e with
  | request a r =>
    cases he
    exact recorded_request h hguard
  | sync a =>
    cases he
    exact recorded_sync h a
  | start key gpu now =>
    obtain ⟨m, hm, rfl⟩ := Option.map_eq_some_iff.mp he
    refine h.manager (unique_start h.rows.unique hm) ?_
    simp only [step, Option.bind_eq_bind, Option.bind_eq_some_iff, Option.pure_def,
      Option.some.injEq] at hm
    obtain ⟨inst, -, spec, -, inst', -, rfl⟩ := hm
    rfl
  | runtime x keys =>
    cases he
    exact h.manager (unique_stopBusy _ _ h.rows.unique) rfl
  | prune keep =>
    cases he
    refine ⟨⟨fun v hv => h.rows.blobs v (List.mem_of_mem_take hv),
      fun v hv => h.rows.ids v (List.mem_of_mem_take hv), h.rows.unique⟩,
      fun hpg sha v hsha hv => h.current hpg sha v hsha (mem_of_head?_take hv)⟩
  | foreign overlay =>
    unfold happen at he
    dsimp only at he
    split_ifs at he with hpg
    cases he
    exact ⟨h.rows.record (has_loaded (loadOverlay_setDefault overlay)), fun hfalse =>
      absurd (hpg.symm.trans hfalse) (by simp)⟩
  | restart stored => exact recorded_restart h hguard he

theorem recorded_startup (h : startup w digest file = some b) : Recorded digest postgres b := by
  simp only [startup, Option.bind_eq_bind, Option.bind_eq_some_iff, Option.pure_def,
    Option.some.injEq] at h
  obtain ⟨m, hboot, rfl⟩ := h
  exact Recorded.of_snapshot ⟨fun _ hv => absurd hv List.not_mem_nil,
    fun _ hv => absurd hv List.not_mem_nil, unique_boot hboot⟩

/-- **A rollback is exact** after every guarded history: it restores the version, and a second one
changes nothing. -/
theorem restored_of_guarded {b₀ : Backend H} {v : Version H} {id : Nat} {force : Bool}
    (hstartup : startup w digest file = some b₀)
    (h : Reach (happen w digest postgres) (RecordGuard w digest postgres) b₀ b)
    (hstored : a.stored = true) (hfind : b.versions.find? (·.id = id) = some v)
    (hrollback : b.request w digest postgres a (.rollback id force) = (b', true)) :
    Restored w digest v b' ∧ Repeats w digest postgres id b' := by
  have hi := h.invariant (I := Recorded digest postgres) (recorded_startup hstartup)
    (fun hb hG he => recorded_happen hb hG he)
  exact restored hi hstored hfind hrollback

end History

/-- A group gets a policy. -/
def edited : List Happening :=
  [.request {} (.op (.setAutoscale "chat" (some [("enabled", .bool true)])))]

/-- A refused group that stays in the overlay, a restart that records it, a rollback to the first
version, and the refused group once more. -/
def stranded : List Happening :=
  [.request {} (.op unlaunchable), .restart true, .request {} (.rollback 1 false),
    .request {} (.op unlaunchable)]

/-- A run from the first start on `oneGroup`, whose hashes are the texts, and then a rollback to a
version, evaluated. -/
theorem exists_rollback {P : Backend String → Version String → Backend String → Bool} {n : Nat}
    {es : List Happening}
    (h : ((startup oneGroup id none).bind fun b => run (happen oneGroup id false) b es).any
      (fun b => (b.versions.find? (·.id = n)).any fun v =>
        (b.request oneGroup id false {} (.rollback n false)).2 &&
          P b v (b.request oneGroup id false {} (.rollback n false)).1) = true) :
    ∃ b₀ b v b', startup oneGroup id none = some b₀ ∧ run (happen oneGroup id false) b₀ es = some b ∧
      b.versions.find? (·.id = n) = some v ∧
      b.request oneGroup id false {} (.rollback n false) = (b', true) ∧ P b v b' = true := by
  obtain ⟨b, hb, hP⟩ := (Option.any_eq_true _ _).mp h
  obtain ⟨b₀, hstartup, hrun⟩ := Option.bind_eq_some_iff.mp hb
  obtain ⟨v, hv, hP⟩ := (Option.any_eq_true _ _).mp hP
  rw [Bool.and_eq_true] at hP
  exact ⟨b₀, b, v, _, hstartup, hrun, hv, Prod.ext rfl hP.1, hP.2⟩

theorem restored_edited : ∃ b₀ b v b', startup oneGroup id none = some b₀ ∧
    run (happen oneGroup id false) b₀ edited = some b ∧
    b.versions.find? (·.id = 1) = some v ∧ b.versions.length = 2 ∧
    b.request oneGroup id false {} (.rollback 1 false) = (b', true) ∧
    Restored oneGroup id v b' ∧ Repeats oneGroup id false 1 b' := by
  obtain ⟨b₀, b, v, b', hstartup, hrun, hv, hrollback, hlength⟩ := @exists_rollback
    (fun b _ _ => decide (b.versions.length = 2)) 1 edited (by decide +kernel)
  have hanswers : (startup oneGroup id none).all (fun b₀ => (b₀.request oneGroup id false {}
      (.op (.setAutoscale "chat" (some [("enabled", .bool true)])))).2) = true := by decide +kernel
  have halong : Along (happen oneGroup id false) (RecordGuard oneGroup id false) b₀ edited := by
    refine ⟨fun _ => ⟨rfl, fun hrefused => ?_⟩, fun _ _ => trivial⟩
    rw [hstartup, Option.all_some, hrefused] at hanswers
    cases hanswers
  exact ⟨b₀, b, v, b', hstartup, hrun, hv, of_decide_eq_true hlength, hrollback,
    restored_of_guarded hstartup (Reach.of_guarded_run hrun halong) rfl hv hrollback⟩

/-- **A rollback that is not recorded.** The second refusal put the content of version 2 back without a
row, so that the rollback to it finds the overlay as it wants it: the newest row stays version 3. -/
theorem stranded_unrecorded : ∃ b₀ b v b', startup oneGroup id none = some b₀ ∧
    Reach (happen oneGroup id false) anyEvent b₀ b ∧ b.versions.find? (·.id = 2) = some v ∧
    b.request oneGroup id false {} (.rollback 2 false) = (b', true) ∧
    ¬ Restored oneGroup id v b' := by
  obtain ⟨b₀, b, v, b', hstartup, hrun, hv, hrollback, hstale⟩ := @exists_rollback
    (fun _ v b' => decide (b'.versions.head?.map (·.sha256) ≠ some v.sha256)) 2 stranded
    (by decide +kernel)
  exact ⟨b₀, b, v, b', hstartup, Reach.of_run hrun, hv, hrollback,
    fun h => of_decide_eq_true hstale h.newest⟩

end Llmops.Config
