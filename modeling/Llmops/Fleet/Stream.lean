import Llmops.Fleet.Views
import Llmops.Lib.EventStream

/-!
# The stream of snapshots

`model_snapshot_stream` (`api/observability.py:127-153`), which polls the fleet and sends what it
sees, and the client that reads it with an `EventSource` (`stores/models.ts:97-125`). A poll brings
views with different keys, in the order in which the store returned them. The readings are exact
rationals.

* `signature_eq_iff`: two polls have one signature exactly if they brought the same views;
* `stream_follows`: the client reads every change once, and nothing else.
-/

namespace Llmops.Fleet

open Lib EventStream

/-! ## The server -/

/-- The views of `fleet_views` at one poll. -/
structure Poll where
  views : List ModelView
  nodup : (views.map (·.key)).Nodup

/-- `sorted(..., key=lambda m: m["key"])`. -/
def Poll.sorted (p : Poll) : List ModelView := p.views.mergeSort fun v v' => v.key ≤ v'.key

/-- `payload`. What `model_dump(mode="json")` makes of a view is its dictionary. -/
def Poll.payload (p : Poll) : Json := .arr (p.sorted.map fun v => .obj v.dict)

/-- `sig`. -/
def Poll.signature (p : Poll) : String := dumps true (sortKeys p.payload)

/-- `last_sig` and `since_emit`. -/
structure StreamState where
  lastSig : Option String := none
  sinceEmit : ℚ := 0

/-- One round of the loop, and what it yields. -/
def streamStep (interval heartbeatEvery : ℚ) (s : StreamState) (p : Poll) :
    StreamState × Option String :=
  if some p.signature ≠ s.lastSig then
    (⟨some p.signature, 0⟩, some ("data: " ++ p.signature ++ "\n\n"))
  else
    let since := s.sinceEmit + interval
    if since ≥ heartbeatEvery then (⟨s.lastSig, 0⟩, some ": heartbeat\n\n")
    else (⟨s.lastSig, since⟩, none)

/-- What the rounds yield. -/
def streamFrom (interval heartbeatEvery : ℚ) (s : StreamState) : List Poll → List (Option String)
  | [] => []
  | p :: polls =>
    (streamStep interval heartbeatEvery s p).2 ::
      streamFrom interval heartbeatEvery (streamStep interval heartbeatEvery s p).1 polls

/-- `model_snapshot_stream`. -/
def modelSnapshotStream (interval heartbeatEvery : ℚ) (polls : List Poll) : List (Option String) :=
  streamFrom interval heartbeatEvery {} polls

/-- The text that was sent. -/
def sentText (yields : List (Option String)) : List Char :=
  yields.flatMap fun text => (text.getD "").toList

/-! ## The client -/

/-- `onmessage`: the snapshot that is applied; `none` where `JSON.parse` raises or where there is no
array of views. -/
def onMessage (readFloat : FloatText) (e : Event) : Option (List ModelView) := do
  let views ← (← loads readFloat (.ofList e.data)).asArr
  views.mapM fun v => v.asObj.bind ModelView.ofDict

/-- The snapshots that are applied of a text. -/
def snapshots (readFloat : FloatText) (text : List Char) : List (List ModelView) :=
  ((received text).filter (·.type = message)).filterMap (onMessage readFloat)

/-! ## A signature says what was seen -/

section Signatures

variable {readFloat : FloatText} {p p' : Poll}

/-- A different order of the entries of a dictionary. -/
theorem get_perm {V : Type} {d d' : Dict V} (hd : d.Unique) (h : d.Perm d') (k : String) :
    d.get k = d'.get k := by
  have hd' : d'.Unique := (h.map Prod.fst).nodup_iff.mp hd
  refine Option.ext fun v => ?_
  constructor
  · exact fun hv => Dict.get_of_mem hd' (h.mem_iff.mp (Dict.mem_of_get hv))
  · exact fun hv => Dict.get_of_mem hd (h.mem_iff.mpr (Dict.mem_of_get hv))

theorem perm_sortFields (d : Dict Json) : (sortFields d).Perm d := List.perm_insertionSort _ d

theorem readableFields_iff {d : List (String × Json)} :
    ReadableFields readFloat d ↔ ∀ entry ∈ d, Readable readFloat entry.2 := by
  induction d with
  | nil => exact iff_of_true trivial fun entry h => (List.not_mem_nil h).elim
  | cons entry d ih => rw [ReadableFields, ih, List.forall_mem_cons]

theorem readable_sortFields {d : Dict Json} (h : Readable readFloat (.obj d)) :
    Readable readFloat (.obj (sortFields d)) := by
  rw [Readable, readableFields_iff] at h ⊢
  exact ⟨((perm_sortFields d).map Prod.fst).nodup_iff.mpr h.1, fun entry hentry =>
    h.2 entry ((perm_sortFields d).mem_iff.mp hentry)⟩

theorem unique_dict (v : ModelView) : v.dict.Unique :=
  Dict.Unique.set (by simp [Dict.Unique, Dict.keys, Observed.observedDict])

theorem readable_dict {v : ModelView} (h : v.FloatsRead readFloat) :
    Readable readFloat (.obj v.dict) := by
  have hobserved := (readableFields_iff.mp (readable_observedDict h).2)
  refine ⟨unique_dict v, readableFields_iff.mpr fun entry hentry => ?_⟩
  obtain hentry | hentry := List.mem_append.mp
    (show entry ∈ v.observedDict ++ [("node_id", Json.ofOption .str v.nodeId)] from hentry)
  · exact hobserved entry hentry
  · rw [List.mem_singleton.mp hentry]
    exact readable_ofOption fun a _ => trivial

/-- The values of a view have no keys of their own. -/
theorem sortKeys_dict (v : ModelView) : sortKeys (.obj v.dict) = .obj (sortFields v.dict) := by
  have hstr (x : Option String) : sortKeys (.ofOption .str x) = .ofOption .str x := by
    cases x <;> simp only [Json.ofOption, sortKeys]
  have hint (x : Option Int) : sortKeys (.ofOption .int x) = .ofOption .int x := by
    cases x <;> simp only [Json.ofOption, sortKeys]
  have hfloat (x : Option PyFloat) : sortKeys (.ofOption .float x) = .ofOption .float x := by
    cases x <;> simp only [Json.ofOption, sortKeys]
  have hfields : sortKeysFields v.dict = v.dict := by
    change sortKeysFields (v.observedDict ++ [("node_id", Json.ofOption .str v.nodeId)]) =
      v.observedDict ++ [("node_id", Json.ofOption .str v.nodeId)]
    simp only [Observed.observedDict, List.cons_append, List.nil_append, sortKeysFields, sortKeys,
      hstr, hint, hfloat]
  rw [sortKeys, hfields]

/-- **A view is read back** from its dictionary in the order of the keys. -/
theorem ofDict_sortFields (v : ModelView) : ModelView.ofDict (sortFields v.dict) = some v := by
  have hget (k : String) : Dict.get (sortFields v.dict) k = Dict.get v.dict k :=
    (get_perm (unique_dict v) (perm_sortFields v.dict).symm k).symm
  rw [← ofDict_dict v]
  unfold ModelView.ofDict optional defaulted
  simp only [hget]

/-- The floats of the views are read as themselves. -/
def Poll.FloatsRead (readFloat : FloatText) (p : Poll) : Prop :=
  ∀ v ∈ p.views, v.FloatsRead readFloat

theorem sortKeys_payload (p : Poll) :
    sortKeys p.payload = .arr (p.sorted.map fun v => .obj (sortFields v.dict)) := by
  unfold Poll.payload
  rw [sortKeys]
  congr 1
  induction p.sorted with
  | nil => rfl
  | cons v views ih => rw [List.map_cons, sortKeysList, ih, sortKeys_dict, List.map_cons]

theorem readable_payload (h : p.FloatsRead readFloat) : Readable readFloat (sortKeys p.payload) := by
  rw [sortKeys_payload, Readable]
  refine readableList_of_forall fun x hx => ?_
  obtain ⟨v, hv, rfl⟩ := List.mem_map.mp hx
  exact readable_sortFields (readable_dict (h v (List.mem_mergeSort.mp hv)))

/-- **The client reads** a signature as the views in the order of their keys. -/
theorem onMessage_signature (h : p.FloatsRead readFloat) :
    onMessage readFloat ⟨message, p.signature.toList⟩ = some p.sorted := by
  unfold onMessage Poll.signature
  rw [String.ofList_toList, loads_dumps (readable_payload h), sortKeys_payload]
  change (p.sorted.map fun v => Json.obj (sortFields v.dict)).mapM _ = _
  rw [mapM_eq_some_iff, List.forall₂_map_left_iff]
  refine List.forall₂_same.mpr fun v _ => ?_
  rw [Json.asObj, Option.bind_some, ofDict_sortFields]

theorem sorted_eq_iff : p.sorted = p'.sorted ↔ p.views.Perm p'.views := by
  have hperm (p : Poll) : p.sorted.Perm p.views := List.mergeSort_perm _ _
  have hle (p : Poll) : p.sorted.Pairwise fun v v' => v.key ≤ v'.key := by
    refine (List.pairwise_mergeSort (fun a b c hab hbc => ?_) (fun a b => ?_) p.views).imp fun h =>
      of_decide_eq_true h
    · exact decide_eq_true (le_trans (of_decide_eq_true hab) (of_decide_eq_true hbc))
    · simpa using le_total a.key b.key
  constructor
  · intro h
    exact (hperm p).symm.trans (h ▸ hperm p')
  · intro h
    refine List.Perm.eq_of_pairwise (fun v v' hv hv' hle hge => ?_) (hle p) (hle p')
      ((hperm p).trans (h.trans (hperm p').symm))
    have hmem : v' ∈ p.views := h.symm.mem_iff.mp ((hperm p').mem_iff.mp hv')
    exact List.inj_on_of_nodup_map p.nodup ((hperm p).mem_iff.mp hv) hmem (le_antisymm hle hge)

/-- **Two polls have one signature** exactly if they brought the same views. -/
theorem signature_eq_iff (h : p.FloatsRead readFloat) (h' : p'.FloatsRead readFloat) :
    p.signature = p'.signature ↔ p.views.Perm p'.views := by
  rw [← sorted_eq_iff]
  constructor
  · intro hsig
    have hread := onMessage_signature h
    rw [hsig, onMessage_signature h'] at hread
    exact (Option.some.inj hread).symm
  · intro hsorted
    unfold Poll.signature Poll.payload
    rw [hsorted]

end Signatures

/-! ## The rounds -/

section Rounds

variable {readFloat : FloatText} {interval heartbeatEvery : ℚ} {s : StreamState} {p prev : Poll}
  {polls : List Poll} {t : List Char}

/-- The fleet has changed from one poll to the next. -/
def Changed (p p' : Poll) : Prop := ¬ p.views.Perm p'.views

instance : DecidableRel Changed := fun p p' => inferInstanceAs (Decidable (¬ p.views.Perm p'.views))

/-- One round: a snapshot is sent, or a heartbeat, or nothing. -/
theorem streamStep_cases (interval heartbeatEvery : ℚ) (s : StreamState) (p : Poll) :
    (some p.signature ≠ s.lastSig ∧ streamStep interval heartbeatEvery s p =
      (⟨some p.signature, 0⟩, some ("data: " ++ p.signature ++ "\n\n"))) ∨
    (some p.signature = s.lastSig ∧ heartbeatEvery ≤ s.sinceEmit + interval ∧
      streamStep interval heartbeatEvery s p = (⟨s.lastSig, 0⟩, some ": heartbeat\n\n")) ∨
    (some p.signature = s.lastSig ∧ s.sinceEmit + interval < heartbeatEvery ∧
      streamStep interval heartbeatEvery s p = (⟨s.lastSig, s.sinceEmit + interval⟩, none)) := by
  unfold streamStep
  by_cases hsig : some p.signature ≠ s.lastSig
  · exact .inl ⟨hsig, if_pos hsig⟩
  · rw [if_neg hsig]
    obtain hbeat | hquiet := le_or_gt heartbeatEvery (s.sinceEmit + interval)
    · exact .inr (.inl ⟨not_not.mp hsig, hbeat, if_pos hbeat⟩)
    · exact .inr (.inr ⟨not_not.mp hsig, hquiet, if_neg (not_le.mpr hquiet)⟩)

/-- A snapshot that was sent is applied. -/
theorem snapshots_data (h : p.FloatsRead readFloat) :
    snapshots readFloat (("data: " ++ p.signature ++ "\n\n").toList ++ t) =
      p.sorted :: snapshots readFloat t := by
  have htext : ("data: " ++ p.signature ++ "\n\n").toList = (Frame.data p.signature.toList).render := by
    rw [String.toList_append, String.toList_append]
    rfl
  have hline : (Frame.data p.signature.toList).OneLine := by
    intro c hc
    have hlow : 32 ≤ c.toNat := noControl_dumps _ (readable_payload h) c hc
    constructor
    · rintro rfl
      exact absurd hlow (by decide)
    · rintro rfl
      exact absurd hlow (by decide)
  have hread := onMessage_signature h
  unfold snapshots
  rw [htext, received_frame hline, Frame.sent, Option.map_some, Option.toList_some,
    List.singleton_append]
  simp only [List.filter_cons, decide_true, if_true]
  exact List.filterMap_cons_some hread

/-- A heartbeat is not. -/
theorem snapshots_heartbeat : snapshots readFloat (": heartbeat\n\n".toList ++ t) =
    snapshots readFloat t := by
  have hline : (Frame.comment "heartbeat".toList).OneLine := by
    unfold Frame.OneLine
    simp
  have htext : ": heartbeat\n\n".toList = (Frame.comment "heartbeat".toList).render := rfl
  unfold snapshots
  rw [htext, received_frame hline]
  rfl

theorem sentText_cons (text : Option String) (yields : List (Option String)) :
    sentText (text :: yields) = (text.getD "").toList ++ sentText yields := List.flatMap_cons

/-- What is applied from a round on: by induction on the rounds, the last signature is that of the
last poll, and of the last one that was sent. -/
theorem snapshots_streamFrom (hlast : s.lastSig = some prev.signature)
    (hprev : prev.FloatsRead readFloat) (hread : ∀ p ∈ polls, p.FloatsRead readFloat) :
    prev.sorted :: snapshots readFloat (sentText (streamFrom interval heartbeatEvery s polls)) =
      (polls.destutter' Changed prev).map Poll.sorted := by
  induction polls generalizing s prev with
  | nil => rfl
  | cons p polls ih =>
    obtain ⟨hp, hpolls⟩ := List.forall_mem_cons.mp hread
    have hsame : some p.signature = s.lastSig ↔ ¬ Changed prev p := by
      rw [hlast, Option.some_inj, eq_comm, signature_eq_iff hprev hp]
      exact not_not.symm
    rw [streamFrom, sentText_cons]
    obtain ⟨hsig, hstep⟩ | ⟨hsig, -, hstep⟩ | ⟨hsig, -, hstep⟩ :=
      streamStep_cases interval heartbeatEvery s p
    · have hchanged : Changed prev p := not_not.mp fun h => hsig (hsame.mpr h)
      rw [hstep, List.destutter'_cons_pos _ hchanged, List.map_cons,
        ← ih (s := ⟨some p.signature, 0⟩) rfl hp hpolls]
      exact congrArg _ (snapshots_data hp)
    · rw [hstep, List.destutter'_cons_neg _ (hsame.mp hsig),
        ← ih (s := ⟨s.lastSig, 0⟩) hlast hprev hpolls]
      exact congrArg _ snapshots_heartbeat
    · rw [hstep, List.destutter'_cons_neg _ (hsame.mp hsig),
        ← ih (s := ⟨s.lastSig, s.sinceEmit + interval⟩) hlast hprev hpolls]
      rfl

/-- **What is applied of a stream**: every change once. -/
theorem snapshots_stream (hread : ∀ p ∈ polls, p.FloatsRead readFloat) :
    snapshots readFloat (sentText (modelSnapshotStream interval heartbeatEvery polls)) =
      (polls.destutter Changed).map Poll.sorted := by
  cases polls with
  | nil => rfl
  | cons p polls =>
    obtain ⟨hp, hpolls⟩ := List.forall_mem_cons.mp hread
    have hstep : streamStep interval heartbeatEvery {} p =
        (⟨some p.signature, 0⟩, some ("data: " ++ p.signature ++ "\n\n")) :=
      if_pos (Option.some_ne_none _)
    rw [List.destutter_cons', ← snapshots_streamFrom (s := ⟨some p.signature, 0⟩) rfl hp hpolls]
    unfold modelSnapshotStream
    rw [streamFrom, sentText_cons, hstep]
    exact snapshots_data hp

/-- The last of the polls that were kept brought the same views as the last poll. -/
theorem getLast_destutter' (prev : Poll) (polls : List Poll) :
    ((polls.destutter' Changed prev).getLast (List.destutter'_ne_nil polls Changed)).sorted =
      ((prev :: polls).getLast (List.cons_ne_nil _ _)).sorted := by
  induction polls generalizing prev with
  | nil => rfl
  | cons p polls ih =>
    rw [List.getLast_cons (List.cons_ne_nil p polls)]
    by_cases hchanged : Changed prev p
    · simp only [List.destutter'_cons_pos _ hchanged]
      rw [List.getLast_cons (List.destutter'_ne_nil polls Changed)]
      exact ih p
    · simp only [List.destutter'_cons_neg _ hchanged]
      rw [ih prev]
      cases polls with
      | nil => exact sorted_eq_iff.mpr (not_not.mp hchanged)
      | cons q polls => rfl

/-- **The client is up to date**: the last snapshot that it applied is that of the last poll. -/
theorem getLast_snapshots (hread : ∀ p ∈ polls, p.FloatsRead readFloat) :
    (snapshots readFloat
      (sentText (modelSnapshotStream interval heartbeatEvery polls))).getLast? =
        polls.getLast?.map Poll.sorted := by
  rw [snapshots_stream hread]
  cases polls with
  | nil => rfl
  | cons p polls =>
    rw [List.destutter_cons', List.getLast?_map,
      List.getLast?_eq_some_getLast (List.destutter'_ne_nil polls Changed),
      List.getLast?_eq_some_getLast (List.cons_ne_nil p polls), Option.map_some, Option.map_some,
      getLast_destutter']

/-- A round leaves less than `heartbeat_every` since the last text. -/
theorem sinceEmit_streamStep (hinterval : 0 ≤ interval) (hbeat : 0 < heartbeatEvery)
    (hs : 0 ≤ s.sinceEmit) (p : Poll) :
    0 ≤ (streamStep interval heartbeatEvery s p).1.sinceEmit ∧
      (streamStep interval heartbeatEvery s p).1.sinceEmit < heartbeatEvery := by
  obtain ⟨-, hstep⟩ | ⟨-, -, hstep⟩ | ⟨-, hquiet, hstep⟩ :=
    streamStep_cases interval heartbeatEvery s p
  · rw [hstep]
    exact ⟨le_refl 0, hbeat⟩
  · rw [hstep]
    exact ⟨le_refl 0, hbeat⟩
  · rw [hstep]
    exact ⟨add_nonneg hs hinterval, hquiet⟩

/-- Rounds that yield nothing, from a round on. -/
theorem length_quiet {quiet after : List (Option String)} (hs : s.sinceEmit < heartbeatEvery)
    (hquiet : ∀ text ∈ quiet, text = none)
    (hrun : streamFrom interval heartbeatEvery s polls = quiet ++ after) :
    s.sinceEmit + quiet.length * interval < heartbeatEvery := by
  induction quiet generalizing s polls with
  | nil =>
    rw [List.length_nil, Nat.cast_zero, zero_mul, add_zero]
    exact hs
  | cons text quiet ih =>
    obtain ⟨rfl, hothers⟩ := List.forall_mem_cons.mp hquiet
    cases polls with
    | nil => cases hrun
    | cons p polls =>
      obtain ⟨hyield, hrest⟩ := List.cons.inj hrun
      obtain ⟨-, hstep⟩ | ⟨-, -, hstep⟩ | ⟨-, hlow, hstep⟩ :=
        streamStep_cases interval heartbeatEvery s p
      · rw [hstep] at hyield
        cases hyield
      · rw [hstep] at hyield
        cases hyield
      · rw [hstep] at hrest
        have hlength := ih (s := ⟨s.lastSig, s.sinceEmit + interval⟩) hlow hothers hrest
        rw [List.length_cons, Nat.cast_succ]
        calc s.sinceEmit + ((quiet.length : ℚ) + 1) * interval
            = s.sinceEmit + interval + quiet.length * interval := by ring
          _ < heartbeatEvery := hlength

/-- **The client is not left alone**: rounds one after the other that yield nothing take less than
`heartbeat_every`. -/
theorem quiet_lt {before quiet after : List (Option String)} (hinterval : 0 ≤ interval)
    (hbeat : 0 < heartbeatEvery) (hs : 0 ≤ s.sinceEmit ∧ s.sinceEmit < heartbeatEvery)
    (hquiet : ∀ text ∈ quiet, text = none)
    (hrun : streamFrom interval heartbeatEvery s polls = before ++ quiet ++ after) :
    quiet.length * interval < heartbeatEvery := by
  induction before generalizing s polls with
  | nil => exact (le_add_of_nonneg_left hs.1).trans_lt (length_quiet hs.2 hquiet hrun)
  | cons text before ih =>
    cases polls with
    | nil => cases hrun
    | cons p polls =>
      exact ih (sinceEmit_streamStep hinterval hbeat hs.1 p) (List.cons.inj hrun).2

/-- **The stream follows the fleet**: of the text of any number of polls, the client applies the
snapshots of the polls at which the fleet had changed, each once and in the order of the keys, and so
the last one that it applied is the fleet as it was polled last. Rounds one after the other that
send nothing take less than `heartbeat_every`. -/
theorem stream_follows (hread : ∀ p ∈ polls, p.FloatsRead readFloat) (hinterval : 0 ≤ interval)
    (hbeat : 0 < heartbeatEvery) :
    let yields := modelSnapshotStream interval heartbeatEvery polls
    snapshots readFloat (sentText yields) = (polls.destutter Changed).map Poll.sorted ∧
      (snapshots readFloat (sentText yields)).getLast? = polls.getLast?.map Poll.sorted ∧
      ∀ before quiet after, yields = before ++ quiet ++ after → (∀ text ∈ quiet, text = none) →
        quiet.length * interval < heartbeatEvery :=
  ⟨snapshots_stream hread, getLast_snapshots hread, fun _ _ _ hrun hquiet =>
    quiet_lt hinterval hbeat ⟨le_refl 0, hbeat⟩ hquiet hrun⟩

end Rounds

/-- A poll of one instance. -/
def onePoll (state : ModelState) : Poll :=
  ⟨[⟨updatedOnce "M::a" state, some "n1"⟩], List.nodup_singleton _⟩

/-- It is ready, still ready, and stops. -/
def threePolls : List Poll := [onePoll .ready, onePoll .ready, onePoll .stopped]

theorem stream_follows_threePolls :
    let yields := modelSnapshotStream 1 15 threePolls
    snapshots readOnce (sentText yields) = (threePolls.destutter Changed).map Poll.sorted ∧
      (snapshots readOnce (sentText yields)).getLast? = threePolls.getLast?.map Poll.sorted ∧
      ∀ before quiet after, yields = before ++ quiet ++ after → (∀ text ∈ quiet, text = none) →
        (quiet.length : ℚ) * 1 < 15 :=
  stream_follows
    (fun p hp v hv => by
      have hone : ∃ state, p = onePoll state := by
        simp only [threePolls, List.mem_cons, List.not_mem_nil, or_false] at hp
        obtain rfl | rfl | rfl := hp <;> exact ⟨_, rfl⟩
      obtain ⟨state, rfl⟩ := hone
      obtain rfl := List.mem_singleton.mp hv
      exact floatsRead_updatedOnce _ _)
    (by norm_num) (by norm_num)

end Llmops.Fleet
