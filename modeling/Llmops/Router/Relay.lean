import Llmops.Router.Failover
import Llmops.Router.Sse

/-!
# The relay of an event stream

The generator `event_stream` of `_proxy_to_backend` (`router.py:506-530`) for an upstream that
delivers its chunks without a transport error. The scan for the usage is inside the `try` of the
relay; the `finally` records the request, and adds up an Anthropic usage for it.

* `relay_run`: the generator as a run of the stages of a request;
* `transparent_iff`: it relays the stream and finishes normally exactly if no data line with the
  bytes `"usage"` has a `message` that is neither falsy nor a dictionary, and, where the request is
  recorded, the token counts can be added;
* `relay_cut_short`: the stream that ends at such a message, with a mark on the backend.
-/

namespace Llmops.Router

open Lib

/-! ## Adding token counts -/

/-- What Python's floats do, on those that are numbers; one that is infinite would be treated as any
other. -/
structure FloatOps where
  ofInt : Int → PyFloat
  add : PyFloat → PyFloat → PyFloat

/-- `float(n)` raises from here on: what rounds to `2 ^ 1024`. -/
def floatLimit : Nat := 2 ^ 1024 - 2 ^ 970

/-- A number: `True` is `1`. -/
def asNumber : Json → Option (Int ⊕ PyFloat)
  | .bool b => some (.inl (if b then 1 else 0))
  | .int n => some (.inl n)
  | .float x => some (.inr x)
  | _ => none

/-- `pt or 0`. -/
def orZero (v : Option Json) : Json := (v.filter Json.truthy).getD (.int 0)

/-- `_normalize_usage` finds OpenAI's own keys. -/
def openaiUsageKeys : List String := ["prompt_tokens", "completion_tokens", "total_tokens"]

/-- What `_record_request` reads of a usage. -/
structure TokenCounts where
  promptTokens : Option Json
  completionTokens : Option Json
  totalTokens : Option Json

section Add

variable (F : FloatOps)

/-- `float(n)`, `none` for the `OverflowError`. -/
def floatOf (n : Int) : Option PyFloat := if n.natAbs < floatLimit then some (F.ofInt n) else none

/-- `v + w`, `none` where it raises. -/
def plus : Json → Json → Option Json
  | .str s, .str t => some (.str (s ++ t))
  | .arr xs, .arr ys => some (.arr (xs ++ ys))
  | v, w =>
    match asNumber v, asNumber w with
    | some (.inl m), some (.inl n) => some (.int (m + n))
    | some (.inl m), some (.inr y) => (floatOf F m).map fun x => .float (F.add x y)
    | some (.inr x), some (.inl n) => (floatOf F n).map fun y => .float (F.add x y)
    | some (.inr x), some (.inr y) => some (.float (F.add x y))
    | _, _ => none

/-- `_normalize_usage`, `none` where it raises. -/
def normalizeUsage : Option (Dict Json) → Option (Option (Dict Json))
  | none => some none
  | some usage =>
    if openaiUsageKeys.any usage.has then some (some usage)
    else if usage.has "input_tokens" || usage.has "output_tokens" then
      let pt := usage.get "input_tokens"
      let ct := usage.get "output_tokens"
      let tt := if pt.any notNone || ct.any notNone then plus F (orZero pt) (orZero ct)
        else some .null
      tt.map fun tt => some
        [("prompt_tokens", pt.getD .null), ("completion_tokens", ct.getD .null), ("total_tokens", tt)]
    else some none

/-- `_record_request` up to its call of the store: the token counts of the row, if there is a store
and a model key. `none` where it raises. -/
def recordTokens (store : Bool) (modelKey : String) (usage : Option (Dict Json)) :
    Option (Option TokenCounts) :=
  if store = false ∨ modelKey = "" then some none
  else (normalizeUsage F usage).map fun usage =>
    let usage := usage.getD []
    some ⟨usage.get "prompt_tokens", usage.get "completion_tokens", usage.get "total_tokens"⟩

end Add

/-! ## The generator -/

/-- What the generator did: the chunks it yielded, its health marks, and whether it ended normally. -/
structure Relayed where
  yields : List Bytes
  marks : List Mark
  finished : Bool

section Generator

variable (J : JsonLoads) (F : FloatOps)

/-- The `async for`: each chunk is yielded, then scanned. -/
def relayChunks : List Bytes → Option (Dict Json) × Option Bytes →
    List Bytes × (Option (Dict Json) × Option Bytes)
  | [], s => ([], s)
  | chunk :: chunks, s =>
    match feedSse J s chunk with
    | (captured, none) => ([chunk], (captured, none))
    | s' =>
      let r := relayChunks chunks s'
      (chunk :: r.1, r.2)

/-- `event_stream`. -/
def eventStream (store : Bool) (b : Backend) (chunks : List Bytes) : Relayed :=
  let r := relayChunks J chunks (none, some [])
  { yields := r.1
    marks := if r.2.2.isNone then [⟨b, false⟩] else []
    finished := r.2.2.isSome && (recordTokens F store b.modelKey r.2.1).isSome }

/-- The events of the generator at the stages of a request, up to its `_record_request`. -/
def Relayed.events (r : Relayed) : List Event :=
  .pull :: r.yields.flatMap (fun _ => [.chunk, .pull]) ++
    [if r.marks = [] then .ends else .raises, .closes]

/-- The relay is **transparent**. -/
structure Relayed.Transparent (r : Relayed) (chunks : List Bytes) : Prop where
  yields : r.yields = chunks
  marks : r.marks = []
  finished : r.finished = true

/-- The usage objects that are merged. -/
def streamUsages (stream : Bytes) : List (Dict Json) :=
  ((eventLines stream).filter hasUsage).flatMap (lineUsages J)

/-- The token counts of a stream **can be added**: a usage has one of OpenAI's keys, so that they are
not, or the last counts of input and output have a sum. -/
def Addable (stream : Bytes) : Prop :=
  (∃ key ∈ openaiUsageKeys, (lastValue (streamUsages J stream) key).isSome) ∨
    (plus F (orZero (lastValue (streamUsages J stream) "input_tokens"))
      (orZero (lastValue (streamUsages J stream) "output_tokens"))).isSome

end Generator

section Transparent

variable {J : JsonLoads} {F : FloatOps} {store : Bool} {b : Backend} {chunks : List Bytes}
  {s : Option (Dict Json) × Option Bytes} {captured : Option (Dict Json)} {us : List (Dict Json)}
  {key : String}

theorem foldl_raised : chunks.foldl (feedSse J) (captured, none) = (captured, none) := by
  induction chunks with
  | nil => rfl
  | cons chunk chunks ih => rw [List.foldl_cons, feedSse, ih]

/-- What the loop has captured, and the buffer. -/
theorem relayChunks_state : (relayChunks J chunks s).2 = chunks.foldl (feedSse J) s := by
  induction chunks generalizing s with
  | nil => rfl
  | cons chunk chunks ih =>
    rw [relayChunks, List.foldl_cons]
    split
    · next captured hfeed => rw [hfeed, foldl_raised]
    · exact ih

theorem relayChunks_yields (h : (relayChunks J chunks s).2.2 ≠ none) :
    (relayChunks J chunks s).1 = chunks := by
  induction chunks generalizing s with
  | nil => rfl
  | cons chunk chunks ih =>
    rw [relayChunks] at h ⊢
    split at h
    · exact absurd rfl h
    · exact congrArg (chunk :: ·) (ih h)

theorem relay_feed : (relayChunks J chunks (none, some [])).2 = feedAll J chunks :=
  relayChunks_state

/-- A sum of two zeros. -/
theorem plus_zero : (plus F (.int 0) (.int 0)).isSome := rfl

theorem orZero_of_null {v : Option Json} (h : v.any notNone = false) : orZero v = .int 0 := by
  cases v with
  | none => rfl
  | some v =>
    cases v with
    | null => rfl
    | _ => cases h

theorem normalizeUsage_isSome {usage : Dict Json} : (normalizeUsage F (some usage)).isSome ↔
    (∃ key ∈ openaiUsageKeys, (usage.get key).isSome) ∨
      (plus F (orZero (usage.get "input_tokens")) (orZero (usage.get "output_tokens"))).isSome := by
  rw [normalizeUsage]
  split_ifs with hopenai hanthropic
  · simpa using .inl (List.any_eq_true.mp hopenai)
  · have hkeys : ¬ ∃ key ∈ openaiUsageKeys, (usage.get key).isSome :=
      fun hkey => hopenai (List.any_eq_true.mpr hkey)
    rw [or_iff_right hkeys, Option.isSome_map]
    split_ifs with hnull
    · rfl
    · -- two nulls add up to zero
      obtain ⟨hpt, hct⟩ := Bool.or_eq_false_iff.mp (Bool.eq_false_iff.mpr hnull)
      rw [orZero_of_null hpt, orZero_of_null hct]
      rfl
  · obtain ⟨hpt, hct⟩ := Bool.or_eq_false_iff.mp (Bool.eq_false_iff.mpr hanthropic)
    have hpt : usage.get "input_tokens" = none := by simpa [Dict.has] using hpt
    have hct : usage.get "output_tokens" = none := by simpa [Dict.has] using hct
    rw [hpt, hct]
    exact iff_of_true rfl (.inr plus_zero)

theorem normalizeUsage_addable (h : LastWins captured us) : (normalizeUsage F captured).isSome ↔
    (∃ key ∈ openaiUsageKeys, (lastValue us key).isSome) ∨
      (plus F (orZero (lastValue us "input_tokens"))
        (orZero (lastValue us "output_tokens"))).isSome := by
  obtain ⟨hnone, hkeys⟩ := h
  cases captured with
  | none =>
    rw [hnone.mp rfl]
    exact iff_of_true rfl (.inr plus_zero)
  | some usage =>
    rw [normalizeUsage_isSome]
    simp only [← hkeys, Option.getD_some]

theorem streamUsages_unique {stream : Bytes} : ∀ u ∈ streamUsages J stream, u.Unique := by
  intro u hu
  obtain ⟨line, -, hu⟩ := List.mem_flatMap.mp hu
  exact lineUsages_unique hu

theorem recordTokens_isSome (h : Quiet J chunks.flatten) {modelKey : String} :
    (recordTokens F store modelKey (feedAll J chunks).1).isSome ↔
      store = false ∨ modelKey = "" ∨ Addable J F chunks.flatten := by
  unfold recordTokens Addable
  rw [← or_assoc]
  split_ifs with hskip
  · exact iff_of_true rfl (.inl hskip)
  · rw [or_iff_right hskip, Option.isSome_map, feed_quiet h]
    exact normalizeUsage_addable (lastWins_foldl streamUsages_unique)

/-- **When the relay is transparent.** -/
theorem transparent_iff (J : JsonLoads) (F : FloatOps) (store : Bool) (b : Backend)
    (chunks : List Bytes) : (eventStream J F store b chunks).Transparent chunks ↔
      Quiet J chunks.flatten ∧ (store = false ∨ b.modelKey = "" ∨ Addable J F chunks.flatten) := by
  have hfinished : (eventStream J F store b chunks).finished =
      ((feedAll J chunks).2.isSome && (recordTokens F store b.modelKey (feedAll J chunks).1).isSome)
      := by
    rw [← relay_feed]
    rfl
  constructor
  · intro h
    obtain ⟨hbuffer, hrecord⟩ := Bool.and_eq_true_iff.mp (hfinished.symm.trans h.finished)
    have hquiet : Quiet J chunks.flatten := by
      by_contra hraises
      rw [feed_raised hraises] at hbuffer
      cases hbuffer
    exact ⟨hquiet, (recordTokens_isSome hquiet).mp hrecord⟩
  · rintro ⟨hquiet, hrecord⟩
    have hbuffer : (feedAll J chunks).2 ≠ none := by
      rw [feed_quiet hquiet]
      exact Option.some_ne_none _
    have hloop : (relayChunks J chunks (none, some [])).2.2 ≠ none := by rwa [relay_feed]
    refine ⟨relayChunks_yields hloop, ?_, ?_⟩
    · exact if_neg (by simpa using hloop)
    · rw [hfinished, (recordTokens_isSome hquiet).mpr hrecord, Bool.and_true]
      exact Option.isSome_iff_ne_none.mpr hbuffer

/-! ### As a run of the request -/

variable {path : String} {p : Proxied} {f : Frame}

/-- The loop of the generator: from its `pull` on, a chunk is yielded and the next one pulled. -/
theorem chunks_run (hf : f.readable = true) (hp : p.request.stage = .pulling f) :
    Lib.run (Proxied.step path) p (chunks.flatMap fun _ => [.chunk, .pull]) = some p := by
  induction chunks with
  | nil => rfl
  | cons chunk chunks ih =>
    obtain ⟨⟨stage, changes⟩, body, sent, answers, marks, rows⟩ := p
    subst hp
    simp [Lib.run, Proxied.step, Request.step, Stage.step, hf, Stage.writeBody, Stage.send,
      Stage.answer, Stage.mark, Stage.record] at ih ⊢
    exact ih

/-- **The generator as a run of the stages of its request**: it counts the backend out, and what it
marks are the marks of the relay. -/
theorem relay_run (hp : p.request.stage = .handed f) (hf : f.readable = true)
    (hctx : f.streamCtx.isSome) : ∃ p' f',
      Lib.run (Proxied.step path) p (eventStream J F store f.backend chunks).events = some p' ∧
      p'.request.stage = .genRecording f' ∧
      p'.request.changes = p.request.changes ++ [.give f.backend] ∧
      p'.marks = p.marks ++ (eventStream J F store f.backend chunks).marks := by
  obtain ⟨⟨stage, changes⟩, body, sent, answers, marks, rows⟩ := p
  subst hp
  set pulling : Proxied := ⟨⟨.pulling f, changes⟩, body, sent, answers, marks, rows⟩ with hpulling
  have hpull : (Proxied.step path) ⟨⟨.handed f, changes⟩, body, sent, answers, marks, rows⟩ .pull =
      some pulling := by
    simp [hpulling, Proxied.step, Request.step, Stage.step, Stage.writeBody, Stage.send,
      Stage.answer, Stage.mark, Stage.record]
  have hloop := @chunks_run (eventStream J F store f.backend chunks).yields path pulling f hf rfl
  rw [Relayed.events, List.cons_append, Lib.run, hpull, Option.bind_some, Lib.run_append, hloop,
    Option.bind_some]
  by_cases hmarks : (eventStream J F store f.backend chunks).marks = []
  · refine ⟨⟨⟨.genRecording f, changes ++ [.give f.backend]⟩, body, sent, answers, marks, rows⟩, f,
      ?_, rfl, rfl, ?_⟩
    · rw [if_pos hmarks]
      simp [hpulling, Lib.run, Proxied.step, Request.step, Stage.step, hf, hctx, Frame.genLeave,
        Stage.writeBody, Stage.send, Stage.answer, Stage.mark, Stage.record]
    · rw [hmarks, List.append_nil]
  · have hfailed : (eventStream J F store f.backend chunks).marks = [⟨f.backend, false⟩] := by
      unfold eventStream at hmarks ⊢
      dsimp only at hmarks ⊢
      split_ifs at hmarks ⊢
      · rfl
      · exact absurd rfl hmarks
    refine ⟨⟨⟨.genRecording f.markFailure, changes ++ [.give f.backend]⟩, body, sent, answers,
      marks ++ [⟨f.backend, false⟩], rows⟩, f.markFailure, ?_, rfl, rfl, ?_⟩
    · rw [if_neg hmarks]
      simp [hpulling, Lib.run, Proxied.step, Request.step, Stage.step, hctx, Frame.genLeave,
        Frame.markFailure, Frame.backend, Stage.writeBody, Stage.send, Stage.answer,
        Stage.mark, Stage.record]
    · rw [hfailed]

end Transparent

/-! ### A message that is no dictionary -/

/-- An error event, with a null usage and its message as a string. -/
def messageText : Bytes := bytes "\x7b\"usage\": null, \"message\": \"hi\"\x7d"

/-- A `json.loads` that knows this one. -/
def messageLoads : JsonLoads where
  loads b := if b = messageText then some (.obj [("usage", .null), ("message", .str "hi")]) else none
  unique := by
    intro b d h
    split_ifs at h
    cases h
    decide
  nested := by
    intro b d k e h he
    split_ifs at h
    cases h
    simpa using Dict.mem_of_get he
  inner := by
    intro b d k e k' e' h he
    split_ifs at h
    cases h
    simpa using Dict.mem_of_get he

theorem eventLines_message :
    eventLines (dataEvent messageText) = [bytes "data: " ++ messageText] := by
  have hcut : cut eventEnd (dataEvent messageText) = some (bytes "data: " ++ messageText, []) := by
    decide +kernel
  rw [eventLines, pieces_of_some hcut, pieces_of_none (by decide)]
  decide +kernel

theorem not_quiet_message : ¬ Quiet messageLoads (dataEvent messageText) := by
  intro hquiet
  have hdata : dataOf (bytes "data: " ++ messageText) = some messageText := by decide +kernel
  have hgate : hasUsage (bytes "data: " ++ messageText) = true := by decide +kernel
  have hline := quiet_iff.mp hquiet (bytes "data: " ++ messageText) (by simp [eventLines_message])
  simp [sniff, hdata, hgate, messageLoads, usagesOf, Json.truthy, Json.asObj, Dict.get_cons_ne]
    at hline

/-- `_scan_sse_for_usage` raises into the relay: **the stream is cut short after this event, and the
backend is marked as failed**, whatever comes after it. -/
theorem relay_cut_short (F : FloatOps) (store : Bool) (b : Backend) (rest : List Bytes) :
    eventStream messageLoads F store b (dataEvent messageText :: rest) =
      ⟨[dataEvent messageText], [⟨b, false⟩], false⟩ := by
  have hraises : (feedSse messageLoads (none, some []) (dataEvent messageText)).2 = none := by
    have hsingle : ¬ Quiet messageLoads [dataEvent messageText].flatten := by
      rw [List.flatten_singleton]
      exact not_quiet_message
    exact feed_raised hsingle
  obtain ⟨captured, hfeed⟩ : ∃ captured,
      feedSse messageLoads (none, some []) (dataEvent messageText) = (captured, none) :=
    ⟨_, Prod.ext rfl hraises⟩
  have hloop : relayChunks messageLoads (dataEvent messageText :: rest) (none, some []) =
      ([dataEvent messageText], (captured, none)) := by
    rw [relayChunks, hfeed]
  rw [eventStream, hloop]
  rfl

theorem message_breaks_relay : ¬ ∃ F store b,
    (eventStream messageLoads F store b [dataEvent messageText, dataEvent plainText]).Transparent
      [dataEvent messageText, dataEvent plainText] := by
  rintro ⟨F, store, b, h⟩
  rw [relay_cut_short] at h
  cases h.marks

end Llmops.Router
