import Llmops.Lib.Json
import Llmops.Lib.Split

/-!
# Token usage in a passing event stream

`_scan_sse_for_usage` (`router.py:201-236`): complete events are cut out of a buffer of bytes, and the
usage objects of their data lines are merged into `captured`. `json.loads` is given by a `JsonLoads`:
any function of which it is known that a dictionary it returns has every key once.

* `feed_eq_scan`: the chunks of a stream, scanned as they come, leave the remainder and the usage
  that the stream as a whole does;
* `sniff_chunks`: with this, the usage is key by key the last one that is not null, of the data lines
  that have the bytes `"usage"`. The others are not parsed, which `escaped_usage` makes use of.
-/

namespace Llmops.Router

open Lib

/-- A byte string. -/
abbrev Bytes := List UInt8

/-- A byte string literal. -/
def bytes (s : String) : Bytes := s.toList.map Char.toUInt8

/-- The white space of `bytes.strip`. -/
def isSpace (b : UInt8) : Bool := b = 32 ∨ 9 ≤ b ∧ b ≤ 13

/-- `bytes.strip()`. -/
def strip (line : Bytes) : Bytes := (line.dropWhile isSpace).rdropWhile isSpace

/-- The separator of the events. -/
def eventEnd : Bytes := [10, 10]

theorem eventEnd_ne_nil : eventEnd ≠ [] := List.cons_ne_nil _ _

/-- `json.loads` of a byte string, `none` where it raises. The dictionaries it returns have every
key once, down to the `usage` of a `message`. -/
structure JsonLoads where
  loads : Bytes → Option Json
  unique : ∀ {b d}, loads b = some (.obj d) → Dict.Unique d
  nested : ∀ {b d k e}, loads b = some (.obj d) → Dict.get d k = some (.obj e) → Dict.Unique e
  inner : ∀ {b d k e k' e'}, loads b = some (.obj d) → Dict.get d k = some (.obj e) →
    Dict.get e k' = some (.obj e') → Dict.Unique e'

/-- `v is not None`. -/
def notNone : Json → Bool
  | .null => false
  | _ => true

/-- The data of a line, if it is a data line with any. -/
def dataOf (line : Bytes) : Option Bytes :=
  if bytes "data:" <+: strip line then
    let data := strip ((strip line).drop (bytes "data:").length)
    if data = [] ∨ data = bytes "[DONE]" then none else some data
  else none

/-- `b'"usage"' in line`. -/
def hasUsage (line : Bytes) : Bool := decide (bytes "\"usage\"" <:+: strip line)

/-- The usage objects of a parsed event, `none` for the exception: `.get` of a `message` that is
neither falsy nor a dictionary. -/
def usagesOf (obj : Dict Json) : Option (List (Dict Json)) :=
  let message := (Dict.get obj "message").getD .null
  let inner : Option (Option Json) :=
    if message.truthy then message.asObj.map fun m => Dict.get m "usage" else some none
  inner.map fun inner => [Dict.get obj "usage", inner].filterMap (·.bind Json.asObj)

/-- `captured["usage"]` with one more usage object. -/
def mergeUsage (captured : Option (Dict Json)) (u : Dict Json) : Option (Dict Json) :=
  some (Dict.update (captured.getD []) (u.filterValues notNone))

section Scan

variable (J : JsonLoads)

/-- What a line brings: its usage objects, `none` for the exception. -/
def sniff (line : Bytes) : Option (List (Dict Json)) :=
  match dataOf line with
  | none => some []
  | some data =>
    if hasUsage line then
      match J.loads data with
      | some (.obj obj) => usagesOf obj
      | _ => some []
    else some []

/-- The lines of an event, one after the other: the usage captured, and whether a line raised. -/
def sniffLines : Option (Dict Json) → List Bytes → Option (Dict Json) × Bool
  | captured, [] => (captured, false)
  | captured, line :: lines =>
    match sniff J line with
    | none => (captured, true)
    | some us => sniffLines (us.foldl mergeUsage captured) lines

/-- `event.split(b"\n")`. -/
def linesOf (event : Bytes) : List Bytes := event.splitOn 10

/-- `_scan_sse_for_usage`: the usage captured, and the remainder, `none` after an exception. -/
def scanSseForUsage (buffer : Bytes) (captured : Option (Dict Json)) :
    Option (Dict Json) × Option Bytes :=
  match h : cut eventEnd buffer with
  | none => (captured, some buffer)
  | some (event, rest) =>
    match sniffLines J captured (linesOf event) with
    | (captured, true) => (captured, none)
    | (captured, false) =>
      have := length_rest_lt eventEnd_ne_nil h
      scanSseForUsage rest captured
termination_by buffer.length

/-- `buffer += chunk; buffer = _scan_sse_for_usage(buffer, captured)`. -/
def feedSse (s : Option (Dict Json) × Option Bytes) (chunk : Bytes) :
    Option (Dict Json) × Option Bytes :=
  match s.2 with
  | none => s
  | some buffer => scanSseForUsage J (buffer ++ chunk) s.1

/-- All chunks of a stream. -/
def feedAll (chunks : List Bytes) : Option (Dict Json) × Option Bytes :=
  chunks.foldl (feedSse J) (none, some [])

end Scan

/-! ## The whole stream -/

/-- The lines of the complete events of a stream. -/
def eventLines (stream : Bytes) : List Bytes :=
  (pieces eventEnd eventEnd_ne_nil stream).1.flatMap linesOf

/-- The usage objects that an event has: at the top, and in its message. -/
def usageObjects (obj : Dict Json) : List (Dict Json) :=
  [Dict.get obj "usage",
    ((Dict.get obj "message").bind Json.asObj).bind fun m => Dict.get m "usage"].filterMap
    (·.bind Json.asObj)

/-- The usage objects of a data line. -/
def lineUsages (J : JsonLoads) (line : Bytes) : List (Dict Json) :=
  ((dataOf line).bind fun data => (J.loads data).bind Json.asObj).elim [] usageObjects

/-- The last value of a key that is not null. -/
def lastValue (us : List (Dict Json)) (key : String) : Option Json :=
  us.reverse.findSome? fun u => (Dict.get u key).filter notNone

/-- The usage captured is **the last non-null merge**, key by key. -/
def LastWins (captured : Option (Dict Json)) (us : List (Dict Json)) : Prop :=
  (captured = none ↔ us = []) ∧ ∀ key, Dict.get (captured.getD []) key = lastValue us key

/-- The object of a data line. -/
def lineObject (J : JsonLoads) (line : Bytes) : Option (Dict Json) :=
  (dataOf line).bind fun data => (J.loads data).bind Json.asObj

/-- The `message` of an event is falsy or a dictionary. -/
def MessageFits (obj : Dict Json) : Prop :=
  ∀ message ∈ Dict.get obj "message", message.truthy = true → message.asObj.isSome = true

/-- The objects that are parsed, those of the data lines with the bytes `"usage"` in the complete
events, have a `message` that fits. -/
def Quiet (J : JsonLoads) (stream : Bytes) : Prop :=
  ∀ line ∈ eventLines stream, hasUsage line = true → ∀ obj ∈ lineObject J line, MessageFits obj

section Stream

variable {J : JsonLoads} {captured captured' : Option (Dict Json)} {buffer stream chunk : Bytes}
  {lines lines' chunks : List Bytes} {raised : Bool}

theorem sniffLines_append : sniffLines J captured (lines ++ lines') =
    if (sniffLines J captured lines).2 = true then sniffLines J captured lines
    else sniffLines J (sniffLines J captured lines).1 lines' := by
  induction lines generalizing captured with
  | nil => rfl
  | cons line lines ih =>
    rw [List.cons_append, sniffLines, sniffLines]
    cases sniff J line with
    | none => rfl
    | some us => exact ih

theorem scan_of_none (h : cut eventEnd buffer = none) :
    scanSseForUsage J buffer captured = (captured, some buffer) := by
  rw [scanSseForUsage]
  split
  · rfl
  · next heq =>
    rw [h] at heq
    cases heq

theorem scan_of_some {event rest : Bytes} (h : cut eventEnd buffer = some (event, rest)) :
    scanSseForUsage J buffer captured =
      if (sniffLines J captured (linesOf event)).2 = true then
        ((sniffLines J captured (linesOf event)).1, none)
      else scanSseForUsage J rest (sniffLines J captured (linesOf event)).1 := by
  rw [scanSseForUsage]
  split
  · next heq =>
    rw [h] at heq
    cases heq
  · next event' rest' heq =>
    rw [h] at heq
    cases heq
    split <;> next hsniff => rw [hsniff]; rfl

/-- A scan is a run over the lines of the complete events. -/
theorem scan_eq : scanSseForUsage J buffer captured =
    ((sniffLines J captured (eventLines buffer)).1,
      if (sniffLines J captured (eventLines buffer)).2 = true then none
      else some (pieces eventEnd eventEnd_ne_nil buffer).2) := by
  unfold eventLines
  induction hlength : buffer.length using Nat.strong_induction_on generalizing buffer captured with
  | _ n ih =>
    cases h : cut eventEnd buffer with
    | none => rw [scan_of_none h, pieces_of_none h]; rfl
    | some p =>
      obtain ⟨event, rest⟩ := p
      have hless : rest.length < n := hlength ▸ length_rest_lt eventEnd_ne_nil h
      rw [scan_of_some h, pieces_of_some h, List.flatMap_cons, sniffLines_append]
      split_ifs with hraised hrest
      · rfl
      · rw [ih rest.length hless rfl, if_pos hrest]
      · rw [ih rest.length hless rfl, if_neg hrest]

theorem eventLines_append : eventLines (buffer ++ chunk) = eventLines buffer ++
    eventLines ((pieces eventEnd eventEnd_ne_nil buffer).2 ++ chunk) := by
  unfold eventLines
  rw [pieces_append, List.flatMap_append]

/-- A chunk that comes after a scan, against a scan of both. -/
theorem feed_scan : feedSse J (scanSseForUsage J buffer captured) chunk =
    scanSseForUsage J (buffer ++ chunk) captured := by
  have hbuffer := @scan_eq J captured buffer
  have hboth := @scan_eq J captured (buffer ++ chunk)
  rw [hbuffer, hboth, eventLines_append, sniffLines_append, pieces_append]
  unfold feedSse
  split_ifs with hraised hrest
  · rfl
  · dsimp only
    rw [scan_eq, if_pos hrest]
  · dsimp only
    rw [scan_eq, if_neg hrest]

theorem foldl_feed : chunks.foldl (feedSse J) (scanSseForUsage J buffer captured) =
    scanSseForUsage J (buffer ++ chunks.flatten) captured := by
  induction chunks generalizing buffer with
  | nil => rw [List.foldl_nil, List.flatten_nil, List.append_nil]
  | cons chunk chunks ih =>
    rw [List.foldl_cons, feed_scan, ih, List.flatten_cons, List.append_assoc]

/-- **The chunks of a stream leave what the stream does.** -/
theorem feed_eq_scan : feedAll J chunks = scanSseForUsage J chunks.flatten none := by
  have hempty : scanSseForUsage J [] none = (none, some []) := scan_of_none (by decide)
  unfold feedAll
  rw [← hempty, foldl_feed, List.nil_append]

/-! ### What is captured -/

variable {obj u : Dict Json} {us : List (Dict Json)} {line : Bytes} {key : String}

theorem usagesOf_eq (h : usagesOf obj = some us) : us = usageObjects obj := by
  unfold usagesOf at h
  unfold usageObjects
  obtain ⟨inner, hinner, rfl⟩ := Option.map_eq_some_iff.mp h
  cases hmessage : Dict.get obj "message" with
  | none =>
    rw [hmessage] at hinner
    cases hinner
    rfl
  | some m =>
    rw [hmessage, Option.getD_some] at hinner
    split_ifs at hinner with htruthy
    · obtain ⟨d, hd, rfl⟩ := Option.map_eq_some_iff.mp hinner
      rw [Option.bind_some, hd]
      rfl
    · -- a falsy message has no usage: only the empty dictionary is one
      cases hinner
      cases m with
      | obj d =>
        cases d with
        | nil => rfl
        | cons p d => exact absurd rfl htruthy
      | _ => rfl

theorem usagesOf_ne_none_iff : usagesOf obj ≠ none ↔ MessageFits obj := by
  unfold usagesOf MessageFits
  rw [Option.ne_none_iff_isSome, Option.isSome_map]
  cases Dict.get obj "message" with
  | none => simp [Json.truthy]
  | some message => cases htruthy : message.truthy <;> simp [htruthy]

/-- A line raises exactly at an object that is parsed and whose `message` does not fit. -/
theorem sniff_ne_none_iff : sniff J line ≠ none ↔
    (hasUsage line = true → ∀ obj ∈ lineObject J line, MessageFits obj) := by
  unfold sniff lineObject
  cases dataOf line with
  | none => simp
  | some data =>
    dsimp only
    rw [Option.bind_some]
    split_ifs with husage
    · rw [forall_prop_of_true husage]
      cases J.loads data with
      | none => simp
      | some v =>
        cases v with
        | obj obj => simpa [Json.asObj] using usagesOf_ne_none_iff
        | _ => simp [Json.asObj]
    · simp [husage]

/-- **A quiet stream** is one of which no line raises. -/
theorem quiet_iff : Quiet J stream ↔ ∀ line ∈ eventLines stream, sniff J line ≠ none :=
  forall₂_congr fun _ _ => sniff_ne_none_iff.symm

theorem sniff_eq (h : sniff J line = some us) :
    us = if hasUsage line = true then lineUsages J line else [] := by
  unfold sniff at h
  unfold lineUsages
  cases hdata : dataOf line with
  | none =>
    rw [hdata] at h
    cases h
    split_ifs <;> rfl
  | some data =>
    rw [hdata] at h
    dsimp only at h
    split_ifs at h ⊢
    · cases hloads : J.loads data with
      | none =>
        rw [hloads] at h
        cases h
        simp [hloads]
      | some v =>
        rw [hloads] at h
        cases v with
        | obj obj => simpa [hloads, Json.asObj] using usagesOf_eq h
        | _ =>
          cases h
          simp [hloads, Json.asObj]
    · exact (Option.some.inj h).symm

/-- Where no line raises, the usages are merged one after the other. -/
theorem sniffLines_eq (h : ∀ line ∈ lines, sniff J line ≠ none) : sniffLines J captured lines =
    (((lines.filter hasUsage).flatMap (lineUsages J)).foldl mergeUsage captured, false) := by
  induction lines generalizing captured with
  | nil => rfl
  | cons line lines ih =>
    obtain ⟨us, hus⟩ := Option.ne_none_iff_exists'.mp (h line List.mem_cons_self)
    have hlines : ∀ l ∈ lines, sniff J l ≠ none := fun l hl => h l (List.mem_cons_of_mem _ hl)
    rw [sniffLines, hus]
    dsimp only
    rw [ih hlines, sniff_eq hus, List.filter_cons]
    split_ifs
    · rw [List.flatMap_cons, List.foldl_append]
    · rfl

/-- A stream that raises nowhere. -/
theorem feed_quiet (h : Quiet J chunks.flatten) : feedAll J chunks =
    (((((eventLines chunks.flatten).filter hasUsage).flatMap (lineUsages J)).foldl mergeUsage none),
      some (pieces eventEnd eventEnd_ne_nil chunks.flatten).2) := by
  rw [feed_eq_scan, scan_eq, sniffLines_eq (quiet_iff.mp h)]
  rfl

theorem sniffLines_raised : (sniffLines J captured lines).2 = true ↔
    ∃ line ∈ lines, sniff J line = none := by
  induction lines generalizing captured with
  | nil => simp [sniffLines]
  | cons line lines ih =>
    rw [sniffLines, List.exists_mem_cons_iff]
    cases sniff J line with
    | none => simp
    | some us => simpa using ih

theorem feed_raised (h : ¬ Quiet J chunks.flatten) : (feedAll J chunks).2 = none := by
  rw [quiet_iff] at h
  push Not at h
  rw [feed_eq_scan, scan_eq, if_pos (sniffLines_raised.mpr h)]

theorem lineUsages_unique (h : u ∈ lineUsages J line) : u.Unique := by
  unfold lineUsages at h
  cases hdata : dataOf line with
  | none => simp [hdata] at h
  | some data =>
    cases hloads : J.loads data with
    | none => simp [hdata, hloads] at h
    | some v =>
      cases v with
      | obj obj =>
        simp only [hdata, hloads, Option.bind_some, Json.asObj, Option.elim_some, usageObjects,
          List.mem_filterMap, List.mem_cons, List.not_mem_nil, or_false] at h
        obtain ⟨v, hv, hu⟩ := h
        obtain ⟨w, rfl, hw⟩ := Option.bind_eq_some_iff.mp hu
        have hw := Json.asObj_eq_some.mp hw
        subst hw
        rcases hv with hv | hv
        · exact J.nested hloads hv.symm
        · obtain ⟨m, hm, hv⟩ := Option.bind_eq_some_iff.mp hv.symm
          obtain ⟨v, hmessage, hm⟩ := Option.bind_eq_some_iff.mp hm
          exact J.inner hloads (hmessage.trans (congrArg some (Json.asObj_eq_some.mp hm))) hv
      | _ => simp [hdata, hloads, Json.asObj] at h

theorem lastWins_foldl (h : ∀ u ∈ us, u.Unique) : LastWins (us.foldl mergeUsage none) us := by
  induction us using List.reverseRecOn with
  | nil => exact ⟨iff_of_true rfl rfl, fun _ => rfl⟩
  | append_singleton us u ih =>
    obtain ⟨-, hkeys⟩ := ih fun v hv => h v (List.mem_append_left _ hv)
    have hu : u.Unique := h u (List.mem_append_right _ List.mem_cons_self)
    rw [List.foldl_append, List.foldl_cons, List.foldl_nil]
    refine ⟨by simp [mergeUsage], fun key => ?_⟩
    rw [mergeUsage, Option.getD_some, Dict.get_update (hu.filterValues notNone),
      Dict.get_filterValues hu, hkeys, lastValue, lastValue, List.reverse_append,
      List.reverse_singleton, List.singleton_append, List.findSome?_cons]
    cases (Dict.get u key).filter notNone <;> rfl

/-- However a stream is cut into chunks, **they leave what the stream does when it is scanned at
once**; and where no complete event raises, the remainder has no complete event, and the usage is the
last non-null merge of the usage objects of the complete data lines that have the bytes `"usage"`. -/
theorem sniff_chunks (J : JsonLoads) (chunks : List Bytes) :
    feedAll J chunks = scanSseForUsage J chunks.flatten none ∧
      (Quiet J chunks.flatten → ∃ captured rest, feedAll J chunks = (captured, some rest) ∧
        rest = (pieces eventEnd eventEnd_ne_nil chunks.flatten).2 ∧ ¬ eventEnd <:+: rest ∧
        LastWins captured (((eventLines chunks.flatten).filter hasUsage).flatMap (lineUsages J))) := by
  refine ⟨feed_eq_scan, fun hquiet => ⟨_, _, feed_quiet hquiet, rfl, pieces_rest, ?_⟩⟩
  refine lastWins_foldl fun u hu => ?_
  obtain ⟨line, -, hu⟩ := List.mem_flatMap.mp hu
  exact lineUsages_unique hu

end Stream

/-! ### Streams of one event -/

/-- A `json.loads` that knows one text: its usage has seven tokens. -/
def sevenTokens (text : Bytes) : JsonLoads where
  loads b := if b = text then some (.obj [("usage", .obj [("total_tokens", .int 7)])]) else none
  unique := by
    intro b d h
    split_ifs at h
    cases h
    decide
  nested := by
    intro b d k e h he
    split_ifs at h
    cases h
    obtain ⟨-, rfl⟩ : k = "usage" ∧ e = [("total_tokens", .int 7)] := by
      simpa using Dict.mem_of_get he
    decide
  inner := by
    intro b d k e k' e' h he he'
    split_ifs at h
    cases h
    obtain ⟨-, rfl⟩ : k = "usage" ∧ e = [("total_tokens", .int 7)] := by
      simpa using Dict.mem_of_get he
    simpa using Dict.mem_of_get he'

/-- A usage in plain letters. -/
def plainText : Bytes := bytes "\x7b\"usage\": \x7b\"total_tokens\": 7\x7d\x7d"

/-- The same, with an escaped letter in its key. -/
def escapedText : Bytes := bytes "\x7b\"us\\u0061ge\": \x7b\"total_tokens\": 7\x7d\x7d"

/-- The event of a text. -/
def dataEvent (text : Bytes) : Bytes := bytes "data: " ++ text ++ eventEnd

theorem eventLines_plain : eventLines (dataEvent plainText) = [bytes "data: " ++ plainText] := by
  have hcut : cut eventEnd (dataEvent plainText) = some (bytes "data: " ++ plainText, []) := by
    decide +kernel
  rw [eventLines, pieces_of_some hcut, pieces_of_none (by decide)]
  decide +kernel

theorem eventLines_escaped :
    eventLines (dataEvent escapedText) = [bytes "data: " ++ escapedText] := by
  have hcut : cut eventEnd (dataEvent escapedText) = some (bytes "data: " ++ escapedText, []) := by
    decide +kernel
  rw [eventLines, pieces_of_some hcut, pieces_of_none (by decide)]
  decide +kernel

theorem quiet_plain : Quiet (sevenTokens plainText) (dataEvent plainText) := by
  refine quiet_iff.mpr fun line hline => ?_
  rw [eventLines_plain, List.mem_singleton] at hline
  subst hline
  have hdata : dataOf (bytes "data: " ++ plainText) = some plainText := by decide +kernel
  have hgate : hasUsage (bytes "data: " ++ plainText) = true := by decide +kernel
  simp [sniff, hdata, hgate, sevenTokens, usagesOf, Json.truthy, Dict.get_cons_ne]

theorem sniff_chunks_plain : ∃ captured rest,
    feedAll (sevenTokens plainText)
      [bytes "data: ", plainText.take 5, plainText.drop 5 ++ [10], [10]] = (captured, some rest) ∧
    ¬ eventEnd <:+: rest := by
  have hjoin : [bytes "data: ", plainText.take 5, plainText.drop 5 ++ [10], [10]].flatten =
      dataEvent plainText := by decide +kernel
  obtain ⟨captured, rest, hfeed, -, hrest, -⟩ := (sniff_chunks (sevenTokens plainText) _).2
    (hjoin ▸ quiet_plain)
  exact ⟨captured, rest, hfeed, hrest⟩

/-- The line is not parsed: **the usage of a complete event is not captured**. -/
theorem escaped_usage : ¬ ∃ captured rest,
    feedAll (sevenTokens escapedText) [dataEvent escapedText] = (captured, some rest) ∧
      LastWins captured
        ((eventLines (dataEvent escapedText)).flatMap (lineUsages (sevenTokens escapedText))) := by
  rintro ⟨captured, rest, hfeed, hlast, -⟩
  have hdata : dataOf (bytes "data: " ++ escapedText) = some escapedText := by decide +kernel
  have hgate : hasUsage (bytes "data: " ++ escapedText) = false := by decide +kernel
  have hquiet : Quiet (sevenTokens escapedText) [dataEvent escapedText].flatten := by
    refine quiet_iff.mpr fun line hline => ?_
    rw [List.flatten_singleton, eventLines_escaped, List.mem_singleton] at hline
    subst hline
    simp [sniff, hdata, hgate]
  rw [feed_quiet hquiet, List.flatten_singleton, eventLines_escaped] at hfeed
  rw [eventLines_escaped] at hlast
  obtain rfl : none = captured := by simpa [hgate] using congrArg Prod.fst hfeed
  have husages := hlast.mp rfl
  simp [lineUsages, hdata, sevenTokens, usageObjects, Json.asObj] at husages

end Llmops.Router
