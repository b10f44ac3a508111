import Llmops.Lib.JsonText

/-!
# The key of prefix affinity (`router.py`)

`_prompt_prefix` puts together the texts of the messages of a request until they make up as many
characters as are asked for, and takes that many. The characters that `str.isprintable` has are a
parameter. A text part whose text is no string makes `join` raise, which is `none` here.

* `collect_spec`: stopping early leaves out nothing of the first characters;
* `prompt_prefix_iff`: the result is exactly the first characters of the whole text if and only if the
  messages that are reached have strings in their text parts.
-/

namespace Llmops.Prompt

open Lib

section Prefix

variable (printable : Char → Bool)

/-- `d.get(key, default)`. -/
def getOr (d : Dict Json) (key : String) (default : Json) : Json := (d.get key).getD default

/-- The text of a part, of a part that is one of text. -/
def textPart : Json → Option Json
  | .obj d => if (Dict.get d "type").bind Json.asStr = some "text" then some (getOr d "text" (.str ""))
    else none
  | _ => none

/-- `sep.join(texts)`. -/
def joined (sep : String) (texts : List String) : String :=
  .ofList (sep.toList.intercalate (texts.map String.toList))

/-- `_content_text`. -/
def contentText : Json → Option String
  | .str s => some s
  | .arr xs => ((xs.filterMap textPart).mapM Json.asStr).map (joined " ")
  | _ => some ""

/-- `f"{m.get('role', '')}:{_content_text(m.get('content'))}"`. -/
def pieceOf (m : Dict Json) : Option String :=
  (contentText (getOr m "content" .null)).map fun text =>
    pyStr printable (getOr m "role" (.str "")) ++ ":" ++ text

/-- The loop over the messages, from what it has put together. -/
def collect (limit : Nat) : List Json → List String → Nat → Option (List String)
  | [], out, _ => some out
  | m :: ms, out, total =>
    match m with
    | .obj m => do
      let piece ← pieceOf printable m
      let out := out ++ [piece]
      let total := total + piece.length
      if limit ≤ total then return out else collect limit ms out total
    | _ => collect limit ms out total

/-- `s[:limit] or None`. -/
def leading (limit : Nat) (s : String) : Option String :=
  let t := String.ofList (s.toList.take limit)
  if t = "" then none else some t

/-- `_prompt_prefix`. -/
def promptPrefix (limit : Nat) (body : Dict Json) : Option (Option String) :=
  match body.get "messages" with
  | some (.arr (m :: ms)) =>
    (collect printable limit (m :: ms) [] 0).map fun out => leading limit (joined "\n" out)
  | _ =>
    match body.get "prompt" with
    | some (.str s) => some (leading limit s)
    | some (.arr (.str s :: _)) => some (leading limit s)
    | _ => some none

/-! ## The whole text -/

/-- `_content_text`, if `fill` says what a text that is no string counts as. -/
def contentTextWith (fill : Json → String) : Json → String
  | .str s => s
  | .arr xs => joined " " ((xs.filterMap textPart).map fun v => v.asStr.getD (fill v))
  | _ => ""

def pieceWith (fill : Json → String) (m : Dict Json) : String :=
  pyStr printable (getOr m "role" (.str "")) ++ ":" ++ contentTextWith fill (getOr m "content" .null)

/-- The messages that are objects. -/
def objects (msgs : List Json) : List (Dict Json) := msgs.filterMap Json.asObj

/-- `role:text` of all messages. -/
def wholeText (fill : Json → String) (msgs : List Json) : String :=
  joined "\n" ((objects msgs).map (pieceWith printable fill))

/-- Nothing is raised, and for messages the key is the beginning of the whole text, whatever the texts
that are no strings count as; it is never longer than the limit. -/
def Exact (limit : Nat) (body : Dict Json) : Prop :=
  ∃ key, promptPrefix printable limit body = some key ∧ (∀ s ∈ key, s.length ≤ limit) ∧
    ∀ msgs, body.get "messages" = some (.arr msgs) → msgs ≠ [] →
      ∀ fill, key = leading limit (wholeText printable fill msgs)

/-- The texts of a message are strings. -/
def Readable (m : Dict Json) : Prop :=
  ∀ xs, getOr m "content" .null = .arr xs → ∀ v ∈ xs.filterMap textPart, v.asStr.isSome

/-- The length of the texts of messages. -/
def lengthOf (ms : List (Dict Json)) : Nat :=
  (ms.map fun m => (pieceWith printable (fun _ => "") m).length).sum

/-- The messages that are reached, the texts before which are shorter than the limit, are readable. -/
def ReachedReadable (limit : Nat) (body : Dict Json) : Prop :=
  ∀ msgs, body.get "messages" = some (.arr msgs) → ∀ before m after,
    objects msgs = before ++ m :: after → lengthOf printable before < limit → Readable m

end Prefix

/-! ## Pieces -/

section Pieces

variable {printable : Char → Bool} {m : Dict Json} {piece : String} {fill : Json → String}
  {sep : String} {limit : Nat} {xs ys : List String}

theorem pieceOf_isSome : (pieceOf printable m).isSome ↔ Readable m := by
  unfold pieceOf Readable
  rw [Option.isSome_map]
  cases hcontent : getOr m "content" .null with
  | arr xs =>
    unfold contentText
    rw [Option.isSome_map, mapM_isSome_iff]
    constructor
    · rintro h ys hys
      cases hys
      exact h
    · intro h
      exact h xs rfl
  | _ => simp [contentText]

theorem getD_of_mapM {vs : List Json} {texts : List String} (h : vs.mapM Json.asStr = some texts) :
    (vs.map fun v => v.asStr.getD (fill v)) = texts := by
  induction mapM_eq_some_iff.mp h with
  | nil => rfl
  | cons hv htail ih =>
    rw [List.map_cons, hv, Option.getD_some, ih (mapM_eq_some_iff.mpr htail)]

/-- A piece is what it is with strings for all texts. -/
theorem pieceWith_of_pieceOf (h : pieceOf printable m = some piece) :
    pieceWith printable fill m = piece := by
  obtain ⟨text, htext, rfl⟩ := Option.map_eq_some_iff.mp h
  have hwith : contentTextWith fill (getOr m "content" .null) = text := by
    cases hcontent : getOr m "content" .null with
    | arr xs =>
      rw [hcontent] at htext
      obtain ⟨texts, htexts, rfl⟩ := Option.map_eq_some_iff.mp htext
      exact congrArg (joined " ") (getD_of_mapM htexts)
    | _ =>
      rw [hcontent] at htext
      exact Option.some.inj htext
  unfold pieceWith
  rw [hwith]

/-- What is joined begins with what is joined of the first texts. -/
theorem joined_append : (joined sep xs).toList <+: (joined sep (xs ++ ys)).toList := by
  unfold joined
  rw [String.toList_ofList, String.toList_ofList, List.map_append]
  generalize xs.map String.toList = us
  generalize ys.map String.toList = vs
  induction us with
  | nil => exact List.nil_prefix
  | cons u us ih =>
    cases us with
    | nil =>
      cases vs with
      | nil => exact List.prefix_rfl
      | cons v vs =>
        rw [List.singleton_append, List.intercalate_cons_cons, List.intercalate_singleton,
          List.append_assoc]
        exact List.prefix_append _ _
    | cons u' us =>
      rw [List.cons_append, List.cons_append, List.intercalate_cons_cons,
        List.intercalate_cons_cons]
      exact (List.prefix_append_right_inj _).mpr ih

/-- What is joined is at least as long as the texts. -/
theorem sum_length_le : (xs.map String.length).sum ≤ (joined sep xs).length := by
  unfold joined
  rw [← String.length_toList, String.toList_ofList]
  induction xs with
  | nil => exact Nat.zero_le _
  | cons x xs ih =>
    cases xs with
    | nil =>
      rw [List.map_singleton, List.map_singleton, List.intercalate_singleton, List.sum_singleton,
        String.length_toList]
    | cons y ys =>
      simp only [List.map_cons, List.sum_cons] at ih ⊢
      rw [List.intercalate_cons_cons, List.length_append, List.length_append, String.length_toList]
      omega

/-- The beginning is settled by texts that are as long. -/
theorem leading_append (h : limit ≤ (xs.map String.length).sum) :
    leading limit (joined sep (xs ++ ys)) = leading limit (joined sep xs) := by
  obtain ⟨t, ht⟩ := @joined_append sep xs ys
  have hlen : limit ≤ (joined sep xs).toList.length := by
    rw [String.length_toList]
    exact h.trans sum_length_le
  unfold leading
  rw [← ht, List.take_append_of_le_length hlen]

end Pieces

/-! ## The loop -/

section Loop

variable {printable : Char → Bool} {limit : Nat} {msgs : List Json} {out : List String}

theorem sum_concat {piece : String} : ((out ++ [piece]).map String.length).sum =
    (out.map String.length).sum + piece.length := by
  rw [List.map_append, List.sum_append, List.map_singleton, List.sum_singleton]

/-- **The loop**: it raises exactly if a message that is reached is not readable, and what it leaves out
comes after the first characters. -/
theorem collect_spec (h : (out.map String.length).sum < limit) :
    ((collect printable limit msgs out (out.map String.length).sum).isSome ↔
      ∀ before m after, objects msgs = before ++ m :: after →
        (out.map String.length).sum + lengthOf printable before < limit → Readable m) ∧
    ∀ texts, collect printable limit msgs out (out.map String.length).sum = some texts →
      ∀ fill, leading limit (joined "\n" texts) =
        leading limit (joined "\n" (out ++ (objects msgs).map (pieceWith printable fill))) := by
  induction msgs generalizing out with
  | nil =>
    refine ⟨iff_of_true rfl fun before m after heq => ?_, fun texts htexts fill => ?_⟩
    · exact absurd heq.symm (by simp [objects])
    · rw [← Option.some.inj htexts]
      simp [objects]
  | cons m msgs ih =>
    cases m with
    | obj m =>
      have hobjects : objects (.obj m :: msgs) = m :: objects msgs := rfl
      rw [collect, hobjects]
      cases hpiece : pieceOf printable m with
      | none =>
        refine ⟨iff_of_false (by simp) fun hall => ?_, fun texts htexts => by simp at htexts⟩
        have hm := hall [] m (objects msgs) rfl (by simpa [lengthOf] using h)
        rw [← @pieceOf_isSome printable, hpiece] at hm
        cases hm
      | some piece =>
        have hwith : ∀ fill, pieceWith printable fill m = piece := fun fill =>
          pieceWith_of_pieceOf hpiece
        have hread : Readable m := pieceOf_isSome.mp (by rw [hpiece]; rfl)
        have hcons : ∀ before, (out.map String.length).sum + lengthOf printable (m :: before) =
            ((out ++ [piece]).map String.length).sum + lengthOf printable before := fun before => by
          rw [sum_concat]
          unfold lengthOf
          rw [List.map_cons, List.sum_cons, hwith]
          omega
        have happend : ∀ fill, out ++ (m :: objects msgs).map (pieceWith printable fill) =
            (out ++ [piece]) ++ (objects msgs).map (pieceWith printable fill) := fun fill => by
          rw [List.map_cons, hwith, List.append_assoc, List.singleton_append]
        simp only [Option.bind_eq_bind, Option.bind_some, ← sum_concat]
        by_cases hlimit : limit ≤ ((out ++ [piece]).map String.length).sum
        · -- the loop stops here
          rw [if_pos hlimit]
          refine ⟨iff_of_true rfl fun before m' after heq hlt => ?_, fun texts htexts fill => ?_⟩
          · cases before with
            | nil =>
              rw [← (List.cons.inj heq).1]
              exact hread
            | cons m'' before =>
              rw [← (List.cons.inj heq).1, hcons] at hlt
              omega
          · rw [happend, leading_append hlimit]
            cases htexts
            rfl
        · rw [if_neg hlimit]
          obtain ⟨hiff, htexts⟩ := ih (not_le.mp hlimit)
          refine ⟨hiff.trans ⟨fun hall before m' after heq hlt => ?_,
            fun hall before m' after heq hlt => ?_⟩, fun texts hcollect fill => ?_⟩
          · cases before with
            | nil =>
              rw [← (List.cons.inj heq).1]
              exact hread
            | cons m'' before =>
              obtain ⟨rfl, htail⟩ := List.cons.inj heq
              exact hall before m' after htail (by rw [← hcons]; exact hlt)
          · exact hall (m :: before) m' after (congrArg _ heq) (by rw [hcons]; exact hlt)
          · rw [happend]
            exact htexts texts hcollect fill
    | _ =>
      have hcollect := ih h
      exact hcollect

end Loop

/-! ## The key -/

section Key

variable {printable : Char → Bool} {limit : Nat} {body : Dict Json}

theorem length_leading {s t : String} (h : t ∈ leading limit s) : t.length ≤ limit := by
  unfold leading at h
  simp only at h
  split_ifs at h with hempty
  · cases h
  · rw [← Option.some.inj h, String.length_ofList, List.length_take]
    exact min_le_left _ _

/-- A body without messages has its key from the prompt. -/
theorem exact_of_prompt (h : ∀ m ms, body.get "messages" ≠ some (.arr (m :: ms))) :
    Exact printable limit body := by
  have hprompt : promptPrefix printable limit body =
      match body.get "prompt" with
      | some (.str s) => some (leading limit s)
      | some (.arr (.str s :: _)) => some (leading limit s)
      | _ => some none := by
    unfold promptPrefix
    split
    · rename_i m ms hmessages
      exact absurd hmessages (h m ms)
    · rfl
  have hempty : ∀ msgs, body.get "messages" = some (.arr msgs) → msgs ≠ [] →
      ∀ (key : Option String) (fill : Json → String),
        key = leading limit (wholeText printable fill msgs) := fun msgs hmsgs hne => by
    obtain ⟨m, ms, rfl⟩ := List.exists_cons_of_ne_nil hne
    exact absurd hmsgs (h m ms)
  have hnone : ∀ s ∈ (none : Option String), s.length ≤ limit := fun s hs => absurd hs (by simp)
  unfold Exact
  rw [hprompt]
  split
  · exact ⟨_, rfl, fun s hs => length_leading hs, fun msgs hm hne => hempty msgs hm hne _⟩
  · exact ⟨_, rfl, fun s hs => length_leading hs, fun msgs hm hne => hempty msgs hm hne _⟩
  · exact ⟨_, rfl, hnone, fun msgs hm hne => hempty msgs hm hne _⟩

theorem exact_iff (hlimit : 0 < limit) :
    Exact printable limit body ↔ ReachedReadable printable limit body := by
  by_cases hbody : ∃ m ms, body.get "messages" = some (.arr (m :: ms))
  · obtain ⟨m, ms, hmessages⟩ := hbody
    have hkey : promptPrefix printable limit body =
        (collect printable limit (m :: ms) [] 0).map fun out => leading limit (joined "\n" out) := by
      unfold promptPrefix
      rw [hmessages]
    obtain ⟨hreached, hwhole⟩ := @collect_spec printable limit (m :: ms) [] hlimit
    have hcond : ReachedReadable printable limit body ↔
        (collect printable limit (m :: ms) [] 0).isSome := by
      refine Iff.trans ?_ hreached.symm
      unfold ReachedReadable
      rw [hmessages]
      simp only [Option.some.injEq, Json.arr.injEq, forall_eq', List.map_nil, List.sum_nil, zero_add]
    rw [hcond]
    constructor
    · rintro ⟨key, hsome, -, -⟩
      rw [hkey] at hsome
      obtain ⟨out, hout, -⟩ := Option.map_eq_some_iff.mp hsome
      rw [hout]
      rfl
    · intro hsome
      obtain ⟨out, hout⟩ := Option.isSome_iff_exists.mp hsome
      refine ⟨leading limit (joined "\n" out), by rw [hkey, hout]; rfl, fun s hs =>
        length_leading hs, fun msgs hmsgs _ fill => ?_⟩
      rw [hmessages] at hmsgs
      cases hmsgs
      exact hwhole out hout fill
  · have hno : ∀ m ms, body.get "messages" ≠ some (.arr (m :: ms)) := fun m ms h => hbody ⟨m, ms, h⟩
    refine iff_of_true (exact_of_prompt hno) fun msgs hmsgs before m after heq => ?_
    cases msgs with
    | nil => exact absurd heq.symm (by simp [objects])
    | cons m' ms => exact absurd hmsgs (hno m' ms)

/-- **The key** is the beginning of the whole text exactly if the messages that are reached are
readable, for every body; bodies with one beginning of their texts then have one key. -/
theorem prompt_prefix_iff (hlimit : 0 < limit) :
    (Exact printable limit body ↔ ReachedReadable printable limit body) ∧
    ∀ body' msgs msgs' fill, body.get "messages" = some (.arr msgs) → msgs ≠ [] →
      body'.get "messages" = some (.arr msgs') → msgs' ≠ [] →
      ReachedReadable printable limit body → ReachedReadable printable limit body' →
      leading limit (wholeText printable fill msgs) = leading limit (wholeText printable fill msgs') →
      promptPrefix printable limit body = promptPrefix printable limit body' := by
  refine ⟨exact_iff hlimit, fun body' msgs msgs' fill hmsgs hne hmsgs' hne' hread hread' heq => ?_⟩
  obtain ⟨key, hkey, -, hexact⟩ := (exact_iff hlimit).mpr hread
  obtain ⟨key', hkey', -, hexact'⟩ := (exact_iff hlimit).mpr hread'
  rw [hkey, hkey', hexact msgs hmsgs hne fill, hexact' msgs' hmsgs' hne' fill, heq]

end Key

/-! ## A text that is null -/

/-- A message with one part of text. -/
def oneMessage (text : Json) : Dict Json :=
  [("messages", .arr [.obj [("role", .str "user"),
    ("content", .arr [.obj [("type", .str "text"), ("text", text)]])]])]

/-- A text that is null raises. -/
theorem null_text_raises : ¬ Exact (fun c => c.toNat < 128) 512 (oneMessage .null) := by
  rintro ⟨key, hkey, -⟩
  have hnone : (promptPrefix (fun c => c.toNat < 128) 512 (oneMessage .null)).isNone := by
    decide +kernel
  rw [hkey] at hnone
  cases hnone

/-- A text of two characters, and a limit of one. -/
theorem prompt_prefix_iff_oneMessage :
    Exact (fun c => c.toNat < 128) 1 (oneMessage (.str "hi")) ↔
      ReachedReadable (fun c => c.toNat < 128) 1 (oneMessage (.str "hi")) :=
  (prompt_prefix_iff one_pos).1

end Llmops.Prompt
