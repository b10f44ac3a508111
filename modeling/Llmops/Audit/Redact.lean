import Llmops.Lib.JsonText
import Llmops.Lib.Text

/-!
# What an audit entry keeps of a request body (`core/audit.py`)

The body of a mutating request is parsed, the values of members with a secret-looking key are replaced
by a mark, and the first characters of its text are stored. `json.loads` is a parameter, and so is the
`lower` of `str`, which is a table of the Unicode database.

* `redact_eq_iff`: redaction keeps everything but what is inside such members;
* `redactBody_noninterfering`: two bodies that differ only there leave the same detail.
-/

namespace Llmops.Audit

open Lib

/-- `_SECRET_HINTS`. -/
def secretHints : List String :=
  ["token", "password", "secret", "authorization", "api_key", "apikey", "plaintext"]

/-- `_MAX_BODY`. -/
def maxBody : Nat := 4096

/-- `_MAX_DETAIL`. -/
def maxDetail : Nat := 2000

/-- `text in s`. -/
def isIn (text s : String) : Bool := decide (text.toList <:+: s.toList)

/-- `any(h in k.lower() for h in _SECRET_HINTS)`. -/
def isSecret (lower : String → String) (key : String) : Bool :=
  secretHints.any fun h => isIn h (lower key)

/-- What stands for a secret value. -/
def mark : Json := .str "***redacted***"

mutual

/-- `_redact`. -/
def redact (lower : String → String) : Json → Json
  | .obj d => .obj (redactFields lower d)
  | .arr xs => .arr (redactList lower xs)
  | v => v

def redactList (lower : String → String) : List Json → List Json
  | [] => []
  | x :: xs => redact lower x :: redactList lower xs

def redactFields (lower : String → String) : List (String × Json) → List (String × Json)
  | [] => []
  | (k, v) :: d => (k, if isSecret lower k then mark else redact lower v) :: redactFields lower d

end

mutual

/-- `json.dumps(v, ensure_ascii=False, separators=(",", ":"))`. -/
def compact : Json → String
  | .arr xs => "[" ++ ",".intercalate (compactList xs) ++ "]"
  | .obj d => "\x7b" ++ ",".intercalate (compactFields d) ++ "\x7d"
  | .null => "null"
  | .bool b => if b then "true" else "false"
  | .int n => toString n
  | .float x => x.repr
  | .str s => dumpsStr false s

def compactList : List Json → List String
  | [] => []
  | x :: xs => compact x :: compactList xs

def compactFields : List (String × Json) → List String
  | [] => []
  | (k, v) :: d => (dumpsStr false k ++ ":" ++ compact v) :: compactFields d

end

/-- `redact_body`; `loads` is `none` where `json.loads` raises. -/
def redactBody (lower : String → String) (loads : List UInt8 → Option Json) (raw : List UInt8)
    (contentType : Option String) : Option String :=
  if raw.isEmpty || !contentType.any (isIn "application/json") then none
  else if raw.length > maxBody then
    some (dumps true (.obj [("_note", .str "body too large to audit"), ("bytes", .int raw.length)]))
  else
    (loads raw).map fun parsed =>
      .ofList ((compact (redact lower parsed)).toList.take maxDetail)

/-! ## Values that differ in secrets only -/

section Alike

variable (lower : String → String)

mutual

/-- Two values that are equal except inside the values of members with a secret-looking key. -/
inductive Alike : Json → Json → Prop
  | same (v : Json) : Alike v v
  | arr {xs ys : List Json} (h : AlikeList xs ys) : Alike (.arr xs) (.arr ys)
  | obj {d e : List (String × Json)} (h : AlikeFields d e) : Alike (.obj d) (.obj e)

inductive AlikeList : List Json → List Json → Prop
  | nil : AlikeList [] []
  | cons {x y : Json} {xs ys : List Json} (h : Alike x y) (hs : AlikeList xs ys) :
      AlikeList (x :: xs) (y :: ys)

inductive AlikeFields : List (String × Json) → List (String × Json) → Prop
  | nil : AlikeFields [] []
  | secret {k : String} {v w : Json} {d e : List (String × Json)} (hk : isSecret lower k = true)
      (hs : AlikeFields d e) : AlikeFields ((k, v) :: d) ((k, w) :: e)
  | kept {k : String} {v w : Json} {d e : List (String × Json)} (h : Alike v w)
      (hs : AlikeFields d e) : AlikeFields ((k, v) :: d) ((k, w) :: e)

end

end Alike

section Redact

variable {lower : String → String}

mutual

theorem redact_of_alike : ∀ {v w : Json}, Alike lower v w → redact lower v = redact lower w
  | _, _, .same v => rfl
  | _, _, .arr h => by
    rw [redact, redact, redactList_of_alike h]
  | _, _, .obj h => by
    rw [redact, redact, redactFields_of_alike h]

theorem redactList_of_alike : ∀ {xs ys : List Json}, AlikeList lower xs ys →
    redactList lower xs = redactList lower ys
  | _, _, .nil => rfl
  | _, _, .cons h hs => by
    rw [redactList, redactList, redact_of_alike h, redactList_of_alike hs]

theorem redactFields_of_alike : ∀ {d e : List (String × Json)}, AlikeFields lower d e →
    redactFields lower d = redactFields lower e
  | _, _, .nil => rfl
  | _, _, .secret hk hs => by
    rw [redactFields, redactFields, if_pos hk, if_pos hk, redactFields_of_alike hs]
  | _, _, .kept h hs => by
    rw [redactFields, redactFields, redact_of_alike h, redactFields_of_alike hs]

end

/-- A value without parts is what it was redacted from. -/
theorem alike_of_atom {v w : Json} (harr : ∀ xs, v ≠ .arr xs) (hobj : ∀ d, v ≠ .obj d)
    (h : v = redact lower w) : Alike lower v w := by
  cases w with
  | arr ys =>
    rw [redact] at h
    exact absurd h (harr _)
  | obj e =>
    rw [redact] at h
    exact absurd h (hobj _)
  | _ =>
    simp only [redact] at h
    rw [h]
    exact .same _

mutual

theorem alike_of_redact : ∀ {v w : Json}, redact lower v = redact lower w → Alike lower v w
  | .arr xs, w, h => by
    cases w with
    | arr ys =>
      rw [redact, redact, Json.arr.injEq] at h
      exact .arr (alikeList_of_redact h)
    | _ =>
      simp only [redact] at h
      cases h
  | .obj d, w, h => by
    cases w with
    | obj e =>
      rw [redact, redact, Json.obj.injEq] at h
      exact .obj (alikeFields_of_redact h)
    | _ =>
      simp only [redact] at h
      cases h
  | .null, w, h | .bool _, w, h | .int _, w, h | .float _, w, h | .str _, w, h => by
    refine alike_of_atom ?_ ?_ ?_
    · simp
    · simp
    · rw [← h]
      simp only [redact]

theorem alikeList_of_redact : ∀ {xs ys : List Json}, redactList lower xs = redactList lower ys →
    AlikeList lower xs ys
  | [], [], _ => .nil
  | [], _ :: _, h => by simp [redactList] at h
  | _ :: _, [], h => by simp [redactList] at h
  | x :: xs, y :: ys, h => by
    rw [redactList, redactList, List.cons.injEq] at h
    exact .cons (alike_of_redact h.1) (alikeList_of_redact h.2)

theorem alikeFields_of_redact : ∀ {d e : List (String × Json)},
    redactFields lower d = redactFields lower e → AlikeFields lower d e
  | [], [], _ => .nil
  | [], _ :: _, h => by simp [redactFields] at h
  | _ :: _, [], h => by simp [redactFields] at h
  | (k, v) :: d, (k', w) :: e, h => by
    rw [redactFields, redactFields, List.cons.injEq, Prod.mk.injEq] at h
    obtain ⟨⟨rfl, hv⟩, hs⟩ := h
    by_cases hk : isSecret lower k = true
    · exact .secret hk (alikeFields_of_redact hs)
    · rw [if_neg hk, if_neg hk] at hv
      exact .kept (alike_of_redact hv) (alikeFields_of_redact hs)

end

/-- **What redaction keeps**: everything but what is inside secret-looking members. -/
theorem redact_eq_iff {v w : Json} : redact lower v = redact lower w ↔ Alike lower v w :=
  ⟨alike_of_redact, redact_of_alike⟩

/-- The detail of a small body that parses. -/
theorem redactBody_of_loads {loads : List UInt8 → Option Json} {raw : List UInt8} {v : Json}
    {contentType : String} (hempty : loads [] = none) (hloads : loads raw = some v)
    (hsmall : raw.length ≤ maxBody) (hjson : isIn "application/json" contentType = true) :
    redactBody lower loads raw (some contentType) =
      some (.ofList ((compact (redact lower v)).toList.take maxDetail)) := by
  have hne : raw.isEmpty = false := by
    cases raw with
    | nil =>
      rw [hempty] at hloads
      cases hloads
    | cons => rfl
  have hlarge : ¬ raw.length > maxBody := not_lt_of_ge hsmall
  simp [redactBody, hne, hjson, hlarge, hloads]

end Redact

/-- **Noninterference**: bodies that `json.loads` reads as values that differ in secrets only leave
the same detail. -/
theorem redactBody_noninterfering {lower : String → String} {loads : List UInt8 → Option Json}
    {raw raw' : List UInt8} {v w : Json} {contentType contentType' : String}
    (hempty : loads [] = none) (hv : loads raw = some v) (hw : loads raw' = some w)
    (hsmall : raw.length ≤ maxBody) (hsmall' : raw'.length ≤ maxBody)
    (hjson : isIn "application/json" contentType = true)
    (hjson' : isIn "application/json" contentType' = true) (halike : Alike lower v w) :
    ∃ detail, redactBody lower loads raw (some contentType) = some detail ∧
      redactBody lower loads raw' (some contentType') = some detail := by
  refine ⟨_, redactBody_of_loads hempty hv hsmall hjson, ?_⟩
  rw [redactBody_of_loads hempty hw hsmall' hjson', redact_of_alike halike]

/-- The bytes of a text. -/
def bytes (s : String) : List UInt8 := s.toUTF8.data.toList

/-- A login, with a password that is a string and one that is an object. -/
def loginBody (password : Json) : Json :=
  .obj [("user", .str "alice"), ("Password", password), ("remember", .bool true)]

/-- `json.loads` on two bodies. -/
def loadsLogins (raw : List UInt8) : Option Json :=
  if raw = bytes (dumps true (loginBody (.str "hunter2"))) then some (loginBody (.str "hunter2"))
  else if raw = bytes (dumps true (loginBody (.obj [("k", .int 1)]))) then
    some (loginBody (.obj [("k", .int 1)]))
  else none

theorem redactBody_login : ∃ detail,
    redactBody Lib.lower loadsLogins (bytes (dumps true (loginBody (.str "hunter2"))))
      (some "application/json") = some detail ∧
    redactBody Lib.lower loadsLogins (bytes (dumps true (loginBody (.obj [("k", .int 1)]))))
      (some "application/json; charset=utf-8") = some detail := by
  have hne : bytes (dumps true (loginBody (.obj [("k", .int 1)]))) ≠
      bytes (dumps true (loginBody (.str "hunter2"))) := by decide +kernel
  refine @redactBody_noninterfering Lib.lower loadsLogins _ _ (loginBody (.str "hunter2"))
    (loginBody (.obj [("k", .int 1)])) _ _ (if_neg ?_ |>.trans (if_neg ?_)) (if_pos rfl)
    ((if_neg hne).trans (if_pos rfl)) ?_ ?_ ?_ ?_ ?_
  · decide +kernel
  · decide +kernel
  · decide +kernel
  · decide +kernel
  · decide +kernel
  · decide +kernel
  · exact .obj (.kept (.same _) (.secret (by decide +kernel) (.kept (.same _) .nil)))

end Llmops.Audit
