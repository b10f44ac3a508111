import Llmops.Lib.Json

/-!
# `json.dumps` and `str`

The texts that Python gives a JSON value: `dumps` with or without `ensure_ascii`, in its default
separators, and `pyStr`, which is `str`. Which characters beyond ASCII `repr` prints as they are is
a table of the Unicode database, here a parameter.
-/

namespace Llmops.Lib

/-- `n` in hexadecimal, with `width` digits at least. -/
def hex (width n : Nat) : String :=
  let digits := Nat.toDigits 16 n
  .ofList (List.replicate (width - digits.length) '0' ++ digits)

/-- The backslash. -/
def backslash : String := .singleton (.ofNat 92)

/-- A code unit of UTF-16 as `json.dumps` escapes it. -/
def escapeUnit (n : Nat) : String := backslash ++ "u" ++ hex 4 n

/-- One character inside a JSON string. -/
def dumpsChar (ensureAscii : Bool) (c : Char) : String :=
  match c.toNat with
  | 34 | 92 => backslash ++ .singleton c
  | 8 => backslash ++ "b"
  | 9 => backslash ++ "t"
  | 10 => backslash ++ "n"
  | 12 => backslash ++ "f"
  | 13 => backslash ++ "r"
  | n =>
    if n < 32 then escapeUnit n
    else if !ensureAscii || n < 127 then .singleton c
    else if n < 0x10000 then escapeUnit n
    else escapeUnit (0xD800 + (n - 0x10000) / 0x400) ++ escapeUnit (0xDC00 + (n - 0x10000) % 0x400)

/-- A JSON string. -/
def dumpsStr (ensureAscii : Bool) (s : String) : String :=
  "\"" ++ .join (s.toList.map (dumpsChar ensureAscii)) ++ "\""

mutual

/-- `json.dumps(v, ensure_ascii=...)`. -/
def dumps (ensureAscii : Bool) : Json → String
  | .null => "null"
  | .bool b => if b then "true" else "false"
  | .int n => toString n
  | .float x => x.repr
  | .str s => dumpsStr ensureAscii s
  | .arr xs => "[" ++ ", ".intercalate (dumpsList ensureAscii xs) ++ "]"
  | .obj d => "\x7b" ++ ", ".intercalate (dumpsFields ensureAscii d) ++ "\x7d"

def dumpsList (ensureAscii : Bool) : List Json → List String
  | [] => []
  | x :: xs => dumps ensureAscii x :: dumpsList ensureAscii xs

def dumpsFields (ensureAscii : Bool) : List (String × Json) → List String
  | [] => []
  | (k, v) :: d =>
    (dumpsStr ensureAscii k ++ ": " ++ dumps ensureAscii v) :: dumpsFields ensureAscii d

end

/-! ## Sorted keys -/

/-- `sorted(d.items())`, by the keys. -/
def sortFields (d : List (String × Json)) : List (String × Json) :=
  d.insertionSort fun p q => p.1 ≤ q.1

mutual

/-- The value as `sort_keys=True` writes it: every object in the order of its keys. -/
def sortKeys : Json → Json
  | .arr xs => .arr (sortKeysList xs)
  | .obj d => .obj (sortFields (sortKeysFields d))
  | v => v

def sortKeysList : List Json → List Json
  | [] => []
  | x :: xs => sortKeys x :: sortKeysList xs

def sortKeysFields : List (String × Json) → List (String × Json)
  | [] => []
  | (k, v) :: d => (k, sortKeys v) :: sortKeysFields d

end

theorem sortKeysFields_eq_map (d : List (String × Json)) :
    sortKeysFields d = d.map fun p => (p.1, sortKeys p.2) := by
  induction d with
  | nil => rw [sortKeysFields, List.map_nil]
  | cons p d ih =>
    obtain ⟨k, v⟩ := p
    rw [sortKeysFields, ih, List.map_cons]

theorem sortFields_sortFields (d : List (String × Json)) :
    sortFields (sortFields d) = sortFields d := by
  have htotal : Std.Total fun p q : String × Json => p.1 ≤ q.1 := ⟨fun p q => le_total p.1 q.1⟩
  have htrans : IsTrans (String × Json) fun p q => p.1 ≤ q.1 := ⟨fun _ _ _ => le_trans⟩
  exact List.Pairwise.insertionSort_eq (List.pairwise_insertionSort _ d)

/-- The values are converted in whatever order. -/
theorem sortKeysFields_sortFields (d : List (String × Json)) :
    sortKeysFields (sortFields d) = sortFields (sortKeysFields d) := by
  rw [sortKeysFields_eq_map, sortKeysFields_eq_map]
  exact List.map_insertionSort _ _ _ _ fun _ _ _ _ => Iff.rfl

mutual

/-- **Sorting the keys twice** is sorting them once. -/
theorem sortKeys_sortKeys : ∀ v, sortKeys (sortKeys v) = sortKeys v
  | .null => by simp only [sortKeys]
  | .bool _ => by simp only [sortKeys]
  | .int _ => by simp only [sortKeys]
  | .float _ => by simp only [sortKeys]
  | .str _ => by simp only [sortKeys]
  | .arr xs => by
    simp only [sortKeys, sortKeysList_sortKeysList xs]
  | .obj d => by
    simp only [sortKeys, sortKeysFields_sortFields, sortKeysFields_sortKeysFields d,
      sortFields_sortFields]

theorem sortKeysList_sortKeysList : ∀ xs, sortKeysList (sortKeysList xs) = sortKeysList xs
  | [] => by simp only [sortKeysList]
  | x :: xs => by
    simp only [sortKeysList, sortKeys_sortKeys x, sortKeysList_sortKeysList xs]

theorem sortKeysFields_sortKeysFields :
    ∀ d, sortKeysFields (sortKeysFields d) = sortKeysFields d
  | [] => by simp only [sortKeysFields]
  | (k, v) :: d => by
    simp only [sortKeysFields, sortKeys_sortKeys v, sortKeysFields_sortKeysFields d]

end

/-- One character inside the `repr` of a string with the given quote. -/
def reprChar (printable : Char → Bool) (quote c : Char) : String :=
  let n := c.toNat
  if c = quote || n = 92 then backslash ++ .singleton c
  else if n = 9 then backslash ++ "t"
  else if n = 10 then backslash ++ "n"
  else if n = 13 then backslash ++ "r"
  else if 32 ≤ n && n < 127 then .singleton c
  else if 127 < n && printable c then .singleton c
  else if n < 0x100 then backslash ++ "x" ++ hex 2 n
  else if n < 0x10000 then backslash ++ "u" ++ hex 4 n
  else backslash ++ "U" ++ hex 8 n

/-- `repr` of a string: in double quotes only if it has single ones and no double one. -/
def reprStr (printable : Char → Bool) (s : String) : String :=
  let single := Char.ofNat 39
  let double := Char.ofNat 34
  let quote := if s.toList.contains single && !s.toList.contains double then double else single
  .singleton quote ++ .join (s.toList.map (reprChar printable quote)) ++ .singleton quote

mutual

/-- `repr(v)`. -/
def pyRepr (printable : Char → Bool) : Json → String
  | .null => "None"
  | .bool b => if b then "True" else "False"
  | .int n => toString n
  | .float x => x.repr
  | .str s => reprStr printable s
  | .arr xs => "[" ++ ", ".intercalate (pyReprList printable xs) ++ "]"
  | .obj d => "\x7b" ++ ", ".intercalate (pyReprFields printable d) ++ "\x7d"

def pyReprList (printable : Char → Bool) : List Json → List String
  | [] => []
  | x :: xs => pyRepr printable x :: pyReprList printable xs

def pyReprFields (printable : Char → Bool) : List (String × Json) → List String
  | [] => []
  | (k, v) :: d => (reprStr printable k ++ ": " ++ pyRepr printable v) :: pyReprFields printable d

end

/-- `str(v)`: a string as it is, anything else by its `repr`. -/
def pyStr (printable : Char → Bool) : Json → String
  | .str s => s
  | v => pyRepr printable v

end Llmops.Lib
