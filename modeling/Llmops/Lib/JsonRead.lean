import Llmops.Lib.JsonText

/-!
# `json.loads`

The reader of JSON texts, by recursive descent. What a text of digits with a point or an exponent is
worth is a parameter, as is the text of a float. A lone surrogate, which Python would take, is no
character here.

* `readChar_dumpsChar`: a character is read back from its escape, astral ones from their two units;
* `readJson_dumps`: a value is read back from its text, whatever comes after it;
* `loads_dumps`: `loads` inverts `dumps`, with and without `ensure_ascii`.
-/

namespace Llmops.Lib

/-! ## Strings -/

/-- The value of a hexadecimal digit. -/
def hexValue (c : Char) : Option Nat :=
  let n := c.toNat
  if 48 ≤ n ∧ n ≤ 57 then some (n - 48)
  else if 97 ≤ n ∧ n ≤ 102 then some (n - 87)
  else if 65 ≤ n ∧ n ≤ 70 then some (n - 55)
  else none

/-- Four hexadecimal digits. -/
def readUnit : List Char → Option (Nat × List Char)
  | a :: b :: c :: d :: t => do
    let a ← hexValue a
    let b ← hexValue b
    let c ← hexValue c
    let d ← hexValue d
    return (((a * 16 + b) * 16 + c) * 16 + d, t)
  | _ => none

/-- A character whose escape begins with a unit of UTF-16, after the two characters of the escape. -/
def readUnits (t : List Char) : Option (Option Char × List Char) :=
  (readUnit t).bind fun (n, rest) =>
    if 0xD800 ≤ n ∧ n < 0xDC00 then
      match rest with
      | b :: u :: rest =>
        if b.toNat = 92 ∧ u.toNat = 117 then
          (readUnit rest).bind fun (m, rest) =>
            if 0xDC00 ≤ m ∧ m < 0xE000 then
              some (some (.ofNat (0x10000 + (n - 0xD800) * 0x400 + (m - 0xDC00))), rest)
            else none
        else none
      | _ => none
    else if 0xDC00 ≤ n ∧ n < 0xE000 then none
    else some (some (.ofNat n), rest)

/-- A character after the backslash of its escape. -/
def readEscape : List Char → Option (Option Char × List Char)
  | [] => none
  | c :: t =>
    match c.toNat with
    | 34 | 92 | 47 => some (some c, t)
    | 98 => some (some (.ofNat 8), t)
    | 116 => some (some (.ofNat 9), t)
    | 110 => some (some (.ofNat 10), t)
    | 102 => some (some (.ofNat 12), t)
    | 114 => some (some (.ofNat 13), t)
    | 117 => readUnits t
    | _ => none

/-- One character of a string, or its closing quote. -/
def readChar : List Char → Option (Option Char × List Char)
  | [] => none
  | c :: t =>
    match c.toNat with
    | 34 => some (none, t)
    | 92 => readEscape t
    | n => if n < 32 then none else some (some c, t)

/-- A string after its opening quote. -/
def readStr : Nat → List Char → Option (List Char × List Char)
  | 0, _ => none
  | fuel + 1, t =>
    match readChar t with
    | none => none
    | some (none, rest) => some ([], rest)
    | some (some c, rest) => (readStr fuel rest).map fun p => (c :: p.1, p.2)

/-! ## Numbers -/

def isJsonSpace (c : Char) : Bool := c = ' ' || c = '\t' || c = '\n' || c = '\r'

/-- The characters of numbers. -/
def isJsonNumber (c : Char) : Bool := c.isDigit || c = '-' || c = '+' || c = '.' || c = 'e' || c = 'E'

/-- `0`, or digits that begin with another one. -/
def readJsonNat (cs : List Char) : Option Nat :=
  if cs ≠ [] ∧ cs.all Char.isDigit ∧ (cs.head? = some '0' → cs = ['0']) then
    some (Nat.ofDigitChars 10 cs 0)
  else none

/-- A number without a fraction and an exponent. -/
def readJsonInt : List Char → Option Int
  | '-' :: cs => (readJsonNat cs).map fun n => -(n : Int)
  | cs => (readJsonNat cs).map Int.ofNat

/-- What the text of a float is worth. -/
abbrev FloatText := List Char → Option PyFloat

section Reader

variable (readFloat : FloatText)

def readJsonNumber (t : List Char) : Option (Json × List Char) :=
  let digits := t.takeWhile isJsonNumber
  let rest := t.dropWhile isJsonNumber
  match readJsonInt digits with
  | some n => some (.int n, rest)
  | none => (readFloat digits).map fun x => (.float x, rest)

/-! ## Values -/

/-- The rest of a text after a word. -/
def afterWord (word : String) (v : Json) (t : List Char) : Option (Json × List Char) :=
  if word.toList <+: t then some (v, t.drop word.toList.length) else none

/-- The rest of a text after white space and the character. -/
def afterMark (mark : Nat) (t : List Char) : Option (List Char) :=
  match t.dropWhile isJsonSpace with
  | [] => none
  | c :: rest => if c.toNat = mark then some rest else none

mutual

/-- One value, and the text after it. -/
def readJson : Nat → List Char → Option (Json × List Char)
  | 0, _ => none
  | fuel + 1, t =>
    match t.dropWhile isJsonSpace with
    | [] => none
    | c :: rest =>
      match c.toNat with
      | 34 => (readStr fuel rest).map fun p => (.str (.ofList p.1), p.2)
      | 91 =>
        match afterMark 93 rest with
        | some rest => some (.arr [], rest)
        | none => (readElems fuel rest).map fun p => (.arr p.1, p.2)
      | 123 =>
        match afterMark 125 rest with
        | some rest => some (.obj [], rest)
        -- a key that comes again replaces the value
        | none => (readFields fuel rest).map fun p => (.obj (Dict.update [] p.1), p.2)
      | 110 => afterWord "null" .null (c :: rest)
      | 116 => afterWord "true" (.bool true) (c :: rest)
      | 102 => afterWord "false" (.bool false) (c :: rest)
      | _ => readJsonNumber readFloat (c :: rest)

/-- The elements of a list, to its closing bracket. -/
def readElems : Nat → List Char → Option (List Json × List Char)
  | 0, _ => none
  | fuel + 1, t =>
    (readJson fuel t).bind fun (v, rest) =>
      match afterMark 44 rest with
      | some rest => (readElems fuel rest).map fun p => (v :: p.1, p.2)
      | none => (afterMark 93 rest).map fun rest => ([v], rest)

/-- The entries of an object, to its closing brace. -/
def readFields : Nat → List Char → Option (List (String × Json) × List Char)
  | 0, _ => none
  | fuel + 1, t =>
    (afterMark 34 t).bind fun t =>
      (readStr fuel t).bind fun (k, rest) =>
        (afterMark 58 rest).bind fun rest =>
          (readJson fuel rest).bind fun (v, rest) =>
            match afterMark 44 rest with
            | some rest => (readFields fuel rest).map fun p => ((.ofList k, v) :: p.1, p.2)
            | none => (afterMark 125 rest).map fun rest => ([(.ofList k, v)], rest)

end

/-- `json.loads`; every reader takes a character or passes to another one. -/
def loads (s : String) : Option Json :=
  (readJson readFloat (2 * s.toList.length + 1) s.toList).bind fun (v, rest) =>
    if rest.dropWhile isJsonSpace = [] then some v else none

end Reader

/-! ## Hexadecimal digits -/

section Hex

variable {n : Nat} {t : List Char}

theorem hexValue_digitChar : ∀ d < 16, hexValue (Nat.digitChar d) = some d := by decide

theorem toDigits_sixteen (h : 16 ≤ n) :
    Nat.toDigits 16 n = Nat.toDigits 16 (n / 16) ++ [Nat.digitChar (n % 16)] :=
  Nat.toDigits_of_base_le (by decide) h

/-- Four digits, with zeros before them. -/
theorem toList_hex_four (h : n < 65536) : (hex 4 n).toList =
    [Nat.digitChar (n / 4096), Nat.digitChar (n / 256 % 16), Nat.digitChar (n / 16 % 16),
      Nat.digitChar (n % 16)] := by
  have hzero : Nat.digitChar 0 = '0' := rfl
  have hone (m : Nat) (hm : m < 16) : Nat.toDigits 16 m = [Nat.digitChar m] :=
    Nat.toDigits_of_lt_base hm
  unfold hex
  simp only [String.toList_ofList]
  by_cases h₁ : n < 16
  · have hn : n / 4096 = 0 ∧ n / 256 % 16 = 0 ∧ n / 16 % 16 = 0 ∧ n % 16 = n := by omega
    rw [hone n h₁, hn.1, hn.2.1, hn.2.2.1, hn.2.2.2, hzero]
    rfl
  · by_cases h₂ : n < 256
    · have hn : n / 4096 = 0 ∧ n / 256 % 16 = 0 ∧ n / 16 % 16 = n / 16 := by omega
      rw [toDigits_sixteen (by omega), hone (n / 16) (by omega), hn.1, hn.2.1, hn.2.2, hzero]
      rfl
    · by_cases h₃ : n < 4096
      · have hn : n / 4096 = 0 ∧ n / 256 % 16 = n / 16 / 16 := by omega
        rw [toDigits_sixteen (by omega), toDigits_sixteen (n := n / 16) (by omega),
          hone (n / 16 / 16) (by omega), hn.1, hn.2, hzero]
        rfl
      · have hn : n / 4096 = n / 16 / 16 / 16 ∧ n / 256 % 16 = n / 16 / 16 % 16 := by omega
        rw [toDigits_sixteen (by omega), toDigits_sixteen (n := n / 16) (by omega),
          toDigits_sixteen (n := n / 16 / 16) (by omega), hone (n / 16 / 16 / 16) (by omega),
          hn.1, hn.2]
        rfl

/-- **A unit of UTF-16** is read back from its digits. -/
theorem readUnit_hex (h : n < 65536) : readUnit ((hex 4 n).toList ++ t) = some (n, t) := by
  have hvalue : ((n / 4096 * 16 + n / 256 % 16) * 16 + n / 16 % 16) * 16 + n % 16 = n := by omega
  rw [toList_hex_four h]
  simp only [List.cons_append, List.nil_append, readUnit, Option.bind_eq_bind,
    hexValue_digitChar (n / 4096) (by omega), hexValue_digitChar (n / 256 % 16) (by omega),
    hexValue_digitChar (n / 16 % 16) (by omega), hexValue_digitChar (n % 16) (by omega),
    Option.bind_some, hvalue]
  rfl

end Hex

/-! ## Strings are read back -/

section Strings

variable {ensureAscii : Bool} {c : Char} {t : List Char} {n : Nat}

theorem toNat_lt (c : Char) : c.toNat < 0xD800 ∨ 0xDFFF < c.toNat ∧ c.toNat < 0x110000 := c.valid

theorem toList_escapeUnit (n : Nat) :
    (escapeUnit n).toList = Char.ofNat 92 :: Char.ofNat 117 :: (hex 4 n).toList := by
  unfold escapeUnit backslash
  rw [String.toList_append, String.toList_append]
  rfl

theorem toNat_backslash : (Char.ofNat 92).toNat = 92 := by decide

theorem toNat_u : (Char.ofNat 117).toNat = 117 := by decide

theorem readChar_backslash : readChar (Char.ofNat 92 :: t) = readEscape t := by
  simp only [readChar, toNat_backslash]

theorem readChar_escapeUnit :
    readChar ((escapeUnit n).toList ++ t) = readUnits ((hex 4 n).toList ++ t) := by
  rw [toList_escapeUnit, List.cons_append, List.cons_append, readChar_backslash]
  simp only [readEscape, toNat_u]

/-- A character of the basic plane is read back from its unit. -/
theorem readUnits_hex (h : c.toNat < 65536) :
    readUnits ((hex 4 c.toNat).toList ++ t) = some (some c, t) := by
  have hvalid := toNat_lt c
  unfold readUnits
  rw [readUnit_hex h, Option.bind_some]
  simp only
  rw [if_neg (by omega), if_neg (by omega), Char.ofNat_toNat]

/-- Any other one from its two units. -/
theorem readUnits_pair {high low : Nat} (hhigh : 0xD800 ≤ high ∧ high < 0xDC00)
    (hlow : 0xDC00 ≤ low ∧ low < 0xE000)
    (h : 0x10000 + (high - 0xD800) * 0x400 + (low - 0xDC00) = c.toNat) :
    readUnits ((hex 4 high).toList ++ ((escapeUnit low).toList ++ t)) = some (some c, t) := by
  unfold readUnits
  rw [readUnit_hex (by omega), Option.bind_some, toList_escapeUnit]
  simp only [List.cons_append]
  rw [if_pos hhigh, if_pos ⟨toNat_backslash, toNat_u⟩, readUnit_hex (by omega), Option.bind_some]
  simp only
  rw [if_pos hlow, h, Char.ofNat_toNat]

theorem readChar_escaped {d : String} :
    readChar ((backslash ++ d).toList ++ t) = readEscape (d.toList ++ t) := by
  rw [String.toList_append, List.append_assoc]
  exact readChar_backslash

theorem readChar_plain (hquote : c.toNat ≠ 34) (hback : c.toNat ≠ 92) (hlow : ¬ c.toNat < 32) :
    readChar (c :: t) = some (some c, t) := by
  simp only [readChar, if_neg hlow]

/-- **A character** is read back from its escape. -/
theorem readChar_dumpsChar :
    readChar ((dumpsChar ensureAscii c).toList ++ t) = some (some c, t) := by
  have hown : (String.singleton c).toList = [c] := String.toList_singleton c
  have hof {n : Nat} (hn : c.toNat = n) : c = .ofNat n := by rw [← hn, Char.ofNat_toNat]
  unfold dumpsChar
  split
  · next h =>
    rw [readChar_escaped, hown]
    simp only [List.singleton_append, readEscape, h]
  · next h =>
    rw [readChar_escaped, hown]
    simp only [List.singleton_append, readEscape, h]
  · next h =>
    rw [readChar_escaped, hof h]
    rfl
  · next h =>
    rw [readChar_escaped, hof h]
    rfl
  · next h =>
    rw [readChar_escaped, hof h]
    rfl
  · next h =>
    rw [readChar_escaped, hof h]
    rfl
  · next h =>
    rw [readChar_escaped, hof h]
    rfl
  · next h₃₄ h₉₂ _ _ _ _ _ =>
    split_ifs with hlow hplain hbasic
    · rw [readChar_escapeUnit, readUnits_hex (by omega)]
    · rw [hown, List.singleton_append, readChar_plain h₃₄ h₉₂ hlow]
    · rw [readChar_escapeUnit, readUnits_hex hbasic]
    · have hvalid := toNat_lt c
      rw [String.toList_append, List.append_assoc, readChar_escapeUnit]
      exact readUnits_pair (by omega) (by omega) (by omega)

theorem toList_dumpsStr (s : String) : (dumpsStr ensureAscii s).toList =
    Char.ofNat 34 ::
      (s.toList.flatMap (fun c => (dumpsChar ensureAscii c).toList) ++ [Char.ofNat 34]) := by
  unfold dumpsStr
  rw [String.toList_append, String.toList_append, String.toList_join, List.flatMap_map]
  rfl

theorem one_le_dumpsChar : 1 ≤ (dumpsChar ensureAscii c).toList.length := by
  by_contra hlt
  have hnil : (dumpsChar ensureAscii c).toList = [] := List.eq_nil_of_length_eq_zero (by omega)
  have hread : readChar ((dumpsChar ensureAscii c).toList ++ []) = some (some c, []) :=
    readChar_dumpsChar
  rw [hnil] at hread
  cases hread

theorem length_le_flatMap (ensureAscii : Bool) (cs : List Char) :
    cs.length ≤ (cs.flatMap fun c => (dumpsChar ensureAscii c).toList).length := by
  induction cs with
  | nil => exact Nat.zero_le _
  | cons c cs ih =>
    have hone : 1 ≤ (dumpsChar ensureAscii c).toList.length := one_le_dumpsChar
    rw [List.flatMap_cons, List.length_append, List.length_cons]
    omega

/-- **A string** is read back, after its opening quote. -/
theorem readStr_flatMap {cs : List Char} {fuel : Nat} (h : cs.length < fuel) :
    readStr fuel (cs.flatMap (fun c => (dumpsChar ensureAscii c).toList) ++ Char.ofNat 34 :: t) =
      some (cs, t) := by
  induction cs generalizing fuel with
  | nil =>
    obtain ⟨fuel, rfl⟩ : ∃ n, fuel = n + 1 := ⟨fuel - 1, by simp at h; omega⟩
    rfl
  | cons c cs ih =>
    obtain ⟨fuel, rfl⟩ : ∃ n, fuel = n + 1 := ⟨fuel - 1, by simp at h; omega⟩
    rw [List.flatMap_cons, List.append_assoc, readStr, readChar_dumpsChar]
    simp only [ih (Nat.lt_of_succ_lt_succ h), Option.map_some]

theorem readStr_dumpsStr {s : String} {fuel : Nat} (h : s.toList.length < fuel) :
    readStr fuel (s.toList.flatMap (fun c => (dumpsChar ensureAscii c).toList) ++
      ([Char.ofNat 34] ++ t)) = some (s.toList, t) :=
  readStr_flatMap h

end Strings

/-! ## Numbers are read back -/

section Numbers

variable {readFloat : FloatText} {t : List Char}

/-- Only zero begins with a zero. -/
theorem head_toDigits {n : Nat} (h : (Nat.toDigits 10 n).head? = some '0') : n = 0 := by
  induction n using Nat.strong_induction_on with
  | _ n ih =>
    by_cases hn : n < 10
    · rw [Nat.toDigits_of_lt_base hn] at h
      exact Nat.digitChar_eq_zero.mp (Option.some.inj h)
    · rw [Nat.toDigits_of_base_le (by decide) (by omega),
        List.head?_append_of_ne_nil _ Nat.toDigits_ne_nil] at h
      have hzero := ih (n / 10) (by omega) h
      omega

theorem isDigit_toDigits {n : Nat} : ∀ c ∈ Nat.toDigits 10 n, c.isDigit = true := fun _ hc =>
  Nat.isDigit_of_mem_toDigits (by decide) (by decide) hc

theorem readJsonNat_toDigits (n : Nat) : readJsonNat (Nat.toDigits 10 n) = some n := by
  have hhead : (Nat.toDigits 10 n).head? = some '0' → Nat.toDigits 10 n = ['0'] := by
    intro h
    rw [head_toDigits h, Nat.toDigits_zero]
  unfold readJsonNat
  rw [if_pos ⟨Nat.toDigits_ne_nil, List.all_eq_true.mpr isDigit_toDigits, hhead⟩,
    Nat.ofDigitChars_ten_toDigits]

theorem toList_toString_nat (n : Nat) : (toString (n : Int)).toList = Nat.toDigits 10 n :=
  Nat.toList_repr

theorem toList_toString_neg (n : Nat) :
    (toString (Int.negSucc n)).toList = '-' :: Nat.toDigits 10 (n + 1) := by
  change ("-" ++ Nat.repr (n + 1)).toList = _
  rw [String.toList_append, Nat.toList_repr]
  rfl

/-- **An integer** is read back. -/
theorem readJsonInt_toString (n : Int) : readJsonInt (toString n).toList = some n := by
  cases n with
  | ofNat n =>
    change readJsonInt (toString (n : Int)).toList = _
    rw [toList_toString_nat]
    unfold readJsonInt
    split
    · next cs h =>
      exact absurd (isDigit_toDigits (n := n) '-' (by rw [h]; exact List.mem_cons_self)) (by decide)
    · rw [readJsonNat_toDigits]
      rfl
  | negSucc n =>
    rw [toList_toString_neg]
    simp only [readJsonInt, readJsonNat_toDigits]
    rfl

/-- A digit, or the sign of a number that has one. -/
def startsNumber (c : Char) : Bool := c.isDigit || c = '-'

theorem exists_toString (n : Int) : ∃ c t, (toString n).toList = c :: t ∧ startsNumber c = true ∧
    ∀ d ∈ c :: t, isJsonNumber d = true := by
  have hnumber {c : Char} (h : c.isDigit = true) : isJsonNumber c = true := by simp [isJsonNumber, h]
  cases n with
  | ofNat n =>
    obtain ⟨c, t, h⟩ := List.exists_cons_of_ne_nil (Nat.toDigits_ne_nil (n := n) (b := 10))
    have hdigit : ∀ d ∈ c :: t, d.isDigit = true := fun d hd => isDigit_toDigits d (h ▸ hd)
    refine ⟨c, t, (toList_toString_nat n).trans h, ?_, fun d hd => hnumber (hdigit d hd)⟩
    unfold startsNumber
    rw [hdigit c List.mem_cons_self]
    rfl
  | negSucc n =>
    refine ⟨'-', Nat.toDigits 10 (n + 1), toList_toString_neg n, by decide, fun d hd => ?_⟩
    rcases List.mem_cons.mp hd with rfl | hd
    · decide
    · exact hnumber (isDigit_toDigits d hd)

/-- The text of a float that is read as this float. -/
structure FloatReads (readFloat : FloatText) (x : PyFloat) : Prop where
  read : readFloat x.repr.toList = some x
  noInt : readJsonInt x.repr.toList = none
  chars : ∀ c ∈ x.repr.toList, isJsonNumber c = true
  starts : ∃ c t, x.repr.toList = c :: t ∧ startsNumber c = true

theorem readJsonNumber_append {u : List Char} (hu : ∀ c ∈ u, isJsonNumber c = true)
    (ht : ∀ c ∈ t.head?, isJsonNumber c = false) : readJsonNumber readFloat (u ++ t) =
      match readJsonInt u with
      | some n => some (.int n, t)
      | none => (readFloat u).map fun x => (.float x, t) := by
  have hcut : t.takeWhile isJsonNumber = [] ∧ t.dropWhile isJsonNumber = t := by
    cases t with
    | nil => exact ⟨rfl, rfl⟩
    | cons c t =>
      have hc : ¬ isJsonNumber c = true := by
        rw [ht c rfl]
        exact Bool.false_ne_true
      exact ⟨by rw [List.takeWhile_cons, if_neg hc], by rw [List.dropWhile_cons, if_neg hc]⟩
  unfold readJsonNumber
  simp only [List.takeWhile_append_of_pos hu, List.dropWhile_append_of_pos hu, hcut.1, hcut.2,
    List.append_nil]

theorem startsNumber_toNat {c : Char} (h : startsNumber c = true) :
    c.toNat = 45 ∨ 48 ≤ c.toNat ∧ c.toNat ≤ 57 := by
  unfold startsNumber at h
  rcases Bool.or_eq_true_iff.mp h with h | h
  · right
    have hzero : '0'.val.toNat = 48 := rfl
    have hnine : '9'.val.toNat = 57 := rfl
    simp only [Char.isDigit, Bool.and_eq_true, decide_eq_true_eq, ge_iff_le, UInt32.le_iff_toNat_le]
      at h
    have hval : c.toNat = c.val.toNat := rfl
    omega
  · left
    rw [of_decide_eq_true h]
    decide

theorem not_isJsonSpace_of_toNat {c : Char} (h : 32 < c.toNat) : isJsonSpace c = false := by
  rw [Bool.eq_false_iff]
  intro hspace
  unfold isJsonSpace at hspace
  simp only [Bool.or_eq_true, decide_eq_true_eq] at hspace
  rcases hspace with ((rfl | rfl) | rfl) | rfl
  · exact absurd h (by decide)
  · exact absurd h (by decide)
  · exact absurd h (by decide)
  · exact absurd h (by decide)

theorem dropWhile_cons_of_toNat {c : Char} (h : 32 < c.toNat) :
    (c :: t).dropWhile isJsonSpace = c :: t := by
  rw [List.dropWhile_cons, not_isJsonSpace_of_toNat h]
  rfl

/-- A value that begins as a number does is read as a number. -/
theorem readJson_number {fuel : Nat} {c : Char} (h : startsNumber c = true) :
    readJson readFloat (fuel + 1) (c :: t) = readJsonNumber readFloat (c :: t) := by
  have hn := startsNumber_toNat h
  rw [readJson, dropWhile_cons_of_toNat (by omega)]
  simp only
  split
  all_goals first | omega | rfl

end Numbers

/-! ## Values are read back -/

mutual

/-- The dictionaries have each key once, and the floats are read as themselves. -/
def Readable (readFloat : FloatText) : Json → Prop
  | .float x => FloatReads readFloat x
  | .arr xs => ReadableList readFloat xs
  | .obj d => Dict.Unique d ∧ ReadableFields readFloat d
  | _ => True

def ReadableList (readFloat : FloatText) : List Json → Prop
  | [] => True
  | x :: xs => Readable readFloat x ∧ ReadableList readFloat xs

def ReadableFields (readFloat : FloatText) : List (String × Json) → Prop
  | [] => True
  | (_, v) :: d => Readable readFloat v ∧ ReadableFields readFloat d

end

section Values

variable {readFloat : FloatText} {ensureAscii : Bool} {t : List Char} {fuel : Nat}

theorem readJson_space : readJson readFloat fuel (' ' :: t) = readJson readFloat fuel t := by
  cases fuel with
  | zero => simp only [readJson]
  | succ fuel =>
    have hspace : (' ' :: t).dropWhile isJsonSpace = t.dropWhile isJsonSpace := rfl
    rw [readJson, readJson, hspace]

theorem readFields_space : readFields readFloat fuel (' ' :: t) = readFields readFloat fuel t := by
  cases fuel with
  | zero => simp only [readFields]
  | succ fuel =>
    have hspace : afterMark 34 (' ' :: t) = afterMark 34 t := rfl
    rw [readFields, readFields, hspace]

theorem readElems_space : readElems readFloat fuel (' ' :: t) = readElems readFloat fuel t := by
  cases fuel with
  | zero => simp only [readElems]
  | succ fuel => rw [readElems, readElems, readJson_space]

theorem afterMark_cons {c : Char} {mark : Nat} (h : 32 < c.toNat) :
    afterMark mark (c :: t) = if c.toNat = mark then some t else none := by
  unfold afterMark
  rw [dropWhile_cons_of_toNat h]

/-- What a text of a list or of an object is made of. -/
def joined (texts : List String) : List Char := [',', ' '].intercalate (texts.map String.toList)

theorem toList_joined (texts : List String) : (", ".intercalate texts).toList = joined texts :=
  String.toList_intercalate

theorem joined_cons_cons (u v : String) (texts : List String) :
    joined (u :: v :: texts) = u.toList ++ ',' :: ' ' :: joined (v :: texts) := by
  unfold joined
  rw [List.map_cons, List.map_cons, List.intercalate_cons_cons, List.append_assoc]
  rfl

theorem joined_singleton (u : String) : joined [u] = u.toList := List.intercalate_singleton

/-- How the text of a value begins. -/
theorem exists_head (v : Json) (hv : Readable readFloat v) : ∃ c t,
    (dumps ensureAscii v).toList = c :: t ∧ 32 < c.toNat ∧ c.toNat ≠ 93 := by
  have hstarts {c : Char} (h : startsNumber c = true) : 32 < c.toNat ∧ c.toNat ≠ 93 := by
    have hn := startsNumber_toNat h
    omega
  cases v with
  | null => exact ⟨'n', "ull".toList, by rw [dumps]; decide, by decide, by decide⟩
  | bool b =>
    cases b with
    | true => exact ⟨'t', "rue".toList, by rw [dumps]; decide, by decide, by decide⟩
    | false => exact ⟨'f', "alse".toList, by rw [dumps]; decide, by decide, by decide⟩
  | int n =>
    obtain ⟨c, t, htext, hc, -⟩ := exists_toString n
    exact ⟨c, t, by rw [dumps]; exact htext, hstarts hc⟩
  | float x =>
    rw [Readable] at hv
    obtain ⟨c, t, htext, hc⟩ := hv.starts
    exact ⟨c, t, by rw [dumps]; exact htext, hstarts hc⟩
  | str s => exact ⟨_, _, by rw [dumps, toList_dumpsStr], by decide, by decide⟩
  | arr xs =>
    refine ⟨'[', joined (dumpsList ensureAscii xs) ++ [']'], ?_, by decide, by decide⟩
    rw [dumps, String.toList_append, String.toList_append, toList_joined]
    rfl
  | obj d =>
    refine ⟨Char.ofNat 123, joined (dumpsFields ensureAscii d) ++ [Char.ofNat 125], ?_, by decide,
      by decide⟩
    rw [dumps, String.toList_append, String.toList_append, toList_joined]
    rfl

/-- Nothing that goes on with a number. -/
def Ends (t : List Char) : Prop := ∀ c ∈ t.head?, isJsonNumber c = false

theorem ends_cons {c : Char} (h : isJsonNumber c = false) : Ends (c :: t) := fun d hd => by
  rw [← Option.some.inj hd]
  exact h

theorem afterWord_append {word : String} {v : Json} :
    afterWord word v (word.toList ++ t) = some (v, t) := by
  unfold afterWord
  rw [if_pos (List.prefix_append _ _), List.drop_left]

/-- The end of an object. -/
def closing : Char := .ofNat 125

/-- The text of a list. -/
theorem toList_dumps_arr (xs : List Json) : (dumps ensureAscii (.arr xs)).toList =
    '[' :: (joined (dumpsList ensureAscii xs) ++ [']']) := by
  rw [dumps, String.toList_append, String.toList_append, toList_joined]
  rfl

/-- The text of an object. -/
theorem toList_dumps_obj (d : List (String × Json)) : (dumps ensureAscii (.obj d)).toList =
    Char.ofNat 123 :: (joined (dumpsFields ensureAscii d) ++ [closing]) := by
  rw [dumps, String.toList_append, String.toList_append, toList_joined]
  rfl

theorem readJson_bracket : readJson readFloat (fuel + 1) ('[' :: t) =
    match afterMark 93 t with
    | some rest => some (.arr [], rest)
    | none => (readElems readFloat fuel t).map fun p => (.arr p.1, p.2) := by
  rw [readJson, dropWhile_cons_of_toNat (by decide)]
  rfl

theorem readJson_brace : readJson readFloat (fuel + 1) (Char.ofNat 123 :: t) =
    match afterMark 125 t with
    | some rest => some (.obj [], rest)
    | none => (readFields readFloat fuel t).map fun p => (.obj (Dict.update [] p.1), p.2) := by
  rw [readJson, dropWhile_cons_of_toNat (by decide)]
  rfl

theorem readJson_quote : readJson readFloat (fuel + 1) (Char.ofNat 34 :: t) =
    (readStr fuel t).map fun p => (.str (.ofList p.1), p.2) := by
  rw [readJson, dropWhile_cons_of_toNat (by decide)]
  rfl

/-- The text of an entry. -/
theorem toList_field (k : String) (v : Json) :
    (dumpsStr ensureAscii k ++ ": " ++ dumps ensureAscii v).toList =
      Char.ofNat 34 :: (k.toList.flatMap (fun c => (dumpsChar ensureAscii c).toList) ++
        Char.ofNat 34 :: ':' :: ' ' :: (dumps ensureAscii v).toList) := by
  rw [String.toList_append, String.toList_append, toList_dumpsStr]
  simp only [List.cons_append, List.append_assoc, List.nil_append]
  rfl

theorem readJson_str {s : String} (h : s.toList.length < fuel) :
    readJson readFloat (fuel + 1) ((dumpsStr ensureAscii s).toList ++ t) = some (.str s, t) := by
  rw [toList_dumpsStr, List.cons_append, readJson_quote, List.append_assoc, readStr_dumpsStr h,
    Option.map_some, String.ofList_toList]

theorem afterMark_head {u : List Char} {mark : Nat} (h : ∃ c w, u = c :: w ∧ 32 < c.toNat ∧
    c.toNat ≠ mark) : afterMark mark (u ++ t) = none := by
  obtain ⟨c, w, rfl, hc, hne⟩ := h
  rw [List.cons_append, afterMark_cons hc, if_neg hne]

/-- The text of an entry. -/
def field (ensureAscii : Bool) (k : String) (v : Json) : List Char :=
  (dumpsStr ensureAscii k ++ ": " ++ dumps ensureAscii v).toList

theorem length_field (ensureAscii : Bool) (k : String) (v : Json) :
    k.toList.length + (dumps ensureAscii v).toList.length + 4 ≤ (field ensureAscii k v).length := by
  have hlen := length_le_flatMap ensureAscii k.toList
  unfold field
  rw [toList_field]
  simp only [List.length_cons, List.length_append]
  omega

/-- An entry is read to its value. -/
theorem readFields_field {k : String} {v : Json} (h : k.toList.length < fuel) :
    readFields readFloat (fuel + 1) (field ensureAscii k v ++ t) =
      (readJson readFloat fuel ((dumps ensureAscii v).toList ++ t)).bind fun (v, rest) =>
        match afterMark 44 rest with
        | some rest => (readFields readFloat fuel rest).map fun p => ((k, v) :: p.1, p.2)
        | none => (afterMark 125 rest).map fun rest => ([(k, v)], rest) := by
  have hquote {u : List Char} : afterMark 34 (Char.ofNat 34 :: u) = some u := by
    rw [afterMark_cons (by decide), if_pos (by decide)]
  have hcolon {u : List Char} : afterMark 58 (':' :: u) = some u := by
    rw [afterMark_cons (by decide), if_pos (by decide)]
  unfold field
  rw [toList_field, List.cons_append, readFields, hquote, Option.bind_some, List.append_assoc,
    List.cons_append, readStr_flatMap h, Option.bind_some]
  simp only [List.cons_append, hcolon, Option.bind_some, readJson_space, String.ofList_toList]

theorem afterMark_comma : afterMark 44 (',' :: t) = some t := by
  rw [afterMark_cons (by decide), if_pos (by decide)]

/-- How a text that is joined begins. -/
theorem joined_head {u : String} (texts : List String) {c : Char} (h : ∃ w, u.toList = c :: w) :
    ∃ w, joined (u :: texts) = c :: w := by
  obtain ⟨w, hw⟩ := h
  cases texts with
  | nil => exact ⟨w, by rw [joined_singleton, hw]⟩
  | cons v texts => exact ⟨_, by rw [joined_cons_cons, hw, List.cons_append]⟩

mutual

/-- **A value** is read back from its text, whatever comes after it. -/
theorem readJson_dumps : ∀ (v : Json) (fuel : Nat) (t : List Char), Readable readFloat v →
    2 * (dumps ensureAscii v).toList.length ≤ fuel → Ends t →
    readJson readFloat (fuel + 1) ((dumps ensureAscii v).toList ++ t) = some (v, t)
  | .null, fuel, t, _, _, _ => by
    rw [dumps, readJson]
    exact afterWord_append
  | .bool true, fuel, t, _, _, _ => by
    rw [dumps, readJson]
    exact afterWord_append
  | .bool false, fuel, t, _, _, _ => by
    rw [dumps, readJson]
    exact afterWord_append
  | .int n, fuel, t, _, _, ht => by
    obtain ⟨c, u, htext, hc, hu⟩ := exists_toString n
    rw [dumps, htext, List.cons_append, readJson_number hc, ← List.cons_append,
      readJsonNumber_append hu ht, ← htext, readJsonInt_toString]
  | .float x, fuel, t, hv, _, ht => by
    rw [Readable] at hv
    obtain ⟨c, u, htext, hc⟩ := hv.starts
    have hchars := hv.chars
    have hread := hv.read
    have hnone := hv.noInt
    rw [htext] at hchars hread hnone
    rw [dumps, htext, List.cons_append, readJson_number hc, ← List.cons_append,
      readJsonNumber_append hchars ht, hnone]
    simp only [hread, Option.map_some]
  | .str s, fuel, t, _, hfuel, _ => by
    rw [dumps] at hfuel ⊢
    refine readJson_str ?_
    have hlen := length_le_flatMap ensureAscii s.toList
    rw [toList_dumpsStr, List.length_cons, List.length_append] at hfuel
    omega
  | .arr [], fuel, t, _, _, _ => by
    rw [toList_dumps_arr, List.cons_append, readJson_bracket]
    rfl
  | .arr (x :: xs), fuel, t, hv, hfuel, _ => by
    rw [Readable] at hv
    rw [toList_dumps_arr] at hfuel ⊢
    rw [List.length_cons, List.length_append, List.length_singleton] at hfuel
    obtain ⟨fuel, rfl⟩ : ∃ n, fuel = n + 1 := ⟨fuel - 1, by omega⟩
    have hnone : afterMark 93 (joined (dumpsList ensureAscii (x :: xs)) ++ ']' :: t) = none := by
      rw [ReadableList] at hv
      obtain ⟨c, u, hhead, hc⟩ := exists_head x hv.1
      obtain ⟨w, hw⟩ := joined_head (dumpsList ensureAscii xs) ⟨u, hhead⟩
      exact afterMark_head ⟨c, w, hw, hc⟩
    rw [List.cons_append, readJson_bracket, List.append_assoc, List.singleton_append, hnone]
    simp only [readElems_dumps (x :: xs) fuel t (List.cons_ne_nil x xs) hv (by omega),
      Option.map_some]
  | .obj [], fuel, t, _, _, _ => by
    rw [toList_dumps_obj, List.cons_append, readJson_brace]
    rfl
  | .obj ((k, v) :: d), fuel, t, hv, hfuel, _ => by
    rw [Readable] at hv
    rw [toList_dumps_obj] at hfuel ⊢
    rw [List.length_cons, List.length_append, List.length_singleton] at hfuel
    obtain ⟨fuel, rfl⟩ : ∃ n, fuel = n + 1 := ⟨fuel - 1, by omega⟩
    have hnone : afterMark 125 (joined (dumpsFields ensureAscii ((k, v) :: d)) ++ closing :: t) =
        none := by
      refine afterMark_head ⟨Char.ofNat 34, ?_⟩
      obtain ⟨w, hw⟩ := joined_head (dumpsFields ensureAscii d) ⟨_, toList_field k v⟩
      exact ⟨w, hw, by decide, by decide⟩
    have hdict : Dict.update [] ((k, v) :: d) = (k, v) :: d :=
      Dict.update_eq_append hv.1 fun _ _ h => nomatch h
    rw [List.cons_append, readJson_brace, List.append_assoc, List.singleton_append, hnone]
    simp only [readFields_dumps ((k, v) :: d) fuel t (List.cons_ne_nil _ d) hv.2 (by omega),
      Option.map_some, hdict]

/-- The elements of a list, to the closing bracket. -/
theorem readElems_dumps : ∀ (xs : List Json) (fuel : Nat) (t : List Char), xs ≠ [] →
    ReadableList readFloat xs → 2 * (joined (dumpsList ensureAscii xs)).length + 1 ≤ fuel →
    readElems readFloat (fuel + 1) (joined (dumpsList ensureAscii xs) ++ ']' :: t) = some (xs, t)
  | [], _, _, hne, _, _ => absurd rfl hne
  | [x], fuel, t, _, hxs, hfuel => by
    rw [ReadableList] at hxs
    have htext : joined (dumpsList ensureAscii [x]) = (dumps ensureAscii x).toList := by
      simp only [dumpsList, joined_singleton]
    rw [htext] at hfuel ⊢
    obtain ⟨fuel, rfl⟩ : ∃ n, fuel = n + 1 := ⟨fuel - 1, by omega⟩
    rw [readElems, readJson_dumps x fuel (']' :: t) hxs.1 (by omega) (ends_cons (by decide))]
    rfl
  | x :: y :: xs, fuel, t, _, hxs, hfuel => by
    rw [ReadableList] at hxs
    have htext : joined (dumpsList ensureAscii (x :: y :: xs)) =
        (dumps ensureAscii x).toList ++ ',' :: ' ' :: joined (dumpsList ensureAscii (y :: xs)) := by
      simp only [dumpsList, joined_cons_cons]
    rw [htext] at hfuel ⊢
    rw [List.length_append, List.length_cons, List.length_cons] at hfuel
    obtain ⟨fuel, rfl⟩ : ∃ n, fuel = n + 1 := ⟨fuel - 1, by omega⟩
    rw [readElems, List.append_assoc, List.cons_append, List.cons_append,
      readJson_dumps x fuel _ hxs.1 (by omega) (ends_cons (by decide)), Option.bind_some]
    simp only [afterMark_comma, readElems_space,
      readElems_dumps (y :: xs) fuel t (List.cons_ne_nil y xs) hxs.2 (by omega), Option.map_some]

/-- The entries of an object, to the closing brace. -/
theorem readFields_dumps : ∀ (d : List (String × Json)) (fuel : Nat) (t : List Char), d ≠ [] →
    ReadableFields readFloat d → 2 * (joined (dumpsFields ensureAscii d)).length + 1 ≤ fuel →
    readFields readFloat (fuel + 1) (joined (dumpsFields ensureAscii d) ++ closing :: t) =
      some (d, t)
  | [], _, _, hne, _, _ => absurd rfl hne
  | [(k, v)], fuel, t, _, hd, hfuel => by
    rw [ReadableFields] at hd
    have htext : joined (dumpsFields ensureAscii [(k, v)]) = field ensureAscii k v := by
      simp only [dumpsFields, joined_singleton, field]
    rw [htext] at hfuel ⊢
    have hlen := length_field ensureAscii k v
    obtain ⟨fuel, rfl⟩ : ∃ n, fuel = n + 1 := ⟨fuel - 1, by omega⟩
    rw [readFields_field (by omega),
      readJson_dumps v fuel (closing :: t) hd.1 (by omega) (ends_cons (by decide))]
    rfl
  | (k, v) :: p :: d, fuel, t, _, hd, hfuel => by
    rw [ReadableFields] at hd
    have htext : joined (dumpsFields ensureAscii ((k, v) :: p :: d)) =
        field ensureAscii k v ++ ',' :: ' ' :: joined (dumpsFields ensureAscii (p :: d)) := by
      obtain ⟨k', v'⟩ := p
      simp only [dumpsFields, joined_cons_cons, field]
    rw [htext] at hfuel ⊢
    rw [List.length_append, List.length_cons, List.length_cons] at hfuel
    have hlen := length_field ensureAscii k v
    obtain ⟨fuel, rfl⟩ : ∃ n, fuel = n + 1 := ⟨fuel - 1, by omega⟩
    rw [List.append_assoc, readFields_field (by omega), List.cons_append, List.cons_append,
      readJson_dumps v fuel _ hd.1 (by omega) (ends_cons (by decide)), Option.bind_some]
    simp only [afterMark_comma, readFields_space,
      readFields_dumps (p :: d) fuel t (List.cons_ne_nil p d) hd.2 (by omega), Option.map_some]

end

/-- **`loads` inverts `dumps`.** -/
theorem loads_dumps {v : Json} (hv : Readable readFloat v) :
    loads readFloat (dumps ensureAscii v) = some v := by
  have hread := readJson_dumps v (2 * (dumps ensureAscii v).toList.length) [] hv (Nat.le_refl _)
    fun _ h => nomatch h
  rw [List.append_nil] at hread
  unfold loads
  rw [hread]
  rfl

end Values

/-! ## Texts on one line -/

section OneLine

variable {readFloat : FloatText} {ensureAscii : Bool} {n : Nat}

/-- No control characters. -/
def NoControl (t : List Char) : Prop := ∀ c ∈ t, 32 ≤ c.toNat

theorem NoControl.append {t u : List Char} (ht : NoControl t) (hu : NoControl u) :
    NoControl (t ++ u) := by
  intro c hc
  obtain hc | hc := List.mem_append.mp hc
  · exact ht c hc
  · exact hu c hc

theorem NoControl.cons {c : Char} {t : List Char} (hc : 32 ≤ c.toNat) (ht : NoControl t) :
    NoControl (c :: t) := List.forall_mem_cons.mpr ⟨hc, ht⟩

theorem noControl_escapeUnit (h : n < 65536) : NoControl (escapeUnit n).toList := by
  have hdigit : ∀ d < 16, 32 ≤ (Nat.digitChar d).toNat := by decide
  rw [toList_escapeUnit, toList_hex_four h]
  exact .cons (by decide) (.cons (by decide) (.cons (hdigit _ (by omega)) (.cons (hdigit _ (by omega))
    (.cons (hdigit _ (by omega)) (.cons (hdigit _ (by omega)) fun c hc => nomatch hc)))))

theorem noControl_singleton {c : Char} (h : 32 ≤ c.toNat) : NoControl (String.singleton c).toList := by
  rw [String.toList_singleton]
  exact .cons h fun c hc => nomatch hc

theorem noControl_of_all {t : List Char} (h : t.all (fun c => 32 ≤ c.toNat) = true) :
    NoControl t := fun c hc => of_decide_eq_true (List.all_eq_true.mp h c hc)

theorem noControl_backslash {d : String} (h : NoControl d.toList) :
    NoControl (backslash ++ d).toList := by
  rw [String.toList_append]
  exact (noControl_singleton (by decide)).append h

theorem noControl_dumpsChar (c : Char) : NoControl (dumpsChar ensureAscii c).toList := by
  have hvalid := toNat_lt c
  unfold dumpsChar
  split
  · exact noControl_backslash (noControl_singleton (by omega))
  · exact noControl_backslash (noControl_singleton (by omega))
  · exact noControl_backslash (noControl_of_all rfl)
  · exact noControl_backslash (noControl_of_all rfl)
  · exact noControl_backslash (noControl_of_all rfl)
  · exact noControl_backslash (noControl_of_all rfl)
  · exact noControl_backslash (noControl_of_all rfl)
  · split_ifs with hlow hplain hbasic
    · exact noControl_escapeUnit (by omega)
    · exact noControl_singleton (Nat.le_of_not_lt hlow)
    · exact noControl_escapeUnit hbasic
    · rw [String.toList_append]
      exact (noControl_escapeUnit (by omega)).append (noControl_escapeUnit (by omega))

theorem noControl_dumpsStr (s : String) : NoControl (dumpsStr ensureAscii s).toList := by
  rw [toList_dumpsStr]
  refine .cons (by decide) (.append (fun c hc => ?_) (.cons (by decide) fun c hc => nomatch hc))
  obtain ⟨d, -, hc⟩ := List.mem_flatMap.mp hc
  exact noControl_dumpsChar d c hc

theorem noControl_number {t : List Char} (h : ∀ c ∈ t, isJsonNumber c = true) : NoControl t := by
  intro c hc
  have hnumber := h c hc
  by_contra hlow
  have hdigit : c.isDigit = false := by
    rw [Bool.eq_false_iff]
    intro hdigit
    have hrange := Char.isDigit_iff_toNat.mp hdigit
    have hzero : '0'.toNat = 48 := rfl
    omega
  simp only [isJsonNumber, hdigit, Bool.false_or, Bool.or_eq_true, decide_eq_true_eq] at hnumber
  obtain (((rfl | rfl) | rfl) | rfl) | rfl := hnumber <;> exact hlow (by decide)

theorem noControl_joined {texts : List String} (h : ∀ u ∈ texts, NoControl u.toList) :
    NoControl (joined texts) := by
  induction texts with
  | nil => exact fun c hc => nomatch hc
  | cons u texts ih =>
    obtain ⟨hu, htexts⟩ := List.forall_mem_cons.mp h
    cases texts with
    | nil =>
      rw [joined_singleton]
      exact hu
    | cons v texts =>
      rw [joined_cons_cons]
      exact hu.append (.cons (by decide) (.cons (by decide) (ih htexts)))

mutual

/-- **The text of a value** has no control characters. -/
theorem noControl_dumps : ∀ v, Readable readFloat v → NoControl (dumps ensureAscii v).toList
  | .null, _ => by
    rw [dumps]
    exact noControl_of_all rfl
  | .bool b, _ => by
    rw [dumps]
    cases b <;> exact noControl_of_all rfl
  | .int n, _ => by
    obtain ⟨c, t, htext, -, hnumber⟩ := exists_toString n
    rw [dumps, htext]
    exact noControl_number hnumber
  | .float x, hx => by
    rw [Readable] at hx
    rw [dumps]
    exact noControl_number hx.chars
  | .str s, _ => by
    rw [dumps]
    exact noControl_dumpsStr s
  | .arr xs, hxs => by
    rw [Readable] at hxs
    rw [toList_dumps_arr]
    exact .cons (by decide) ((noControl_joined (noControl_dumpsList xs hxs)).append
      (.cons (by decide) fun c hc => nomatch hc))
  | .obj d, hd => by
    rw [Readable] at hd
    rw [toList_dumps_obj]
    exact .cons (by decide) ((noControl_joined (noControl_dumpsFields d hd.2)).append
      (.cons (by decide) fun c hc => nomatch hc))

theorem noControl_dumpsList : ∀ xs, ReadableList readFloat xs →
    ∀ u ∈ dumpsList ensureAscii xs, NoControl u.toList
  | [], _ => by
    rw [dumpsList]
    exact fun u hu => nomatch hu
  | x :: xs, h => by
    rw [ReadableList] at h
    rw [dumpsList]
    exact List.forall_mem_cons.mpr ⟨noControl_dumps x h.1, noControl_dumpsList xs h.2⟩

theorem noControl_dumpsFields : ∀ d, ReadableFields readFloat d →
    ∀ u ∈ dumpsFields ensureAscii d, NoControl u.toList
  | [], _ => by
    rw [dumpsFields]
    exact fun u hu => nomatch hu
  | (k, v) :: d, h => by
    rw [ReadableFields] at h
    rw [dumpsFields]
    refine List.forall_mem_cons.mpr ⟨?_, noControl_dumpsFields d h.2⟩
    rw [String.toList_append, String.toList_append]
    exact ((noControl_dumpsStr k).append (noControl_of_all rfl)).append
      (noControl_dumps v h.1)

end

end OneLine

end Llmops.Lib
