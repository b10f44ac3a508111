import Mathlib

/-!
# Python text and UTF-8

A Python `str` is a list of code points, and a code point may be one half of a surrogate pair that
stands alone (`json.loads` reads `"\ud83d"` as such). `str.encode("utf-8")` raises a
`UnicodeEncodeError` on those, here `none`.

* `encodeUtf8_isSome_iff`: what can be encoded is text without surrogates.
-/

namespace Llmops.Lib

/-- Python text. -/
abbrev PyText := List (Fin 0x110000)

/-- A code point that is reserved for surrogate pairs. -/
def IsSurrogate (c : Fin 0x110000) : Prop := 0xD800 ≤ c.val ∧ c.val ≤ 0xDFFF

instance : DecidablePred IsSurrogate := fun _ => inferInstanceAs (Decidable (_ ∧ _))

/-- A continuation byte: six bits of the code point. -/
def continuation (n : Nat) : UInt8 := .ofNat (0x80 + n % 0x40)

/-- The bytes of one code point. -/
def encodeChar (c : Fin 0x110000) : Option (List UInt8) :=
  let n := c.val
  if IsSurrogate c then none
  else if n < 0x80 then some [.ofNat n]
  else if n < 0x800 then some [.ofNat (0xC0 + n / 0x40), continuation n]
  else if n < 0x10000 then
    some [.ofNat (0xE0 + n / 0x1000), continuation (n / 0x40), continuation n]
  else some [.ofNat (0xF0 + n / 0x40000), continuation (n / 0x1000), continuation (n / 0x40),
    continuation n]

/-- `str.encode("utf-8")`. -/
def encodeUtf8 : PyText → Option (List UInt8)
  | [] => some []
  | c :: text => do return (← encodeChar c) ++ (← encodeUtf8 text)

/-- Text that UTF-8 can encode. -/
def NoSurrogate (text : PyText) : Prop := ∀ c ∈ text, ¬ IsSurrogate c

instance (text : PyText) : Decidable (NoSurrogate text) :=
  List.decidableBAll (fun c => ¬ IsSurrogate c) text

theorem encodeChar_isSome_iff {c : Fin 0x110000} :
    (encodeChar c).isSome = true ↔ ¬ IsSurrogate c := by
  unfold encodeChar
  dsimp only
  split_ifs with h <;> simp [h]

/-- **UTF-8 encodes the text without surrogates**, and nothing else. -/
theorem encodeUtf8_isSome_iff {text : PyText} :
    (encodeUtf8 text).isSome = true ↔ NoSurrogate text := by
  induction text with
  | nil => exact iff_of_true rfl fun _ h => absurd h List.not_mem_nil
  | cons c text ih =>
    rw [NoSurrogate, List.forall_mem_cons, ← encodeChar_isSome_iff, ← NoSurrogate, ← ih, encodeUtf8]
    cases encodeChar c <;> cases encodeUtf8 text <;> simp

example : encodeUtf8 [0x67, 0xE9, 0x20AC, 0x1F600] =
    some [0x67, 0xC3, 0xA9, 0xE2, 0x82, 0xAC, 0xF0, 0x9F, 0x98, 0x80] := by decide

end Llmops.Lib
