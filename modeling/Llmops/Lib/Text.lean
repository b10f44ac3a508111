import Mathlib

/-!
# Python's string methods

`str.strip`, `str.partition`, and `str.lower` where it is compared with an ASCII text, on `String`.
The names are Python's.
-/

namespace Llmops.Lib

/-- `str.isspace` of one character. -/
def isSpace (c : Char) : Bool :=
  let n := c.toNat
  (9 ≤ n && n ≤ 13) || (28 ≤ n && n ≤ 32) || n = 0x85 || n = 0xA0 || n = 0x1680 ||
    (0x2000 ≤ n && n ≤ 0x200A) || n = 0x2028 || n = 0x2029 || n = 0x202F || n = 0x205F || n = 0x3000

/-- `str.strip()`. -/
def strip (s : String) : String :=
  .ofList ((s.toList.dropWhile isSpace).reverse.dropWhile isSpace).reverse

/-- A text of nothing but blanks. -/
theorem isSpace_of_strip {s : String} {c : Char} (h : strip s = "") (hc : c ∈ s.toList) :
    isSpace c = true := by
  have hnil : s.toList.dropWhile isSpace = [] := by
    by_contra hne
    have hlast : (s.toList.dropWhile isSpace).reverse.dropWhile isSpace = [] := by
      have := congrArg String.toList h
      simpa [strip] using this
    have hall := List.dropWhile_eq_nil_iff.mp hlast
    have hhead := List.head_dropWhile_not isSpace hne
    have hmem := List.head_mem hne
    rw [hall _ (List.mem_reverse.mpr hmem)] at hhead
    exact absurd hhead (by decide)
  exact List.dropWhile_eq_nil_iff.mp hnil c hc

/-- Nothing is dropped from a list whose first element stays. -/
theorem dropWhile_eq_self {α : Type*} {p : α → Bool} {l : List α} :
    l.dropWhile p = l ↔ ∀ x ∈ l.head?, p x = false := by
  cases l with
  | nil => simp
  | cons x l =>
    rw [List.head?_cons]
    by_cases hx : p x = true
    · have hshort : (l.dropWhile p).length < (x :: l).length :=
        Nat.lt_succ_of_le (List.dropWhile_sublist p).length_le
      refine iff_of_false (fun h => ?_) fun h => ?_
      · rw [List.dropWhile_cons_of_pos hx] at h
        rw [h] at hshort
        exact lt_irrefl _ hshort
      · rw [h x rfl] at hx
        cases hx
    · refine iff_of_true (List.dropWhile_cons_of_neg hx) fun y hy => ?_
      rw [← Option.some.inj hy]
      simpa using hx

/-- A text is not stripped exactly if it does not begin or end with a blank. -/
theorem strip_eq_self_iff {s : String} : strip s = s ↔
    (∀ c ∈ s.toList.head?, isSpace c = false) ∧ ∀ c ∈ s.toList.getLast?, isSpace c = false := by
  have hlast : (∀ c ∈ s.toList.getLast?, isSpace c = false) ↔
      s.toList.reverse.dropWhile isSpace = s.toList.reverse := by
    rw [dropWhile_eq_self, List.head?_reverse]
  have hstrip : strip s = s ↔
      ((s.toList.dropWhile isSpace).reverse.dropWhile isSpace).reverse = s.toList := by
    unfold strip
    rw [← String.toList_inj, String.toList_ofList]
  rw [hstrip, ← dropWhile_eq_self, hlast]
  constructor
  · intro h
    have hle := (List.dropWhile_sublist (l := (s.toList.dropWhile isSpace).reverse) isSpace).length_le
    have hfirst : s.toList.dropWhile isSpace = s.toList := by
      refine (List.dropWhile_sublist isSpace).eq_of_length_le ?_
      have hlen := congrArg List.length h
      rw [List.length_reverse] at hlen hle
      omega
    refine ⟨hfirst, ?_⟩
    rw [hfirst] at h
    exact List.reverse_eq_iff.mp h
  · rintro ⟨hfirst, hend⟩
    rw [hfirst, hend, List.reverse_reverse]

/-- `s.lower()`, as far as it is compared with an ASCII text. -/
def lower (s : String) : String := s.map Char.toLower

/-- `s.startswith(text)`. -/
def startsWith (s text : String) : Bool := text.toList.isPrefixOf s.toList

theorem startsWith_iff {s text : String} : startsWith s text = true ↔ text.toList <+: s.toList :=
  List.isPrefixOf_iff_prefix

/-- `s.lower().startswith(text)` for a lower-case ASCII `text`. -/
def lowerStartsWith (s text : String) : Bool :=
  text.toList.isPrefixOf (s.toList.map Char.toLower)

/-- `s[n:]`. -/
def sliceFrom (s : String) (n : Nat) : String := .ofList (s.toList.drop n)

/-- The parts of a text before and after the first `sep`. -/
def splitFirst (sep : List Char) : List Char → Option (List Char × List Char)
  | [] => none
  | c :: cs =>
    if sep.isPrefixOf (c :: cs) then some ([], (c :: cs).drop sep.length)
    else (splitFirst sep cs).map fun parts => (c :: parts.1, parts.2)

/-- `s.partition(sep)`, without the separator. -/
def partition (s sep : String) : String × String :=
  match splitFirst sep.toList s.toList with
  | some (before, after) => (.ofList before, .ofList after)
  | none => (s, "")

/-- A text is split between its parts exactly if the separator, a doubled character, does not occur
earlier: neither inside the first part nor across its end. -/
theorem splitFirst_eq_iff {c : Char} {before after : List Char} :
    splitFirst [c, c] (before ++ c :: c :: after) = some (before, after) ↔
      ¬ [c, c] <:+: before ++ [c] := by
  induction before with
  | nil =>
    have hshort : ¬ [c, c] <:+: [c] := fun h => by simpa using h.length_le
    simpa [splitFirst] using hshort
  | cons d before ih =>
    have hstart : [c, c] <+: d :: (before ++ c :: c :: after) ↔ [c, c] <+: d :: (before ++ [c]) := by
      cases before <;> simp
    rw [List.cons_append, splitFirst, List.cons_append, List.infix_cons_iff, not_or, ← ih]
    by_cases h : [c, c] <+: d :: (before ++ [c])
    · rw [if_pos (List.isPrefixOf_iff_prefix.mpr (hstart.mpr h))]
      simp [h]
    · rw [if_neg (mt List.isPrefixOf_iff_prefix.mp (mt hstart.mp h))]
      cases splitFirst [c, c] (before ++ c :: c :: after) <;> simp [h, Prod.ext_iff]

/-- What is split is the text. -/
theorem splitFirst_append {sep cs before after : List Char}
    (h : splitFirst sep cs = some (before, after)) : cs = before ++ sep ++ after := by
  induction cs generalizing before with
  | nil => cases h
  | cons c cs ih =>
    rw [splitFirst] at h
    split_ifs at h with hsep
    · obtain ⟨rest, hrest⟩ := List.isPrefixOf_iff_prefix.mp hsep
      rw [← hrest] at h ⊢
      cases h
      simp
    · obtain ⟨⟨before', after'⟩, hparts, h⟩ := Option.map_eq_some_iff.mp h
      cases h
      rw [ih hparts]
      rfl

/-- A text that has the separator in it is split. -/
theorem splitFirst_isSome {sep before after : List Char} :
    (splitFirst sep (before ++ sep ++ after)).isSome ∨ sep = [] := by
  by_cases hnil : sep = []
  · exact .inr hnil
  refine .inl ?_
  induction before with
  | nil =>
    obtain ⟨c, cs, rfl⟩ := List.exists_cons_of_ne_nil hnil
    have hstart : (c :: cs).isPrefixOf (c :: (cs ++ after)) = true :=
      List.isPrefixOf_iff_prefix.mpr ⟨after, rfl⟩
    rw [List.nil_append, List.cons_append, splitFirst, if_pos hstart]
    rfl
  | cons d before ih =>
    rw [List.cons_append, List.cons_append, splitFirst]
    split_ifs
    · rfl
    · rw [Option.isSome_map]
      exact ih

example : partition "Qwen::a::b" "::" = ("Qwen", "a::b") := by decide

/-- A text is split at the first of a character. -/
theorem splitFirst_singleton {c : Char} {before after : List Char} (h : c ∉ before) :
    splitFirst [c] (before ++ c :: after) = some (before, after) := by
  induction before with
  | nil => simp [splitFirst]
  | cons d before ih =>
    obtain ⟨hd, hbefore⟩ := not_or.mp (mt List.mem_cons.mpr h)
    rw [List.cons_append, splitFirst, if_neg, ih hbefore]
    · rfl
    · simpa using hd

/-- `str.isascii`. -/
def isAscii (s : String) : Bool := s.toList.all fun c => c.toNat < 128

/-- A text that Python takes for true. -/
def truthy (s : Option String) : Option String := s.filter (· ≠ "")

theorem truthy_eq_some {s : Option String} {t : String} :
    truthy s = some t ↔ s = some t ∧ t ≠ "" := by
  simp [truthy, Option.filter_eq_some_iff]

end Llmops.Lib
