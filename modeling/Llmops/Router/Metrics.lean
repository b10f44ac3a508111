import Llmops.Lib.Exposition
import Llmops.Lib.Json
import Llmops.Lib.Text

/-!
# Reading an engine's metrics (`vllm_metrics_client.py`)

The text of `/metrics` is cut into lines by `str.splitlines`, and each line is matched with one
regular expression; the values of the lines with one name are added. A line that does not match is
passed over. The numbers are those of the format (`Floats`): `float` and the writer of the text read
a decimal number alike. Digits are the ASCII ones.

* `parseMetricLine_core`: which samples are read (`Plain`), as what;
* `get_parseMetrics`: the sums are those of the plain samples;
* `parse_metrics_iff`: the sums are those of the samples exactly if the others make no difference.
-/

namespace Llmops.Metrics

open Lib Lib.Exposition

/-! ## The parser -/

/-- Where `str.splitlines` cuts. After a carriage return a newline leaves an empty line, which the loop
passes over, and so is the one after the last newline. -/
def isBoundary (c : Char) : Bool :=
  let n := c.toNat
  (10 ≤ n && n ≤ 13) || (28 ≤ n && n ≤ 30) || n = 0x85 || n = 0x2028 || n = 0x2029

/-- `line.strip()`. -/
def stripLine (line : Text) : Text := ((line.dropWhile isSpace).reverse.dropWhile isSpace).reverse

/-- What comes after `[-+]?`. -/
def unsigned : Text → Text
  | [] => []
  | c :: t => if c = '-' || c = '+' then t else c :: t

/-- `(?:[eE][-+]?\d+)?$`. -/
def isExponent : Text → Bool
  | [] => true
  | c :: t => (c = 'e' || c = 'E') && !(unsigned t).isEmpty && (unsigned t).all Char.isDigit

/-- `[-+]?\d*\.?\d+(?:[eE][-+]?\d+)?$`. -/
def isNumber (t : Text) : Bool :=
  let u := unsigned t
  let rest := u.dropWhile Char.isDigit
  if rest.head? = some '.' then
    !(rest.tail.takeWhile Char.isDigit).isEmpty && isExponent (rest.tail.dropWhile Char.isDigit)
  else !(u.takeWhile Char.isDigit).isEmpty && isExponent rest

/-- `(\{[^}]*\})?`: what comes after it. -/
def afterLabels : Text → Option Text
  | [] => some []
  | c :: t =>
    if c = openBrace then
      match t.dropWhile fun c => c ≠ closeBrace with
      | [] => none
      | _ :: rest => some rest
    else some (c :: t)

/-- `_parse_metric_line`: the two groups of the match. No part of the expression can begin where the
part before could go on, so that there is one way to match. -/
def parseMetricLine (line : Text) : Option (Text × Text) := do
  let rest ← afterLabels (line.dropWhile isNameChar)
  let number := rest.dropWhile isSpace
  if line.head?.any isNameStart && decide (number.length < rest.length) && isNumber number then
    return (line.takeWhile isNameChar, number)
  else none

/-- A line that is neither empty nor a comment, parsed. -/
def readLine (line : Text) : Option (Text × Text) :=
  let line := stripLine line
  if line.isEmpty || line.head? = some '#' then none else parseMetricLine line

section Parse

variable {F : Type*} (fl : Floats F)

/-- `values[metric_name] = values.get(metric_name, 0.0) + metric_value`. -/
def addValue (values : Dict F) (metric : Text × Text) : Dict F :=
  let name := String.ofList metric.1
  values.set name (fl.add ((values.get name).getD fl.zero) (fl.ofText metric.2))

/-- `parse_metrics`. -/
def parseMetrics (text : Text) : Dict F :=
  ((text.splitOnP isBoundary).filterMap readLine).foldl (addValue fl) []

end Parse

/-! ## What is read -/

/-- The samples that the expression matches: the brace right after the name and a blank after the
other, no brace in a label value, no timestamp, and a number that is decimal and does not end its
fraction with the point. -/
def Plain (s : Sample) : Prop :=
  isNumber s.value.text = true ∧ s.stamp.isNone ∧ s.gap.text ≠ [] ∧
    ∀ p ∈ s.labels, p.1.text = [] ∧ ∀ l ∈ p.2.labels, closeBrace ∉ l.value

instance (s : Sample) : Decidable (Plain s) := inferInstanceAs (Decidable (_ ∧ _ ∧ _ ∧ _))

/-- No line holds a boundary but its newline. -/
def Whole (lines : List Line) : Prop := ∀ l ∈ lines, ∀ c ∈ l.render, isBoundary c = false

instance (lines : List Line) : Decidable (Whole lines) :=
  decidable_of_iff ((lines.all fun l => l.render.all fun c => !isBoundary c) = true)
    (by simp [Whole])

/-- For each name the sum of its samples is read, and nothing else. -/
def Reads {F : Type*} (fl : Floats F) (lines : List Line) : Prop :=
  ∀ name, (parseMetrics fl (render lines)).get name = sumOf fl (samples lines) name

section Numbers

variable {t : Text} {c : Char}

theorem isNumberChar_digit (h : c.isDigit = true) : isNumberChar c = true := by
  unfold isNumberChar Char.isAlphanum
  simp [h]

/-- A sign, or what comes after it. -/
theorem mem_unsigned (h : c ∈ t) : isNumberChar c = true ∨ c ∈ unsigned t := by
  cases t with
  | nil => cases h
  | cons d t =>
    rw [unsigned]
    split_ifs with hd
    · rcases List.mem_cons.mp h with rfl | h
      · left
        rcases Bool.or_eq_true_iff.mp hd with hd | hd
        · rw [of_decide_eq_true hd]
          decide
        · rw [of_decide_eq_true hd]
          decide
      · exact .inr h
    · exact .inr h

theorem isNumberChar_of_isExponent (h : isExponent t = true) (hc : c ∈ t) :
    isNumberChar c = true := by
  cases t with
  | nil => cases hc
  | cons d t =>
    unfold isExponent at h
    simp only [Bool.and_eq_true, Bool.or_eq_true, decide_eq_true_eq, List.all_eq_true] at h
    obtain ⟨⟨hd, -⟩, hall⟩ := h
    rcases List.mem_cons.mp hc with rfl | hc
    · rcases hd with rfl | rfl
      · decide
      · decide
    · rcases mem_unsigned hc with hsign | hc
      · exact hsign
      · exact isNumberChar_digit (hall c hc)

/-- Digits, and an exponent after them. -/
theorem isNumberChar_of_digits (h : isExponent (t.dropWhile Char.isDigit) = true) (hc : c ∈ t) :
    isNumberChar c = true := by
  rw [← List.takeWhile_append_dropWhile (p := Char.isDigit) (l := t)] at hc
  rcases List.mem_append.mp hc with hc | hc
  · exact isNumberChar_digit (List.mem_takeWhile_imp hc)
  · exact isNumberChar_of_isExponent h hc

/-- The characters of what the number pattern matches. -/
theorem isNumberChar_of_isNumber (h : isNumber t = true) (hc : c ∈ t) : isNumberChar c = true := by
  unfold isNumber at h
  rcases mem_unsigned hc with hsign | hc
  · exact hsign
  · simp only at h
    split_ifs at h with hpoint
    · obtain ⟨-, hexp⟩ := Bool.and_eq_true_iff.mp h
      obtain ⟨frac, hfrac⟩ : ∃ frac, (unsigned t).dropWhile Char.isDigit = '.' :: frac :=
        ⟨_, List.eq_cons_of_mem_head? hpoint⟩
      rw [← List.takeWhile_append_dropWhile (p := Char.isDigit) (l := unsigned t), hfrac] at hc
      rw [hfrac, List.tail_cons] at hexp
      rcases List.mem_append.mp hc with hc | hc
      · exact isNumberChar_digit (List.mem_takeWhile_imp hc)
      · rcases List.mem_cons.mp hc with rfl | hc
        · decide
        · exact isNumberChar_of_digits hexp hc
    · exact isNumberChar_of_digits (Bool.and_eq_true_iff.mp h).2 hc

end Numbers

/-! ## One sample -/

section Core

variable {s : Sample} {t : Text} {c : Char}

theorem isSpace_of_isBlank (h : isBlank c = true) : isSpace c = true := by
  unfold isBlank at h
  rcases Bool.or_eq_true_iff.mp h with h | h
  · rw [of_decide_eq_true h]
    decide
  · rw [of_decide_eq_true h]
    decide

/-- Letters and digits stand between the blank and the end of ASCII. -/
theorem toNat_of_isAlphanum (h : c.isAlphanum = true) : 33 ≤ c.toNat ∧ c.toNat < 128 := by
  unfold Char.isAlphanum Char.isAlpha Char.isUpper Char.isLower Char.isDigit at h
  simp only [Bool.or_eq_true, Bool.and_eq_true, decide_eq_true_eq, ge_iff_le,
    UInt32.le_iff_toNat_le] at h
  have hval : c.toNat = c.val.toNat := rfl
  have hA : 'A'.val.toNat = 65 := rfl
  have hZ : 'Z'.val.toNat = 90 := rfl
  have ha : 'a'.val.toNat = 97 := rfl
  have hz : 'z'.val.toNat = 122 := rfl
  have h0 : '0'.val.toNat = 48 := rfl
  have h9 : '9'.val.toNat = 57 := rfl
  omega

theorem not_isSpace_of_toNat (h : 33 ≤ c.toNat ∧ c.toNat < 128) : isSpace c = false := by
  unfold isSpace
  simp only [Bool.or_eq_false_iff, Bool.and_eq_false_iff, decide_eq_false_iff_not]
  omega

theorem not_isSpace_of_isNumberChar (h : isNumberChar c = true) : isSpace c = false := by
  unfold isNumberChar at h
  simp only [Bool.or_eq_true, decide_eq_true_eq] at h
  rcases h with (((h | rfl) | rfl) | rfl) | rfl
  · exact not_isSpace_of_toNat (toNat_of_isAlphanum h)
  · decide
  · decide
  · decide
  · decide

theorem not_isSpace_of_isNameChar (h : isNameChar c = true) : isSpace c = false := by
  unfold isNameChar isNameStart at h
  simp only [Bool.or_eq_true, decide_eq_true_eq] at h
  rcases h with ((h | rfl) | rfl) | h
  · exact not_isSpace_of_toNat (toNat_of_isAlphanum (by unfold Char.isAlphanum; simp [h]))
  · decide
  · decide
  · exact not_isSpace_of_toNat (toNat_of_isAlphanum (by unfold Char.isAlphanum; simp [h]))

/-- What a run of characters is cut from what comes after it. -/
theorem takeWhile_append {p : Char → Bool} {u t : Text} (hu : ∀ c ∈ u, p c = true)
    (ht : ∀ c ∈ t.head?, p c = false) :
    (u ++ t).takeWhile p = u ∧ (u ++ t).dropWhile p = t := by
  have htake : t.takeWhile p = [] := by
    cases t with
    | nil => rfl
    | cons c t => rw [List.takeWhile_cons, if_neg (by rw [ht c rfl]; exact Bool.false_ne_true)]
  rw [List.takeWhile_append_of_pos hu, List.dropWhile_append_of_pos hu, htake,
    dropWhile_eq_self.mpr ht, List.append_nil]
  exact ⟨rfl, rfl⟩

theorem core_head : s.core.head? = some s.name.first := rfl

/-- A text without the blanks around it. -/
theorem stripLine_append {a core b : Text} (ha : ∀ c ∈ a, isSpace c = true)
    (hb : ∀ c ∈ b, isSpace c = true) (hne : core ≠ [])
    (hhead : ∀ c ∈ core.head?, isSpace c = false) (hlast : ∀ c ∈ core.getLast?, isSpace c = false) :
    stripLine (a ++ core ++ b) = core := by
  have hhead' : ∀ c ∈ (core ++ b).head?, isSpace c = false := fun c hc => by
    rw [List.head?_append_of_ne_nil _ hne] at hc
    exact hhead c hc
  have hlast' : ∀ c ∈ core.reverse.head?, isSpace c = false := fun c hc => by
    rw [List.head?_reverse] at hc
    exact hlast c hc
  unfold stripLine
  rw [List.append_assoc, (takeWhile_append ha hhead').2, List.reverse_append,
    (takeWhile_append (fun c hc => hb c (List.mem_reverse.mp hc)) hlast').2, List.reverse_reverse]

theorem isSpace_of_gap (g : Gap) : ∀ c ∈ g.text, isSpace c = true := fun c hc =>
  isSpace_of_isBlank (g.blank c hc)

theorem core_getLast (h : c ∈ s.core.getLast?) : isSpace c = false := by
  have htoken : ∀ v : Token, c ∈ v.text.getLast? → isSpace c = false := fun v hc =>
    not_isSpace_of_isNumberChar (v.chars c (List.mem_of_getLast? hc))
  have hne : s.value.text ++ s.stampText ≠ [] := by simp [s.value.nonempty]
  unfold Sample.core at h
  rw [List.getLast?_append_of_ne_nil _ (by simp [hne]),
    List.getLast?_append_of_ne_nil _ (by simp [hne]), List.getLast?_append_of_ne_nil _ hne] at h
  unfold Sample.stampText at h
  cases hstamp : s.stamp with
  | none =>
    rw [hstamp, List.append_nil] at h
    exact htoken s.value h
  | some stamp =>
    rw [hstamp] at h
    have hstampNe : stamp.token.text ≠ [] := stamp.token.nonempty
    rw [List.getLast?_append_of_ne_nil _ (by simp [hstampNe]),
      List.getLast?_append_of_ne_nil _ hstampNe] at h
    exact htoken stamp.token h

/-- A sample without the blanks around it. -/
theorem stripLine_sample : stripLine (s.indent.text ++ s.core ++ s.last.text) = s.core := by
  refine stripLine_append (isSpace_of_gap _) (isSpace_of_gap _) (List.cons_ne_nil _ _)
    (fun c hc => ?_) fun c hc => core_getLast hc
  rw [core_head] at hc
  rw [← Option.some.inj hc]
  exact not_isSpace_of_isNameChar (by unfold isNameChar; rw [s.name.start]; rfl)

/-- A quote, a blank or a brace is no part of a number. -/
theorem isNumber_eq_false (h : c ∈ t) (hc : isNumberChar c = false) : isNumber t = false := by
  rw [← Bool.not_eq_true]
  intro hnumber
  rw [isNumberChar_of_isNumber hnumber h] at hc
  cases hc

/-- The value of a sample, followed by its timestamp: a number only without one. -/
theorem isNumber_valueText : isNumber (s.value.text ++ s.stampText) =
    (isNumber s.value.text && s.stamp.isNone) := by
  unfold Sample.stampText
  cases hstamp : s.stamp with
  | none => simp
  | some stamp =>
    obtain ⟨c, hc⟩ := List.exists_mem_of_ne_nil _ stamp.separate
    have hblank : isNumberChar c = false := by
      have hspace := isSpace_of_gap _ c hc
      rw [← Bool.not_eq_true]
      intro hnumber
      rw [not_isSpace_of_isNumberChar hnumber] at hspace
      cases hspace
    rw [isNumber_eq_false (by simp [hc]) hblank]
    simp

/-- What comes after the labels of a sample. -/
def rest (s : Sample) : Text := s.gap.text ++ (s.value.text ++ s.stampText)

theorem not_isNameChar_of_isBlank (h : isBlank c = true) : isNameChar c = false := by
  rw [← Bool.not_eq_true]
  intro hname
  have hspace := isSpace_of_isBlank h
  rw [not_isSpace_of_isNameChar hname] at hspace
  cases hspace

/-- The first character of blanks, or of what comes after them. -/
theorem mem_head_append {u : Text} (h : c ∈ (u ++ t).head?) : c ∈ u ∨ u = [] ∧ c ∈ t.head? := by
  cases u with
  | nil => exact .inr ⟨rfl, h⟩
  | cons d u =>
    left
    rw [← Option.some.inj h]
    exact List.mem_cons_self

/-- The name of a sample is read to its end. -/
theorem takeWhile_core : s.core.takeWhile isNameChar = s.name.text ∧
    s.core.dropWhile isNameChar = s.labelText ++ rest s := by
  refine takeWhile_append (fun c hc => ?_) fun c hc => ?_
  · rcases List.mem_cons.mp hc with rfl | hc
    · unfold isNameChar
      rw [s.name.start]
      rfl
    · exact s.name.chars c hc
  · unfold Sample.labelText at hc
    cases hlabels : s.labels with
    | none =>
      rw [hlabels, List.nil_append] at hc
      rcases mem_head_append hc with hc | ⟨hnil, -⟩
      · exact not_isNameChar_of_isBlank (s.gap.blank c hc)
      · exact absurd hnil (s.separate hlabels)
    | some p =>
      obtain ⟨gap, set⟩ := p
      rw [hlabels] at hc
      simp only [List.append_assoc] at hc
      rcases mem_head_append hc with hc | ⟨-, hc⟩
      · exact not_isNameChar_of_isBlank (gap.blank c hc)
      · rw [← Option.some.inj hc]
        decide

/-- The number that is read, from what comes after the labels. -/
theorem parseMetricLine_rest {r : Text} (h : afterLabels (s.labelText ++ rest s) = some r) :
    parseMetricLine s.core =
      if (r.dropWhile isSpace).length < r.length ∧ isNumber (r.dropWhile isSpace) = true then
        some (s.name.text, r.dropWhile isSpace)
      else none := by
  have hhead : s.core.head?.any isNameStart = true := by
    rw [core_head, Option.any_some, s.name.start]
  unfold parseMetricLine
  rw [takeWhile_core.1, takeWhile_core.2, h]
  simp only [Option.bind_eq_bind, Option.bind_some, hhead, Bool.true_and, Bool.and_eq_true,
    decide_eq_true_eq]
  rfl

theorem dropWhile_rest : (rest s).dropWhile isSpace = s.value.text ++ s.stampText := by
  refine (takeWhile_append (isSpace_of_gap _) fun c hc => ?_).2
  rw [List.head?_append_of_ne_nil _ s.value.nonempty] at hc
  exact not_isSpace_of_isNumberChar (s.value.chars c (List.mem_of_mem_head? hc))

/-- A sample whose labels end where the expression has them end. -/
theorem parseMetricLine_of_rest (h : afterLabels (s.labelText ++ rest s) = some (rest s)) :
    parseMetricLine s.core =
      if s.gap.text ≠ [] ∧ isNumber s.value.text = true ∧ s.stamp.isNone then
        some (s.name.text, s.value.text)
      else none := by
  rw [parseMetricLine_rest h, dropWhile_rest, isNumber_valueText]
  have hlen : (s.value.text ++ s.stampText).length < (rest s).length ↔ s.gap.text ≠ [] := by
    unfold rest
    simp only [← List.length_pos_iff, List.length_append]
    omega
  simp only [hlen, Bool.and_eq_true]
  split_ifs with hplain
  · obtain ⟨-, -, hstamp⟩ := hplain
    have hnone : s.stampText = [] := by
      unfold Sample.stampText
      rw [Option.isNone_iff_eq_none.mp hstamp]
    rw [hnone, List.append_nil]
  · rfl

/-- A sample after whose labels, as the expression has them, comes what is no part of a number. -/
theorem parseMetricLine_of_other {r : Text} (h : afterLabels (s.labelText ++ rest s) = some r)
    (hc : c ∈ r) (hspace : isSpace c = false) (hnumber : isNumberChar c = false) :
    parseMetricLine s.core = none := by
  have hmem : c ∈ r.dropWhile isSpace := by
    rw [← List.takeWhile_append_dropWhile (p := isSpace) (l := r)] at hc
    rcases List.mem_append.mp hc with hc | hc
    · rw [List.mem_takeWhile_imp hc] at hspace
      cases hspace
    · exact hc
  rw [parseMetricLine_rest h, if_neg]
  rw [isNumber_eq_false hmem hnumber]
  simp

/-- The search for the closing brace ends at the first one, before what comes after any. -/
theorem dropWhile_brace (before after : Text) : ∃ found,
    ((before ++ closeBrace :: after).dropWhile fun c => c ≠ closeBrace) = closeBrace :: found ∧
      after <:+ found := by
  induction before with
  | nil => exact ⟨after, by simp, List.suffix_rfl⟩
  | cons c before ih =>
    by_cases hc : c = closeBrace
    · subst hc
      exact ⟨before ++ closeBrace :: after, by simp, (List.suffix_cons _ _).trans
        (List.suffix_append _ _)⟩
    · obtain ⟨found, hfound, hsuffix⟩ := ih
      refine ⟨found, ?_, hsuffix⟩
      rw [List.cons_append, List.dropWhile_cons, if_pos (by simpa using hc), hfound]

theorem afterLabels_brace {before after : Text} (h : closeBrace ∉ before) :
    afterLabels (openBrace :: (before ++ closeBrace :: after)) = some after := by
  have hdrop : ((before ++ closeBrace :: after).dropWhile fun c => c ≠ closeBrace) =
      closeBrace :: after :=
    (takeWhile_append (fun c hc => by
      have hne : c ≠ closeBrace := fun heq => h (heq ▸ hc)
      simpa using hne) (by simp)).2
  unfold afterLabels
  simp only [if_true, hdrop]

theorem afterLabels_of_head (h : c ≠ openBrace) : afterLabels (c :: t) = some (c :: t) := by
  unfold afterLabels
  simp only [h, if_false]

theorem not_isBlank_openBrace : isBlank openBrace = false := by decide

/-- **A sample** is read exactly if it is a plain one. -/
theorem parseMetricLine_core : parseMetricLine s.core =
    if Plain s then some (s.name.text, s.value.text) else none := by
  cases hlabels : s.labels with
  | none =>
    have htext : s.labelText = [] := by
      unfold Sample.labelText
      rw [hlabels]
    have hafter : afterLabels (s.labelText ++ rest s) = some (rest s) := by
      rw [htext, List.nil_append, rest]
      obtain ⟨c, t, hgap⟩ := List.exists_cons_of_ne_nil (s.separate hlabels)
      rw [hgap, List.cons_append]
      refine afterLabels_of_head fun hc => ?_
      have hblank := s.gap.blank c (by rw [hgap]; exact List.mem_cons_self)
      rw [hc, not_isBlank_openBrace] at hblank
      cases hblank
    rw [parseMetricLine_of_rest hafter]
    refine if_congr ?_ rfl rfl
    unfold Plain
    rw [hlabels]
    simp only [Option.mem_def, reduceCtorEq, false_implies, implies_true, and_true]
    tauto
  | some p =>
    obtain ⟨gap, set⟩ := p
    have htext : s.labelText ++ rest s =
        gap.text ++ openBrace :: (set.inside ++ closeBrace :: rest s) := by
      unfold Sample.labelText
      rw [hlabels]
      simp
    by_cases hgap : gap.text = []
    · rw [hgap, List.nil_append] at htext
      by_cases hbrace : ∃ l ∈ set.labels, closeBrace ∈ l.value
      · obtain ⟨l, hl, hmem⟩ := hbrace
        -- the labels are cut inside of a value: its closing quote is left
        obtain ⟨before, after, hinside, hquote⟩ := LabelSet.quote_after_brace hl hmem
        obtain ⟨found, hfound, hsuffix⟩ := dropWhile_brace before (after ++ closeBrace :: rest s)
        have hafter : afterLabels (s.labelText ++ rest s) = some found := by
          rw [htext, hinside, List.append_assoc, List.cons_append]
          unfold afterLabels
          simp only [if_true, hfound]
        rw [parseMetricLine_of_other hafter (hsuffix.mem (List.mem_append_left _ hquote)) (by decide)
          (by decide), if_neg]
        rintro ⟨-, -, -, hplain⟩
        exact (hplain _ hlabels).2 l hl hmem
      · push Not at hbrace
        have hafter : afterLabels (s.labelText ++ rest s) = some (rest s) := by
          rw [htext, afterLabels_brace (LabelSet.brace_notMem hbrace)]
        rw [parseMetricLine_of_rest hafter]
        refine if_congr ?_ rfl rfl
        unfold Plain
        rw [hlabels]
        simp only [Option.mem_def, Option.some.injEq, forall_eq', hgap, true_and]
        tauto
    · have hafter : afterLabels (s.labelText ++ rest s) = some (s.labelText ++ rest s) := by
        rw [htext]
        obtain ⟨c, t, heq⟩ := List.exists_cons_of_ne_nil hgap
        rw [heq, List.cons_append]
        refine afterLabels_of_head fun hc => ?_
        have hblank := gap.blank c (by rw [heq]; exact List.mem_cons_self)
        rw [hc, not_isBlank_openBrace] at hblank
        cases hblank
      have hmem : openBrace ∈ s.labelText ++ rest s := by
        rw [htext]
        exact List.mem_append_right _ List.mem_cons_self
      rw [parseMetricLine_of_other hafter hmem (by decide) (by decide), if_neg]
      rintro ⟨-, -, -, hplain⟩
      exact hgap (hplain _ hlabels).1

end Core

/-! ## All samples -/

section Sums

variable {F : Type*} {fl : Floats F} {lines : List Line} {l : Line} {s : Sample} {name : String}
  {metrics : List (Text × Text)}

/-- What the lines of a text hold, each read by itself. -/
theorem splitOnP_render (h : Whole lines) :
    (render lines).splitOnP isBoundary = lines.map Line.render ++ [[]] := by
  induction lines with
  | nil => rfl
  | cons l lines ih =>
    obtain ⟨hl, h⟩ := List.forall_mem_cons.mp h
    have hrender : render (l :: lines) = l.render ++ '\n' :: render lines := by
      unfold render
      rw [List.flatMap_cons, List.append_assoc]
      rfl
    rw [hrender, List.splitOnP_append_cons_of_forall_mem hl '\n' (by decide), ih h]
    rfl

/-- What a line is read as. -/
theorem readLine_render : readLine l.render =
    match l with
    | .sample s => if Plain s then some (s.name.text, s.value.text) else none
    | _ => none := by
  cases l with
  | blank gap =>
    have hnil : stripLine gap.text = [] := by
      unfold stripLine
      rw [List.dropWhile_eq_nil_iff.mpr (isSpace_of_gap gap)]
      rfl
    simp only [Line.render, readLine, hnil]
    rfl
  | comment indent text oneLine =>
    have hdrop : (indent.text ++ '#' :: text).dropWhile isSpace = '#' :: text :=
      (takeWhile_append (isSpace_of_gap indent) fun c hc => by
        rw [← Option.some.inj hc]
        decide).2
    have hhash : ∃ u, stripLine (indent.text ++ '#' :: text) = '#' :: u := by
      unfold stripLine
      rw [hdrop, List.reverse_cons, List.dropWhile_append]
      split_ifs with hempty
      · exact ⟨[], rfl⟩
      · rw [List.reverse_append]
        exact ⟨_, rfl⟩
    obtain ⟨u, hu⟩ := hhash
    simp only [Line.render, readLine, hu]
    rfl
  | sample s =>
    have hne : s.core.isEmpty = false := rfl
    have hhash : s.core.head? ≠ some '#' := by
      rw [core_head]
      intro h
      have hstart := s.name.start
      rw [Option.some.inj h] at hstart
      exact absurd hstart (by decide)
    simp only [Line.render, readLine, stripLine_sample, hne, hhash, Bool.false_or,
      decide_false, Bool.false_eq_true, if_false, parseMetricLine_core]

/-- The lines that are read are the plain samples. -/
theorem filterMap_render : (lines.map Line.render).filterMap readLine =
    ((samples lines).filter fun s => Plain s).map fun s => (s.name.text, s.value.text) := by
  induction lines with
  | nil => rfl
  | cons l lines ih =>
    rw [List.map_cons, List.filterMap_cons, ih, readLine_render]
    cases l with
    | blank gap => rfl
    | comment indent text oneLine => rfl
    | sample s =>
      have hsamples : samples (.sample s :: lines) = s :: samples lines := rfl
      rw [hsamples, List.filter_cons]
      by_cases hplain : Plain s
      · simp [hplain]
      · simp [hplain]

theorem total_concat {xs : List F} {x : F} :
    fl.total (xs ++ [x]) = some (fl.add ((fl.total xs).getD fl.zero) x) := by
  cases xs with
  | nil => rfl
  | cons y ys =>
    unfold Floats.total
    rw [List.cons_append]
    simp only [Option.getD_some, ← List.cons_append, List.foldl_append]
    rfl

/-- **The sums** by name. -/
theorem get_foldl_addValue : (metrics.foldl (addValue fl) []).get name =
    fl.total ((metrics.filter fun m => String.ofList m.1 = name).map fun m => fl.ofText m.2) := by
  induction metrics using List.reverseRecOn with
  | nil => rfl
  | append_singleton metrics m ih =>
    rw [List.foldl_append, List.filter_append, List.map_append]
    generalize metrics.foldl (addValue fl) [] = values at ih ⊢
    change Dict.get (values.set (String.ofList m.1) _) name = _
    rw [Dict.get_set]
    by_cases hname : name = String.ofList m.1
    · subst hname
      rw [if_pos rfl, ih, List.filter_singleton]
      simp [total_concat]
    · rw [if_neg hname, ih]
      simp [Ne.symm hname]

/-- **The sums** that are read are those of the plain samples. -/
theorem get_parseMetrics (h : Whole lines) : (parseMetrics fl (render lines)).get name =
    sumOf fl ((samples lines).filter fun s => Plain s) name := by
  have hnil : readLine [] = none := by decide
  unfold parseMetrics sumOf
  rw [splitOnP_render h, List.filterMap_append, filterMap_render, List.filterMap_cons, hnil,
    List.filterMap_nil, List.append_nil, get_foldl_addValue, List.filter_map, List.map_map]
  rfl

/-- **The sums** of a text without other boundaries are those of its samples exactly if the samples
that are not plain make no difference; a sample alone is read exactly if it is plain. -/
theorem parse_metrics_iff (h : Whole lines) :
    (Reads fl lines ↔ ∀ name, sumOf fl ((samples lines).filter fun s => Plain s) name =
      sumOf fl (samples lines) name) ∧
    ((∀ s ∈ samples lines, Plain s) → Reads fl lines) ∧
    ∀ s, lines = [.sample s] → (Reads fl lines ↔ Plain s) := by
  have hiff : Reads fl lines ↔ ∀ name, sumOf fl ((samples lines).filter fun s => Plain s) name =
      sumOf fl (samples lines) name := by
    unfold Reads
    simp only [get_parseMetrics h]
  refine ⟨hiff, fun hplain => hiff.mpr fun name => ?_, ?_⟩
  · rw [List.filter_eq_self.mpr fun s hs => decide_eq_true (hplain s hs)]
  · rintro s rfl
    rw [hiff]
    have hsamples : samples [.sample s] = [s] := rfl
    rw [hsamples]
    by_cases hplain : Plain s
    · simp [hplain]
    · refine iff_of_false (fun hall => ?_) hplain
      have hname := hall (String.ofList s.name.text)
      simp [hplain, sumOf, Floats.total] at hname

end Sums

/-! ## The metrics of an instance -/

/-- The names of the five metrics. -/
structure MetricNames where
  running : String
  waiting : String
  kvCacheUsagePerc : String
  promptTokens : String
  generationTokens : String

/-- `METRIC_NAMES_BY_ENGINE.get(engine, METRIC_NAMES)`. -/
def metricNames (engine : String) : MetricNames :=
  if engine = "sglang" then ⟨"sglang:num_running_reqs", "sglang:num_queue_reqs", "sglang:token_usage",
    "sglang:prompt_tokens_total", "sglang:generation_tokens_total"⟩
  else ⟨"vllm:num_requests_running", "vllm:num_requests_waiting", "vllm:kv_cache_usage_perc",
    "vllm:prompt_tokens", "vllm:generation_tokens"⟩

/-- The numbers of a `VLLMInstanceMetrics`. -/
structure InstanceMetrics (F : Type*) where
  running : F
  waiting : F
  kvCacheUsagePerc : F
  promptTokens : F
  generationTokens : F

/-- Five numbers by their names. -/
def InstanceMetrics.ofNames {F : Type*} (names : MetricNames) (value : String → F) :
    InstanceMetrics F :=
  ⟨value names.running, value names.waiting, value names.kvCacheUsagePerc, value names.promptTokens,
    value names.generationTokens⟩

/-- `fetch`, from the text of the response. -/
def fetch {F : Type*} (fl : Floats F) (engine : String) (text : Text) : InstanceMetrics F :=
  let parsed := parseMetrics fl text
  .ofNames (metricNames engine) fun name => (parsed.get name).getD fl.zero

/-- What is fetched of a text that is read right: the sums, zero where there is no sample. -/
theorem fetch_of_reads {F : Type*} {fl : Floats F} {lines : List Line} {engine : String}
    (h : Reads fl lines) : fetch fl engine (render lines) =
      .ofNames (metricNames engine) fun name => (sumOf fl (samples lines) name).getD fl.zero := by
  have hvalue : (fun name => ((parseMetrics fl (render lines)).get name).getD fl.zero) =
      fun name => (sumOf fl (samples lines) name).getD fl.zero := by
    funext name
    rw [h name]
  exact congrArg (InstanceMetrics.ofNames _) hvalue

/-! ## A brace in a label -/

/-- Whole numbers in decimal. -/
def decimals : Floats Nat where
  ofText t := t.foldl (fun n c => n * 10 + (c.toNat - 48)) 0
  zero := 0
  add := (· + ·)

/-- No blanks. -/
def noGap : Gap := ⟨[], by simp⟩

/-- One blank. -/
def oneBlank : Gap := ⟨[' '], by simp [isBlank]⟩

/-- `vllm:num_requests_waiting{model_name="..."} 5`. -/
def waiting (modelName : Text) : Sample where
  indent := noGap
  name := ⟨'v', "llm:num_requests_waiting".toList, by decide, List.all_eq_true.mp (by decide +kernel)⟩
  labels := some (noGap, ⟨[⟨noGap, ⟨'m', "odel_name".toList, by decide,
    List.all_eq_true.mp (by decide +kernel)⟩, noGap, noGap, modelName, noGap⟩], false, noGap⟩)
  gap := oneBlank
  separate := by simp
  value := ⟨['5'], by simp, List.all_eq_true.mp (by decide)⟩
  stamp := none
  last := noGap

/-- Five waiting requests of a model called `a}b`, which are not read. -/
theorem brace_unread : ¬ Reads decimals [.sample (waiting ['a', closeBrace, 'b'])] := by
  intro h
  have hname := h "vllm:num_requests_waiting"
  revert hname
  decide +kernel

/-- A comment, and the waiting requests of two models. -/
def scrape : List Line :=
  [.comment noGap " TYPE vllm:num_requests_waiting gauge".toList (by decide +kernel),
    .sample (waiting ['a', 'b']), .sample (waiting ['c', 'd'])]

/-- The requests of the two are added up; those of one are read alone. -/
theorem parse_metrics_iff_scrape :
    (Reads decimals scrape ↔ ∀ name, sumOf decimals ((samples scrape).filter fun s => Plain s) name =
      sumOf decimals (samples scrape) name) ∧
    Reads decimals scrape ∧ sumOf decimals (samples scrape) "vllm:num_requests_waiting" = some 10 ∧
    (Reads decimals [.sample (waiting ['a', 'b'])] ↔ Plain (waiting ['a', 'b'])) := by
  have hwhole : Whole scrape := by decide +kernel
  have hplain : ∀ s ∈ samples scrape, Plain s := by decide +kernel
  have hscrape := @parse_metrics_iff Nat decimals scrape hwhole
  have hone := @parse_metrics_iff Nat decimals [.sample (waiting ['a', 'b'])] (by decide +kernel)
  exact ⟨hscrape.1, hscrape.2.1 hplain, by decide +kernel, hone.2.2 _ rfl⟩

end Llmops.Metrics
