import Mathlib

/-!
# The text exposition format of Prometheus

A text of lines, each a blank one, a comment or a sample: a name, labels in braces, a value and a
timestamp, with blanks and tabs between them. A label value is any text; its backslashes, quotes and
newlines are escaped. What a value is worth is left open (`Floats`).

* `render`: the text of the lines;
* `LabelSet.brace_notMem`, `LabelSet.quote_after_brace`: a closing brace inside of the labels is one of
  a label value, and a quote comes after it;
* `Floats.total`: the sum of values in their order, for values of no sample none.
-/

namespace Llmops.Lib.Exposition

abbrev Text := List Char

def openBrace : Char := Char.ofNat 123

def closeBrace : Char := Char.ofNat 125

def quote : Char := Char.ofNat 34

def backslash : Char := Char.ofNat 92

def isBlank (c : Char) : Bool := c = ' ' || c = '\t'

def isNameStart (c : Char) : Bool := c.isAlpha || c = '_' || c = ':'

def isNameChar (c : Char) : Bool := isNameStart c || c.isDigit

/-- The characters that numbers are written with. -/
def isNumberChar (c : Char) : Bool := c.isAlphanum || c = '+' || c = '-' || c = '.' || c = '_'

/-- Blanks and tabs, or nothing. -/
structure Gap where
  text : Text
  blank : ∀ c ∈ text, isBlank c = true

/-- The name of a metric or of a label. -/
structure Name where
  first : Char
  rest : Text
  start : isNameStart first = true
  chars : ∀ c ∈ rest, isNameChar c = true

def Name.text (n : Name) : Text := n.first :: n.rest

/-- A number, of a value or of a timestamp. -/
structure Token where
  text : Text
  nonempty : text ≠ []
  chars : ∀ c ∈ text, isNumberChar c = true

/-- A character of a label value. -/
def escape (c : Char) : Text :=
  if c = backslash then [backslash, backslash]
  else if c = quote then [backslash, quote]
  else if c = '\n' then [backslash, 'n']
  else [c]

/-- `name="value"`, with what stands around. -/
structure Label where
  before : Gap
  name : Name
  afterName : Gap
  afterEquals : Gap
  value : Text
  after : Gap

def Label.render (l : Label) : Text :=
  l.before.text ++ l.name.text ++ l.afterName.text ++ ['='] ++ l.afterEquals.text ++ [quote] ++
    l.value.flatMap escape ++ [quote] ++ l.after.text

/-- The labels of a sample; there may be a comma after the last one. -/
structure LabelSet where
  labels : List Label
  comma : Bool
  last : Gap

/-- What stands between the braces. -/
def LabelSet.inside (s : LabelSet) : Text :=
  [','].intercalate (s.labels.map Label.render) ++
    (if s.comma && !s.labels.isEmpty then [','] else []) ++ s.last.text

/-- A timestamp, with what stands before. -/
structure Stamp where
  gap : Gap
  separate : gap.text ≠ []
  token : Token

structure Sample where
  indent : Gap
  name : Name
  /-- The labels, with what stands before the brace. -/
  labels : Option (Gap × LabelSet)
  gap : Gap
  separate : labels = none → gap.text ≠ []
  value : Token
  stamp : Option Stamp
  last : Gap

def Sample.labelText (s : Sample) : Text :=
  match s.labels with
  | none => []
  | some (gap, set) => gap.text ++ openBrace :: (set.inside ++ [closeBrace])

def Sample.stampText (s : Sample) : Text :=
  match s.stamp with
  | none => []
  | some stamp => stamp.gap.text ++ stamp.token.text

/-- A sample from its name to its last number. -/
def Sample.core (s : Sample) : Text :=
  s.name.text ++ (s.labelText ++ (s.gap.text ++ (s.value.text ++ s.stampText)))

inductive Line where
  | blank (gap : Gap)
  | comment (indent : Gap) (text : Text) (oneLine : '\n' ∉ text)
  | sample (s : Sample)

def Line.render : Line → Text
  | blank gap => gap.text
  | comment indent text _ => indent.text ++ '#' :: text
  | sample s => s.indent.text ++ s.core ++ s.last.text

/-- The text of the lines. -/
def render (lines : List Line) : Text := lines.flatMap fun l => l.render ++ ['\n']

/-- The samples of the lines. -/
def samples (lines : List Line) : List Sample :=
  lines.filterMap fun
    | .sample s => some s
    | _ => none

/-- The numbers of samples: what a text is worth, and addition. -/
structure Floats (F : Type*) where
  ofText : Text → F
  zero : F
  add : F → F → F

/-- The sum of values in their order. -/
def Floats.total {F : Type*} (fl : Floats F) : List F → Option F
  | [] => none
  | xs => some (xs.foldl fl.add fl.zero)

/-- The sum of the samples of a name. -/
def sumOf {F : Type*} (fl : Floats F) (ss : List Sample) (name : String) : Option F :=
  fl.total ((ss.filter fun s => String.ofList s.name.text = name).map fun s => fl.ofText s.value.text)

/-! ## Braces -/

section Braces

variable {c : Char} {l : Label} {set : LabelSet}

theorem not_blank_closeBrace : isBlank closeBrace = false := by decide

theorem not_nameChar_closeBrace : isNameChar closeBrace = false := by decide

theorem Gap.notMem {g : Gap} (h : isBlank c = false) : c ∉ g.text := fun hc => by
  rw [g.blank c hc] at h
  cases h

theorem Name.notMem {n : Name} (h : isNameChar c = false) : c ∉ n.text := by
  intro hc
  rcases List.mem_cons.mp hc with rfl | hc
  · rw [isNameChar, n.start] at h
    cases h
  · rw [n.chars c hc] at h
    cases h

theorem closeBrace_mem_escape : closeBrace ∈ escape c ↔ c = closeBrace := by
  unfold escape
  split_ifs with hback hquote hnewline
  · subst hback
    decide
  · subst hquote
    decide
  · subst hnewline
    decide
  · rw [List.mem_singleton, eq_comm]

/-- A closing brace of a label is one of its value. -/
theorem Label.closeBrace_mem : closeBrace ∈ l.render ↔ closeBrace ∈ l.value := by
  have hgap : ∀ g : Gap, closeBrace ∉ g.text := fun g => Gap.notMem not_blank_closeBrace
  have hname : closeBrace ∉ l.name.text := Name.notMem not_nameChar_closeBrace
  have hvalue : closeBrace ∈ l.value.flatMap escape ↔ closeBrace ∈ l.value := by
    rw [List.mem_flatMap]
    simp only [closeBrace_mem_escape, exists_eq_right]
  have heq : closeBrace ≠ '=' := by decide
  have hquote : closeBrace ≠ quote := by decide
  unfold Label.render
  simp only [List.mem_append, List.mem_singleton, hgap, hname, hvalue, heq, hquote, false_or, or_false]

/-- A part of what is joined stands in it. -/
theorem exists_intercalate (sep : Text) {part : Text} {parts : List Text} (h : part ∈ parts) :
    ∃ before after, sep.intercalate parts = before ++ part ++ after := by
  induction parts with
  | nil => cases h
  | cons p ps ih =>
    cases ps with
    | nil =>
      rw [List.mem_singleton.mp h]
      exact ⟨[], [], by simp [List.intercalate_singleton]⟩
    | cons q qs =>
      rw [List.intercalate_cons_cons]
      rcases List.mem_cons.mp h with rfl | h
      · exact ⟨[], sep ++ sep.intercalate (q :: qs), by simp⟩
      · obtain ⟨before, after, heq⟩ := ih h
        refine ⟨p ++ sep ++ before, after, ?_⟩
        rw [heq]
        simp only [List.append_assoc]

/-- What is joined has the characters of its parts and of the separator. -/
theorem mem_intercalate {sep : Text} {parts : List Text} (h : c ∈ sep.intercalate parts) :
    c ∈ sep ∨ ∃ part ∈ parts, c ∈ part := by
  induction parts with
  | nil => cases h
  | cons p ps ih =>
    cases ps with
    | nil =>
      rw [List.intercalate_singleton] at h
      exact .inr ⟨p, List.mem_singleton.mpr rfl, h⟩
    | cons q qs =>
      rw [List.intercalate_cons_cons, List.mem_append, List.mem_append] at h
      rcases h with (h | h) | h
      · exact .inr ⟨p, List.mem_cons_self, h⟩
      · exact .inl h
      · rcases ih h with h | ⟨part, hpart, h⟩
        · exact .inl h
        · exact .inr ⟨part, List.mem_cons_of_mem _ hpart, h⟩

/-- **No brace in a value**: none between the braces. -/
theorem LabelSet.brace_notMem (h : ∀ l ∈ set.labels, closeBrace ∉ l.value) :
    closeBrace ∉ set.inside := by
  unfold LabelSet.inside
  rw [List.mem_append, List.mem_append]
  rintro ((hmem | hmem) | hmem)
  · rcases mem_intercalate hmem with hsep | ⟨part, hpart, hmem⟩
    · exact absurd hsep (by decide)
    · obtain ⟨l, hl, rfl⟩ := List.mem_map.mp hpart
      exact h l hl (Label.closeBrace_mem.mp hmem)
  · split_ifs at hmem
    · exact absurd hmem (by decide)
    · cases hmem
  · exact Gap.notMem not_blank_closeBrace hmem

/-- **A brace in a value** has a quote after it. -/
theorem LabelSet.quote_after_brace (hl : l ∈ set.labels) (h : closeBrace ∈ l.value) :
    ∃ before after, set.inside = before ++ closeBrace :: after ∧ quote ∈ after := by
  obtain ⟨u, v, hvalue⟩ := List.append_of_mem h
  have hescape : escape closeBrace = [closeBrace] := by decide
  have hrender : ∃ x y, l.render = x ++ closeBrace :: y ∧ quote ∈ y := by
    unfold Label.render
    rw [hvalue, List.flatMap_append, List.flatMap_cons, hescape]
    refine ⟨l.before.text ++ l.name.text ++ l.afterName.text ++ ['='] ++ l.afterEquals.text ++
      [quote] ++ u.flatMap escape, v.flatMap escape ++ [quote] ++ l.after.text, ?_, by simp⟩
    simp only [List.append_assoc, List.cons_append, List.nil_append]
  obtain ⟨x, y, hxy, hquote⟩ := hrender
  obtain ⟨before, after, heq⟩ := exists_intercalate [',']
    (List.mem_map.mpr ⟨l, hl, rfl⟩ : l.render ∈ set.labels.map Label.render)
  unfold LabelSet.inside
  rw [heq, hxy]
  refine ⟨before ++ x, y ++ after ++
    (if (set.comma && !set.labels.isEmpty) = true then [','] else []) ++ set.last.text, ?_, ?_⟩
  · simp only [List.append_assoc, List.cons_append]
  · simp only [List.append_assoc, List.mem_append, hquote, true_or]

end Braces

end Llmops.Lib.Exposition
