import Llmops.Lib.Exposition

/-!
# Reading the text exposition format

`scrape` reads a text as the format has it: line by line, each a blank one, a comment, or a name, its
labels with their escapes, a value and a timestamp. A line that is none of them fails the text.

* `readValue_escape`: a label value is read to its own closing quote;
* `scrape_render`: of lines in the format the samples are read, whatever their labels hold;
* `plain_render`: the sample that is written without blanks but the one before its value.
-/

namespace Llmops.Lib.Exposition

/-! ## The reader -/

/-- What a line with a sample says. -/
structure Reading where
  name : Text
  labels : List (Text × Text)
  value : Text
  stamp : Option Text
  deriving DecidableEq, Repr

/-- The text after its blanks. -/
def skip (t : Text) : Text := t.dropWhile isBlank

/-- The text after blanks and the character. -/
def expect (c : Char) (t : Text) : Option Text :=
  match skip t with
  | [] => none
  | d :: rest => if d = c then some rest else none

/-- The character of an escape. -/
def unescape (c : Char) : Option Char :=
  if c = backslash then some backslash
  else if c = quote then some quote
  else if c = 'n' then some '\n'
  else none

/-- A label value after its opening quote, and the text after the closing one. -/
def readValue : Text → Option (Text × Text)
  | [] => none
  | c :: t =>
    if c = quote then some ([], t)
    else if c = backslash then
      match t with
      | [] => none
      | d :: t => (unescape d).bind fun e => (readValue t).map fun p => (e :: p.1, p.2)
    else (readValue t).map fun p => (c :: p.1, p.2)

def readName (t : Text) : Option (Text × Text) :=
  if (skip t).head?.any isNameStart then
    some ((skip t).takeWhile isNameChar, (skip t).dropWhile isNameChar)
  else none

def readNumber (t : Text) : Option (Text × Text) :=
  if (skip t).head?.any isNumberChar then
    some ((skip t).takeWhile isNumberChar, (skip t).dropWhile isNumberChar)
  else none

def readLabel (t : Text) : Option ((Text × Text) × Text) := do
  let (name, rest) ← readName t
  let rest ← expect '=' rest
  let rest ← expect quote rest
  let (value, rest) ← readValue rest
  return ((name, value), rest)

/-- The labels after the opening brace, and the text after the closing one. -/
def readLabels : Nat → Text → Option (List (Text × Text) × Text)
  | 0, _ => none
  | fuel + 1, t =>
    match expect closeBrace t with
    | some rest => some ([], rest)
    | none => do
      let (label, rest) ← readLabel t
      match expect ',' rest with
      | some rest => (readLabels fuel rest).map fun p => (label :: p.1, p.2)
      | none => (expect closeBrace rest).map fun rest => ([label], rest)

/-- The labels of a sample, if it has any. -/
def readLabelText (t : Text) : Option (List (Text × Text) × Text) :=
  match expect openBrace t with
  | some inside => readLabels (inside.length + 1) inside
  | none => some ([], t)

/-- The timestamp of a sample, if it has one, to the end of the line. -/
def readStamp (t : Text) : Option (Option Text) :=
  if skip t = [] then some none
  else (readNumber t).bind fun p => if skip p.2 = [] then some (some p.1) else none

def readSample (t : Text) : Option Reading := do
  let (name, rest) ← readName t
  let (labels, rest) ← readLabelText rest
  let (value, rest) ← readNumber rest
  let stamp ← readStamp rest
  return ⟨name, labels, value, stamp⟩

/-- One line: a sample, or none. -/
def scrapeLine (t : Text) : Option (Option Reading) :=
  match skip t with
  | [] => some none
  | c :: _ => if c = '#' then some none else (readSample t).map some

/-- The samples of a text. -/
def scrape (t : Text) : Option (List Reading) :=
  ((t.splitOn '\n').mapM scrapeLine).map List.reduceOption

/-! ## Blanks, names and numbers -/

section Spans

variable {p : Char → Bool} {c : Char} {g t u : Text}

/-- A run of characters is cut from what comes after it. -/
theorem span_append (hu : ∀ c ∈ u, p c = true) (ht : ∀ c ∈ t.head?, p c = false) :
    (u ++ t).takeWhile p = u ∧ (u ++ t).dropWhile p = t := by
  have hcut : t.takeWhile p = [] ∧ t.dropWhile p = t := by
    cases t with
    | nil => exact ⟨rfl, rfl⟩
    | cons c t =>
      have hc : ¬ p c = true := by
        rw [ht c rfl]
        exact Bool.false_ne_true
      exact ⟨by rw [List.takeWhile_cons, if_neg hc], by rw [List.dropWhile_cons, if_neg hc]⟩
  rw [List.takeWhile_append_of_pos hu, List.dropWhile_append_of_pos hu, hcut.1, hcut.2,
    List.append_nil]
  exact ⟨rfl, rfl⟩

theorem skip_append (g : Gap) : skip (g.text ++ t) = skip t :=
  List.dropWhile_append_of_pos g.blank

theorem skip_gap (g : Gap) : skip g.text = [] := List.dropWhile_eq_nil_iff.mpr g.blank

theorem skip_cons (h : isBlank c = false) : skip (c :: t) = c :: t := by
  unfold skip
  rw [List.dropWhile_cons, h]
  rfl

theorem expect_cons (h : isBlank c = false) {d : Char} :
    expect d (c :: t) = if c = d then some t else none := by
  unfold expect
  rw [skip_cons h]

theorem expect_append (g : Gap) : expect c (g.text ++ t) = expect c t := by
  unfold expect
  rw [skip_append]

theorem not_blank_nameStart (h : isNameStart c = true) : isBlank c = false := by
  rw [Bool.eq_false_iff]
  intro hblank
  unfold isBlank at hblank
  simp only [Bool.or_eq_true, decide_eq_true_eq] at hblank
  rcases hblank with rfl | rfl
  · exact absurd h (by decide)
  · exact absurd h (by decide)

theorem not_blank_numberChar (h : isNumberChar c = true) : isBlank c = false := by
  rw [Bool.eq_false_iff]
  intro hblank
  unfold isBlank at hblank
  simp only [Bool.or_eq_true, decide_eq_true_eq] at hblank
  rcases hblank with rfl | rfl
  · exact absurd h (by decide)
  · exact absurd h (by decide)

theorem not_numberChar_blank (h : isBlank c = true) : isNumberChar c = false := by
  rw [Bool.eq_false_iff]
  intro hnumber
  rw [not_blank_numberChar hnumber] at h
  cases h

theorem not_nameChar_blank (h : isBlank c = true) : isNameChar c = false := by
  unfold isBlank at h
  simp only [Bool.or_eq_true, decide_eq_true_eq] at h
  rcases h with rfl | rfl <;> decide

theorem Name.nameChar (n : Name) : ∀ c ∈ n.text, isNameChar c = true := by
  intro c hc
  rcases List.mem_cons.mp hc with rfl | hc
  · unfold isNameChar
    rw [n.start]
    rfl
  · exact n.chars c hc

theorem skip_name (n : Name) : skip (n.text ++ t) = n.text ++ t :=
  skip_cons (not_blank_nameStart n.start)

theorem readName_append (n : Name) (h : ∀ c ∈ t.head?, isNameChar c = false) :
    readName (n.text ++ t) = some (n.text, t) := by
  have hhead : (n.text ++ t).head?.any isNameStart = true := n.start
  obtain ⟨htake, hdrop⟩ := span_append n.nameChar h
  unfold readName
  rw [skip_name, if_pos hhead, htake, hdrop]

theorem readName_gap (g : Gap) : readName (g.text ++ t) = readName t := by
  unfold readName
  rw [skip_append]

theorem readNumber_gap (g : Gap) : readNumber (g.text ++ t) = readNumber t := by
  unfold readNumber
  rw [skip_append]

theorem Token.exists_cons (k : Token) : ∃ c u, k.text = c :: u ∧ isNumberChar c = true := by
  obtain ⟨c, u, h⟩ := List.exists_cons_of_ne_nil k.nonempty
  exact ⟨c, u, h, k.chars c (by rw [h]; exact List.mem_cons_self)⟩

theorem readNumber_append (k : Token) (h : ∀ c ∈ t.head?, isNumberChar c = false) :
    readNumber (k.text ++ t) = some (k.text, t) := by
  obtain ⟨c, u, hk, hc⟩ := k.exists_cons
  have hskip : skip (k.text ++ t) = k.text ++ t := by
    rw [hk]
    exact skip_cons (not_blank_numberChar hc)
  have hhead : (k.text ++ t).head?.any isNumberChar = true := by
    rw [hk]
    exact hc
  obtain ⟨htake, hdrop⟩ := span_append k.chars h
  unfold readNumber
  rw [hskip, if_pos hhead, htake, hdrop]

/-- The first character of a gap, or of what comes after it. -/
theorem head_gap {P : Char → Prop} (g : Gap) (hblank : ∀ c, isBlank c = true → P c)
    (h : ∀ c ∈ t.head?, P c) : ∀ c ∈ (g.text ++ t).head?, P c := by
  intro c hc
  cases hg : g.text with
  | nil =>
    rw [hg] at hc
    exact h c hc
  | cons d u =>
    rw [hg] at hc
    rw [← Option.some.inj hc]
    exact hblank d (g.blank d (by rw [hg]; exact List.mem_cons_self))

end Spans

/-! ## Labels -/

section Labels

variable {c : Char} {rest value : Text} {l : Label} {set : LabelSet}

theorem readValue_quote : readValue (quote :: rest) = some ([], rest) := by
  rw [readValue.eq_def]
  exact if_pos rfl

theorem readValue_escaped {d : Char} (h : unescape d = some c) :
    readValue (backslash :: d :: rest) = (readValue rest).map fun p => (c :: p.1, p.2) := by
  have hne : backslash ≠ quote := by decide
  rw [readValue.eq_def]
  simp only [if_neg hne, if_true, h, Option.bind_some]

theorem readValue_plain (hback : c ≠ backslash) (hquote : c ≠ quote) :
    readValue (c :: rest) = (readValue rest).map fun p => (c :: p.1, p.2) := by
  rw [readValue.eq_def]
  simp only [if_neg hquote, if_neg hback]

/-- A character is read back from its escape. -/
theorem readValue_escape_append :
    readValue (escape c ++ rest) = (readValue rest).map fun p => (c :: p.1, p.2) := by
  unfold escape
  split_ifs with hback hquote hnewline
  · rw [hback]
    exact readValue_escaped (by decide)
  · rw [hquote]
    exact readValue_escaped (by decide)
  · rw [hnewline]
    exact readValue_escaped (by decide)
  · exact readValue_plain hback hquote

/-- **A label value** is read to its own closing quote. -/
theorem readValue_escape : readValue (value.flatMap escape ++ quote :: rest) = some (value, rest) := by
  induction value with
  | nil => exact readValue_quote
  | cons c value ih =>
    rw [List.flatMap_cons, List.append_assoc, readValue_escape_append, ih]
    rfl

/-- What a label says. -/
def Label.reading (l : Label) : Text × Text := (l.name.text, l.value)

/-- The text of a label after the blanks before it. -/
theorem Label.render_append : l.render ++ rest = l.before.text ++ (l.name.text ++ (l.afterName.text ++
    '=' :: (l.afterEquals.text ++ quote :: (l.value.flatMap escape ++ quote ::
      (l.after.text ++ rest))))) := by
  unfold Label.render
  simp only [List.append_assoc, List.cons_append, List.nil_append]

theorem readLabel_render : readLabel (l.render ++ rest) = some (l.reading, l.after.text ++ rest) := by
  have hblank : isBlank '=' = false := by decide
  have hquote : isBlank quote = false := by decide
  have hname : isNameChar '=' = false := by decide
  rw [Label.render_append]
  unfold readLabel
  rw [readName_gap, readName_append l.name (head_gap _ (fun _ => not_nameChar_blank) ?_)]
  · simp [expect_append, expect_cons hblank, expect_cons hquote, readValue_escape, Label.reading]
  · intro c hc
    rw [← Option.some.inj hc]
    exact hname

theorem inside_cons_cons {l' : Label} {ls : List Label} {comma : Bool} {last : Gap} :
    (LabelSet.mk (l :: l' :: ls) comma last).inside =
      l.render ++ ',' :: (LabelSet.mk (l' :: ls) comma last).inside := by
  unfold LabelSet.inside
  rw [List.map_cons, List.map_cons, List.intercalate_cons_cons]
  simp

/-- A label does not begin as the end of the labels does. -/
theorem expect_closeBrace_label : expect closeBrace (l.render ++ rest) = none := by
  have hne : l.name.first ≠ closeBrace := by
    intro heq
    have hstart := l.name.start
    rw [heq] at hstart
    exact absurd hstart (by decide)
  rw [Label.render_append, expect_append]
  unfold Name.text
  rw [List.cons_append, expect_cons (not_blank_nameStart l.name.start), if_neg hne]

theorem readLabels_inside {labels : List Label} {comma : Bool} {last : Gap} {fuel : Nat}
    (h : labels.length < fuel) :
    readLabels fuel ((LabelSet.mk labels comma last).inside ++ closeBrace :: rest) =
      some (labels.map Label.reading, rest) := by
  have hclose : isBlank closeBrace = false := by decide
  have hcomma : isBlank ',' = false := by decide
  have hend : expect closeBrace (last.text ++ closeBrace :: rest) = some rest := by
    rw [expect_append, expect_cons hclose, if_pos rfl]
  induction labels generalizing fuel with
  | nil =>
    obtain ⟨fuel, rfl⟩ : ∃ n, fuel = n + 1 := ⟨fuel - 1, by simp at h; omega⟩
    have hinside : (LabelSet.mk [] comma last).inside = last.text := by simp [LabelSet.inside]
    rw [hinside, readLabels, hend]
    rfl
  | cons l labels ih =>
    obtain ⟨fuel, rfl⟩ : ∃ n, fuel = n + 1 := ⟨fuel - 1, by omega⟩
    have hfuel : labels.length < fuel := by simpa using h
    cases labels with
    | nil =>
      have hinside : (LabelSet.mk [l] comma last).inside =
          l.render ++ ((if comma then [','] else []) ++ last.text) := by
        simp [LabelSet.inside, List.intercalate_singleton]
      rw [hinside, List.append_assoc, readLabels, expect_closeBrace_label]
      simp only [readLabel_render, Option.bind_eq_bind, Option.bind_some]
      cases comma with
      | true =>
        -- the comma may be the last one
        have hnil : (LabelSet.mk [] true last).inside = last.text := by simp [LabelSet.inside]
        have hread := ih hfuel
        rw [hnil] at hread
        simp [expect_append, expect_cons hcomma, hread]
      | false =>
        have hnone : expect ',' (last.text ++ closeBrace :: rest) = none := by
          rw [expect_append, expect_cons hclose, if_neg (by decide)]
        simp [expect_append, hnone, expect_cons hclose]
    | cons l' labels =>
      rw [inside_cons_cons, List.append_assoc, readLabels, expect_closeBrace_label]
      simp only [readLabel_render, Option.bind_eq_bind, Option.bind_some, List.cons_append]
      simp [expect_append, expect_cons hcomma, ih hfuel]

/-- There is room for every label. -/
theorem length_labels_le {labels : List Label} {comma : Bool} {last : Gap} :
    labels.length ≤ (LabelSet.mk labels comma last).inside.length := by
  have hrender (l : Label) : 1 ≤ l.render.length := by simp [Label.render]; omega
  induction labels with
  | nil => exact Nat.zero_le _
  | cons l labels ih =>
    cases labels with
    | nil =>
      have h := hrender l
      simp only [LabelSet.inside, List.map_cons, List.map_nil, List.intercalate_singleton,
        List.length_append, List.length_cons, List.length_nil]
      omega
    | cons l' labels =>
      rw [inside_cons_cons]
      simp only [List.length_append, List.length_cons] at ih ⊢
      omega

end Labels

/-! ## Lines -/

section Lines

variable {s : Sample} {l : Line} {lines : List Line} {t : Text}

/-- What a sample says. -/
def Sample.reading (s : Sample) : Reading where
  name := s.name.text
  labels := (s.labels.map fun p => p.2.labels.map Label.reading).getD []
  value := s.value.text
  stamp := s.stamp.map fun stamp => stamp.token.text

theorem readLabelText_append (h : expect openBrace t = none) :
    readLabelText (s.labelText ++ t) =
      some ((s.labels.map fun p => p.2.labels.map Label.reading).getD [], t) := by
  unfold Sample.labelText readLabelText
  cases s.labels with
  | none =>
    simp only [List.nil_append, h]
    rfl
  | some p =>
    obtain ⟨gap, set⟩ := p
    have hopen : isBlank openBrace = false := by decide
    have htext : gap.text ++ openBrace :: (set.inside ++ [closeBrace]) ++ t =
        gap.text ++ openBrace :: (set.inside ++ closeBrace :: t) := by simp
    have hexpect : expect openBrace (gap.text ++ openBrace :: (set.inside ++ closeBrace :: t)) =
        some (set.inside ++ closeBrace :: t) := by
      rw [expect_append, expect_cons hopen, if_pos rfl]
    have hfuel : set.labels.length < (set.inside ++ closeBrace :: t).length + 1 := by
      have h : set.labels.length ≤ set.inside.length := length_labels_le
      rw [List.length_append]
      omega
    simp only [htext, hexpect]
    exact readLabels_inside hfuel

theorem readStamp_append (g : Gap) : readStamp (s.stampText ++ g.text) =
    some (s.stamp.map fun stamp => stamp.token.text) := by
  unfold Sample.stampText readStamp
  cases s.stamp with
  | none =>
    rw [List.nil_append, skip_gap, if_pos rfl]
    rfl
  | some stamp =>
    have hread : readNumber (stamp.gap.text ++ stamp.token.text ++ g.text) =
        some (stamp.token.text, g.text) := by
      rw [List.append_assoc, readNumber_gap, readNumber_append]
      intro c hc
      exact not_numberChar_blank (g.blank c (List.mem_of_mem_head? hc))
    have hne : skip (stamp.gap.text ++ stamp.token.text ++ g.text) ≠ [] := by
      intro hnil
      unfold readNumber at hread
      rw [hnil] at hread
      cases hread
    simp only [if_neg hne, hread, Option.bind_some, skip_gap, if_true]
    rfl

theorem readSample_core (g : Gap) :
    readSample (s.indent.text ++ (s.core ++ g.text)) = some s.reading := by
  have hname : ∀ c ∈ (s.labelText ++ (s.gap.text ++ (s.value.text ++ (s.stampText ++ g.text)))).head?,
      isNameChar c = false := by
    intro c hc
    unfold Sample.labelText at hc
    cases hlabels : s.labels with
    | none =>
      rw [hlabels, List.nil_append] at hc
      obtain ⟨d, u, hgap⟩ := List.exists_cons_of_ne_nil (s.separate hlabels)
      rw [hgap] at hc
      rw [← Option.some.inj hc]
      exact not_nameChar_blank (s.gap.blank d (by rw [hgap]; exact List.mem_cons_self))
    | some p =>
      obtain ⟨gap, set⟩ := p
      rw [hlabels, List.append_assoc] at hc
      refine head_gap gap (fun _ => not_nameChar_blank) (fun c hc => ?_) c hc
      rw [← Option.some.inj hc]
      decide
  have hopen : expect openBrace (s.gap.text ++ (s.value.text ++ (s.stampText ++ g.text))) = none := by
    obtain ⟨c, u, hvalue, hc⟩ := s.value.exists_cons
    rw [expect_append, hvalue, List.cons_append, expect_cons (not_blank_numberChar hc), if_neg]
    rintro rfl
    exact absurd hc (by decide)
  have hvalue : ∀ c ∈ (s.stampText ++ g.text).head?, isNumberChar c = false := by
    intro c hc
    unfold Sample.stampText at hc
    cases hstamp : s.stamp with
    | none =>
      rw [hstamp, List.nil_append] at hc
      exact not_numberChar_blank (g.blank c (List.mem_of_mem_head? hc))
    | some stamp =>
      rw [hstamp] at hc
      obtain ⟨d, u, hgap⟩ := List.exists_cons_of_ne_nil stamp.separate
      simp only [hgap, List.cons_append] at hc
      rw [← Option.some.inj hc]
      exact not_numberChar_blank (stamp.gap.blank d (by rw [hgap]; exact List.mem_cons_self))
  have hcore : s.core ++ g.text =
      s.name.text ++ (s.labelText ++ (s.gap.text ++ (s.value.text ++ (s.stampText ++ g.text)))) := by
    unfold Sample.core
    simp only [List.append_assoc]
  unfold readSample
  rw [hcore, readName_gap, readName_append s.name hname]
  simp only [Option.bind_eq_bind, Option.bind_some, readLabelText_append hopen, readNumber_gap,
    readNumber_append s.value hvalue, readStamp_append]
  rfl

/-- What a line says. -/
def Line.reading : Line → Option Reading
  | .sample s => some s.reading
  | _ => none

theorem scrapeLine_render : scrapeLine l.render = some l.reading := by
  unfold scrapeLine
  cases l with
  | blank gap =>
    simp only [Line.render, skip_gap]
    rfl
  | comment indent text oneLine =>
    have hhash : isBlank '#' = false := by decide
    simp only [Line.render, skip_append, skip_cons hhash, if_true]
    rfl
  | sample s =>
    have hne : s.name.first ≠ '#' := by
      intro heq
      have hstart := s.name.start
      rw [heq] at hstart
      exact absurd hstart (by decide)
    have hskip : skip (s.indent.text ++ (s.core ++ s.last.text)) = s.core ++ s.last.text := by
      rw [skip_append]
      exact skip_cons (not_blank_nameStart s.name.start)
    simp only [Line.render, List.append_assoc, hskip, readSample_core]
    simp only [Sample.core, Name.text, List.cons_append, if_neg hne]
    rfl

theorem newline_notMem_escape {c : Char} : '\n' ∉ escape c := by
  unfold escape
  split_ifs with _ _ hnewline
  · decide
  · decide
  · decide
  · rw [List.mem_singleton]
    exact fun h => hnewline h.symm

theorem Label.newline_notMem {l : Label} : '\n' ∉ l.render := by
  have hgap (g : Gap) : '\n' ∉ g.text := Gap.notMem (by decide)
  have hname : '\n' ∉ l.name.text := Name.notMem (by decide)
  have hvalue : '\n' ∉ l.value.flatMap escape := by
    rw [List.mem_flatMap]
    rintro ⟨c, -, hc⟩
    exact newline_notMem_escape hc
  have heq : '\n' ≠ '=' := by decide
  have hquote : '\n' ≠ quote := by decide
  unfold Label.render
  simp only [List.mem_append, List.mem_singleton, hgap, hname, hvalue, heq, hquote, or_false,
    not_false_eq_true]

theorem Sample.newline_notMem_labelText : '\n' ∉ s.labelText := by
  have hgap (g : Gap) : '\n' ∉ g.text := Gap.notMem (by decide)
  unfold Sample.labelText
  cases s.labels with
  | none => exact List.not_mem_nil
  | some p =>
    obtain ⟨gap, set⟩ := p
    have hinside : '\n' ∉ set.inside := by
      unfold LabelSet.inside
      rw [List.mem_append, List.mem_append]
      rintro ((h | h) | h)
      · rcases mem_intercalate h with hsep | ⟨part, hpart, h⟩
        · exact absurd hsep (by decide)
        · obtain ⟨l, -, rfl⟩ := List.mem_map.mp hpart
          exact Label.newline_notMem h
      · split_ifs at h
        · exact absurd h (by decide)
        · cases h
      · exact hgap set.last h
    have hopen : '\n' ≠ openBrace := by decide
    have hclose : '\n' ≠ closeBrace := by decide
    simp [hgap, hinside, hopen, hclose]

/-- A line is one line. -/
theorem Line.newline_notMem : '\n' ∉ l.render := by
  have hgap (g : Gap) : '\n' ∉ g.text := Gap.notMem (by decide)
  have htoken (k : Token) : '\n' ∉ k.text := fun h => absurd (k.chars _ h) (by decide)
  cases l with
  | blank gap => exact hgap gap
  | comment indent text oneLine =>
    have hhash : '\n' ≠ '#' := by decide
    simp [Line.render, hgap, oneLine, hhash]
  | sample s =>
    have hname : '\n' ∉ s.name.text := Name.notMem (by decide)
    have hstamp : '\n' ∉ s.stampText := by
      unfold Sample.stampText
      cases s.stamp with
      | none => exact List.not_mem_nil
      | some stamp => simp [hgap, htoken]
    simp [Line.render, Sample.core, hgap, htoken, hname, hstamp, s.newline_notMem_labelText]

theorem splitOn_render :
    (render lines).splitOn '\n' = lines.map Line.render ++ [[]] := by
  induction lines with
  | nil => rfl
  | cons l lines ih =>
    have hrender : render (l :: lines) = l.render ++ '\n' :: render lines := by
      unfold render
      rw [List.flatMap_cons, List.append_assoc]
      rfl
    have hl : ∀ c ∈ l.render, (c == '\n') = false := fun c hc => by
      rw [beq_eq_false_iff_ne]
      exact fun h => l.newline_notMem (h ▸ hc)
    unfold List.splitOn at ih ⊢
    rw [hrender, List.splitOnP_append_cons_of_forall_mem hl '\n' (by decide), ih]
    rfl

theorem mapM_scrapeLine : (lines.map Line.render ++ [[]]).mapM scrapeLine =
    some (lines.map Line.reading ++ [none]) := by
  induction lines with
  | nil => rfl
  | cons l lines ih =>
    rw [List.map_cons, List.cons_append, List.mapM_cons, scrapeLine_render, ih]
    rfl

theorem reduceOption_reading :
    (lines.map Line.reading).reduceOption = (samples lines).map Sample.reading := by
  induction lines with
  | nil => rfl
  | cons l lines ih =>
    cases l with
    | blank gap => exact ih
    | comment indent text oneLine => exact ih
    | sample s => exact congrArg (s.reading :: ·) ih

/-- **A text in the format** is read as what it says: its samples, in their order, with the names and
the values of their labels. -/
theorem scrape_render : scrape (render lines) = some ((samples lines).map Sample.reading) := by
  unfold scrape
  rw [splitOn_render, mapM_scrapeLine, Option.map_some, List.reduceOption_append,
    reduceOption_reading]
  exact congrArg some (List.append_nil _)

end Lines

/-! ## Plain lines -/

section Plain

variable {n : Name} {labels : List (Name × Text)} {value : Token}

theorem blank_nil : ∀ c ∈ ([] : Text), isBlank c = true := fun _ h => (List.not_mem_nil h).elim

theorem blank_space : ∀ c ∈ [' '], isBlank c = true := by simp [isBlank]

def noGap : Gap := ⟨[], blank_nil⟩

def oneBlank : Gap := ⟨[' '], blank_space⟩

def plainLabel (p : Name × Text) : Label := ⟨noGap, p.1, noGap, noGap, p.2, noGap⟩

/-- `name{label="value",...} value`. -/
def plain (n : Name) (labels : List (Name × Text)) (value : Token) : Sample where
  indent := noGap
  name := n
  labels := some (noGap, ⟨labels.map plainLabel, false, noGap⟩)
  gap := oneBlank
  separate h := by cases h
  value := value
  stamp := none
  last := noGap

theorem plain_render : (Line.sample (plain n labels value)).render =
    n.text ++ openBrace :: ([','].intercalate (labels.map fun p =>
      p.1.text ++ '=' :: quote :: (p.2.flatMap escape ++ [quote])) ++
        closeBrace :: ' ' :: value.text) := by
  have hlabel : (labels.map plainLabel).map Label.render =
      labels.map fun p => p.1.text ++ '=' :: quote :: (p.2.flatMap escape ++ [quote]) := by
    rw [List.map_map]
    refine List.map_congr_left fun p _ => ?_
    simp [plainLabel, Label.render, noGap]
  simp only [Line.render, plain, Sample.core, Sample.labelText, Sample.stampText, LabelSet.inside,
    hlabel, noGap, oneBlank]
  simp

theorem plain_reading : (plain n labels value).reading =
    ⟨n.text, labels.map fun p => (p.1.text, p.2), value.text, none⟩ := by
  simp only [plain, Sample.reading, Option.map_some, Option.getD_some, List.map_map]
  rfl

/-- The text of a name, as a test. -/
def isName (t : Text) : Bool := t.head?.any isNameStart && t.tail.all isNameChar

theorem exists_name {t : Text} (h : isName t = true) : ∃ n : Name, n.text = t := by
  obtain ⟨hstart, hchars⟩ := Bool.and_eq_true_iff.mp h
  cases t with
  | nil => cases hstart
  | cons c t => exact ⟨⟨c, t, hstart, List.all_eq_true.mp hchars⟩, rfl⟩

/-- The text of a number, as a test. -/
def isToken (t : Text) : Bool := !t.isEmpty && t.all isNumberChar

theorem exists_token {t : Text} (h : isToken t = true) : ∃ k : Token, k.text = t := by
  obtain ⟨hne, hchars⟩ := Bool.and_eq_true_iff.mp h
  exact ⟨⟨t, by simpa using hne, List.all_eq_true.mp hchars⟩, rfl⟩

/-- Lines that are joined by newlines, with one at the end. -/
theorem intercalate_newline {ts : List Text} (h : ts ≠ []) :
    ['\n'].intercalate ts ++ ['\n'] = ts.flatMap fun t => t ++ ['\n'] := by
  induction ts with
  | nil => exact absurd rfl h
  | cons t ts ih =>
    cases ts with
    | nil => simp [List.intercalate_singleton]
    | cons u us =>
      rw [List.intercalate_cons_cons, List.append_assoc, ih (List.cons_ne_nil u us)]
      simp only [List.flatMap_cons, List.append_assoc]

end Plain

end Llmops.Lib.Exposition
