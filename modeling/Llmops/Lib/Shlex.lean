import Mathlib

/-!
# Python's `shlex`

`split` is `shlex.split(s, comments=False)` in its POSIX mode, as the state machine that
`shlex.read_token` is: `none` where it raises `ValueError` (an open quotation, an escape of nothing).
`quote` and `join` are `shlex.quote` and `shlex.join`.

* `split_join`: what was joined is split again, whatever the words.
-/

namespace Llmops.Lib.Shlex

/-- `whitespace`. -/
def blank (c : Char) : Bool := c = ' ' || c = '\t' || c = '\r' || c = '\n'

def apostrophe : Char := .ofNat 39

/-- `quotes`. -/
def isQuote (c : Char) : Bool := c = apostrophe || c = '"'

/-- `escape`. -/
def isEscape (c : Char) : Bool := c.toNat = 92

/-- The state of `read_token`: between words, in a word, in a quotation, after an escape in a word or
in a quotation. -/
inductive Mode where
  | gap
  | word
  | quote (mark : Char)
  | escape (inside : Option Char)

/-- A word that has ended; it may be empty only if it was quoted. -/
def emit (token : List Char) (quoted : Bool) (rest : Option (List (List Char))) :
    Option (List (List Char)) :=
  if token = [] ∧ quoted = false then rest else rest.map (token :: ·)

/-- The words of a text, from a state with a started word. -/
def lex : Mode → List Char → Bool → List Char → Option (List (List Char))
  | .gap, _, _, [] => some []
  | .gap, _, _, c :: cs =>
    if blank c then lex .gap [] false cs
    else if isEscape c then lex (.escape none) [] false cs
    else if isQuote c then lex (.quote c) [] false cs
    else lex .word [c] false cs
  | .word, token, quoted, [] => emit token quoted (some [])
  | .word, token, quoted, c :: cs =>
    if blank c then emit token quoted (lex .gap [] false cs)
    else if isQuote c then lex (.quote c) token quoted cs
    else if isEscape c then lex (.escape none) token quoted cs
    else lex .word (token ++ [c]) quoted cs
  | .quote _, _, _, [] => none
  | .quote mark, token, _, c :: cs =>
    if c = mark then lex .word token true cs
    else if isEscape c && mark = '"' then lex (.escape (some mark)) token true cs
    else lex (.quote mark) (token ++ [c]) true cs
  | .escape _, _, _, [] => none
  | .escape none, token, quoted, c :: cs => lex .word (token ++ [c]) quoted cs
  | .escape (some mark), token, quoted, c :: cs =>
    -- inside a quotation only the mark and the escape itself can be escaped
    if !isEscape c && c ≠ mark then lex (.quote mark) (token ++ [.ofNat 92, c]) quoted cs
    else lex (.quote mark) (token ++ [c]) quoted cs

/-- `shlex.split(s)`. -/
def split (s : String) : Option (List String) :=
  (lex .gap [] false s.toList).map (·.map .ofList)

/-- A character that needs no quotation. -/
def safe (c : Char) : Bool :=
  c.isAlphanum || c = '_' || c = '@' || c = '%' || c = '+' || c = '=' || c = ':' || c = ',' ||
    c = '.' || c = '/' || c = '-'

/-- A quotation in single quotes, in which a single quote is put into double ones. -/
def quoted (cs : List Char) : List Char :=
  apostrophe :: cs.flatMap (fun c =>
    if c = apostrophe then [apostrophe, '"', apostrophe, '"', apostrophe] else [c]) ++ [apostrophe]

/-- `shlex.quote(s)`. -/
def quote (s : String) : String :=
  if s.toList ≠ [] ∧ s.toList.all safe then s else .ofList (quoted s.toList)

/-- `shlex.join(words)`. -/
def join (words : List String) : String := " ".intercalate (words.map quote)

example : split "vllm serve org/m --x 'a \"b\"'" =
    some ["vllm", "serve", "org/m", "--x", "a \"b\""] := by decide +kernel

example : split "echo 'it" = none := by decide +kernel

/-! ## What was joined is split again -/

variable {cs rest token : List Char} {c : Char}

/-- A character that needs no quotation stands for itself. -/
theorem plain_of_safe (h : safe c = true) :
    blank c = false ∧ isQuote c = false ∧ isEscape c = false := by
  have hne (x : Char) (hx : safe x = false) : c ≠ x := by
    rintro rfl
    simp [h] at hx
  refine ⟨?_, ?_, ?_⟩
  · simp only [blank, Bool.or_eq_false_iff, decide_eq_false_iff_not]
    exact ⟨⟨⟨hne _ (by decide), hne _ (by decide)⟩, hne _ (by decide)⟩, hne _ (by decide)⟩
  · simp only [isQuote, Bool.or_eq_false_iff, decide_eq_false_iff_not]
    exact ⟨hne _ (by decide), hne _ (by decide)⟩
  · have := hne (.ofNat 92) (by decide)
    simp only [isEscape, decide_eq_false_iff_not]
    intro hc
    exact this (by rw [← Char.ofNat_toNat c, hc])

/-- A word of characters that need no quotation. -/
theorem lex_word_safe (h : ∀ c ∈ cs, safe c = true) :
    lex .word token false (cs ++ rest) = lex .word (token ++ cs) false rest := by
  induction cs generalizing token with
  | nil => simp
  | cons c cs ih =>
    obtain ⟨hblank, hquote, hescape⟩ := plain_of_safe (h c List.mem_cons_self)
    rw [List.cons_append, lex, hblank, hquote, hescape]
    simp only [Bool.false_eq_true, if_false]
    rw [ih fun c hc => h c (List.mem_cons_of_mem _ hc), List.append_assoc, List.singleton_append]

/-- The inside of a quotation. -/
theorem lex_quoted_inside {b : Bool} :
    lex (.quote apostrophe) token b (cs.flatMap (fun c =>
      if c = apostrophe then [apostrophe, '"', apostrophe, '"', apostrophe] else [c]) ++
        apostrophe :: rest) = lex .word (token ++ cs) true rest := by
  induction cs generalizing token b with
  | nil => simp [lex]
  | cons c cs ih =>
    rw [List.flatMap_cons, List.append_assoc]
    by_cases hc : c = apostrophe
    · -- the quotation ends, a double one has the mark, and it begins again
      subst hc
      rw [if_pos rfl]
      simp only [List.cons_append, List.nil_append]
      have hescape : isEscape apostrophe = false := by decide
      have hblank : blank apostrophe = false ∧ blank '"' = false := by decide
      have hquote : isQuote apostrophe = true ∧ isQuote '"' = true := by decide
      simp only [lex, hescape, hblank, hquote, if_true, if_false, Bool.false_and,
        Bool.false_eq_true, show ¬ apostrophe = '"' by decide]
      rw [ih, List.append_assoc, List.singleton_append]
    · rw [if_neg hc, List.singleton_append, lex, if_neg hc,
        if_neg (by simp [show ¬ apostrophe = '"' by decide]), ih, List.append_assoc,
        List.singleton_append]

/-- **A quoted word** is read as the word. -/
theorem lex_quote (s : String) : ∃ b, (s.toList ≠ [] ∨ b = true) ∧
    ∀ rest, lex .gap [] false ((quote s).toList ++ rest) = lex .word s.toList b rest := by
  unfold quote
  by_cases hsafe : s.toList ≠ [] ∧ s.toList.all safe
  · rw [if_pos hsafe]
    refine ⟨false, Or.inl hsafe.1, fun rest => ?_⟩
    obtain ⟨c, cs, hcs⟩ := List.exists_cons_of_ne_nil hsafe.1
    have hall := List.all_eq_true.mp hsafe.2
    rw [hcs] at hall ⊢
    obtain ⟨hblank, hquote, hescape⟩ := plain_of_safe (hall c List.mem_cons_self)
    rw [List.cons_append, lex, hblank, hquote, hescape]
    simp only [Bool.false_eq_true, if_false]
    rw [lex_word_safe fun c hc => hall c (List.mem_cons_of_mem _ hc), List.singleton_append]
  · rw [if_neg hsafe]
    refine ⟨true, Or.inr rfl, fun rest => ?_⟩
    rw [String.toList_ofList, quoted, List.cons_append, List.cons_append, List.append_assoc,
      List.singleton_append, lex, show blank apostrophe = false by decide,
      show isEscape apostrophe = false by decide, show isQuote apostrophe = true by decide]
    simp only [Bool.false_eq_true, if_false, if_true]
    rw [lex_quoted_inside, List.nil_append]

/-- A word that was started, at the end of the text and before a blank. -/
theorem lex_word_nil {b : Bool} (h : token ≠ [] ∨ b = true) :
    lex .word token b [] = some [token] := by
  rw [lex, emit, if_neg]
  · rfl
  · rintro ⟨hnil, hb⟩
    exact h.elim (absurd hnil) (by simp [hb])

theorem lex_word_blank {b : Bool} (h : token ≠ [] ∨ b = true) :
    lex .word token b (' ' :: rest) = (lex .gap [] false rest).map (token :: ·) := by
  rw [lex, if_pos (by decide), emit, if_neg]
  rintro ⟨hnil, hb⟩
  exact h.elim (absurd hnil) (by simp [hb])

/-- **What was joined is split again.** -/
theorem split_join (words : List String) : split (join words) = some words := by
  have hlex : lex .gap [] false (join words).toList = some (words.map String.toList) := by
    unfold join
    induction words with
    | nil => rfl
    | cons word words ih =>
      obtain ⟨b, hword, hquote⟩ := lex_quote word
      cases words with
      | nil =>
        have hlast := hquote []
        rw [List.append_nil, lex_word_nil hword] at hlast
        simpa using hlast
      | cons next words =>
        have hnext := hquote (' ' :: (" ".intercalate ((next :: words).map quote)).toList)
        rw [lex_word_blank hword, ih, Option.map_some] at hnext
        rw [List.map_cons, List.map_cons, String.intercalate_cons_cons, String.toList_append,
          String.toList_append, List.append_assoc]
        simpa using hnext
  unfold split
  rw [hlex, Option.map_some, List.map_map]
  simp

/-! ## No character comes from nowhere -/

/-- A word that ends has been started, or comes later. -/
theorem mem_of_emit {b : Bool} {rest : Option (List (List Char))} {ws : List (List Char)}
    (h : emit token b rest = some ws) {w : List Char} (hw : w ∈ ws) :
    w = token ∨ ∃ ws', rest = some ws' ∧ w ∈ ws' := by
  unfold emit at h
  split_ifs at h
  · exact Or.inr ⟨ws, h, hw⟩
  · obtain ⟨ws', hws', rfl⟩ := Option.map_eq_some_iff.mp h
    exact (List.mem_cons.mp hw).imp_right fun hw => ⟨ws', hws', hw⟩

/-- The characters of the words are those of the text, but for escapes. -/
theorem mem_of_lex {m : Mode} {b : Bool} {ws : List (List Char)} (h : lex m token b cs = some ws)
    {w : List Char} (hw : w ∈ ws) (hc : c ∈ w) (hescape : c.toNat ≠ 92) : c ∈ token ∨ c ∈ cs := by
  induction cs generalizing m token b ws with
  | nil =>
    cases m with
    | gap =>
      cases h
      cases hw
    | word =>
      rcases mem_of_emit h hw with rfl | ⟨ws', hws', hw⟩
      · exact Or.inl hc
      · cases hws'
        cases hw
    | quote _ | escape _ => cases h
  | cons d cs ih =>
    -- the word that goes on has at most the next character more
    have hmore {m : Mode} {token' : List Char} {b : Bool} (h : lex m token' b cs = some ws)
        (hsub : c ∈ token' → c ∈ token ∨ c = d ∨ c.toNat = 92) : c ∈ token ∨ c ∈ d :: cs := by
      rcases ih h hw with hmem | hmem
      · rcases hsub hmem with hmem | rfl | hmem
        · exact Or.inl hmem
        · exact Or.inr List.mem_cons_self
        · exact absurd hmem hescape
      · exact Or.inr (List.mem_cons_of_mem _ hmem)
    cases m with
    | gap =>
      rw [lex] at h
      split_ifs at h
      · exact hmore h fun hmem => absurd hmem List.not_mem_nil
      · exact hmore h fun hmem => absurd hmem List.not_mem_nil
      · exact hmore h fun hmem => absurd hmem List.not_mem_nil
      · exact hmore h fun hmem => Or.inr (Or.inl (List.mem_singleton.mp hmem))
    | word =>
      rw [lex] at h
      split_ifs at h
      · rcases mem_of_emit h hw with rfl | ⟨ws', hws', hw'⟩
        · exact Or.inl hc
        · exact (ih hws' hw').imp (fun hmem => absurd hmem List.not_mem_nil)
            (List.mem_cons_of_mem _)
      · exact hmore h Or.inl
      · exact hmore h Or.inl
      · exact hmore h fun hmem => (List.mem_append.mp hmem).imp_right fun hmem =>
          Or.inl (List.mem_singleton.mp hmem)
    | quote mark =>
      rw [lex] at h
      split_ifs at h
      · exact hmore h Or.inl
      · exact hmore h Or.inl
      · exact hmore h fun hmem => (List.mem_append.mp hmem).imp_right fun hmem =>
          Or.inl (List.mem_singleton.mp hmem)
    | escape inside =>
      cases inside with
      | none =>
        rw [lex] at h
        exact hmore h fun hmem => (List.mem_append.mp hmem).imp_right fun hmem =>
          Or.inl (List.mem_singleton.mp hmem)
      | some mark =>
        rw [lex] at h
        split_ifs at h
        · refine hmore h fun hmem => (List.mem_append.mp hmem).imp_right fun hmem => ?_
          rcases List.mem_cons.mp hmem with rfl | hmem
          · exact Or.inr rfl
          · exact Or.inl (List.mem_singleton.mp hmem)
        · exact hmore h fun hmem => (List.mem_append.mp hmem).imp_right fun hmem =>
            Or.inl (List.mem_singleton.mp hmem)

theorem mem_of_split {s w : String} {words : List String} (h : split s = some words)
    (hw : w ∈ words) (hc : c ∈ w.toList) (hescape : c.toNat ≠ 92) : c ∈ s.toList := by
  obtain ⟨ws, hws, rfl⟩ := Option.map_eq_some_iff.mp h
  obtain ⟨w', hw', rfl⟩ := List.mem_map.mp hw
  rw [String.toList_ofList] at hc
  exact (mem_of_lex hws hw' hc hescape).resolve_left List.not_mem_nil

end Llmops.Lib.Shlex
