import Mathlib.Data.List.Chain
import Mathlib.Data.Nat.Notation

/-!
# Parameters in the text of a statement

Two ways to mark the parameters of an SQL statement: `?`, counted from the left, and `$1`, `$2`, with
the number written out. The characters of a text stand in its code, in a quoted part or in a comment
(`scan`), and only in the code they mark a parameter. Comments begin with `--`: those between `/*` and
`*/` are left out, and so are statements with a body of statements, as that of a trigger.

* `scan_dollars`: writing numbers for the marks leaves every other character in its place;
* `readNumbered_expand`: and the numbers are read back as the marks were counted, if the marks stand
  apart from words (`Portable`);
* `bare_scan`, `split_chars`: a script without its comments, and its statements, by characters alone.
-/

namespace Llmops.Lib.Sql

/-! ## Places -/

inductive Place where
  | code | quoted | comment
  deriving DecidableEq, Repr

/-- A character and where it stands. -/
abbrev Placed := Place × Char

/-- What a scanner is in. -/
inductive Mode where
  | code
  | quoted (quote : Char)
  | comment

def isQuote (c : Char) : Bool := c = '\'' || c = '"'

/-- The place of a character, and the mode after it. A doubled quote ends a quoted part and begins
one. -/
def Mode.step (m : Mode) (c : Char) (next : Option Char) : Place × Mode :=
  match m with
  | .code =>
    if isQuote c then (.quoted, .quoted c)
    else if c = '-' ∧ next = some '-' then (.comment, .comment)
    else (.code, .code)
  | .quoted q => (.quoted, if c = q then .code else .quoted q)
  | .comment => if c = '\n' then (.code, .code) else (.comment, .comment)

/-- The characters of a text, each with its place. -/
def scan : Mode → List Char → List Placed
  | _, [] => []
  | m, c :: cs => ((m.step c cs.head?).1, c) :: scan (m.step c cs.head?).2 cs

/-! ## Parameters -/

/-- What a statement is made of. -/
inductive Item where
  | char (x : Placed)
  | param (n : Nat)
  deriving DecidableEq

/-- A mark. -/
abbrev mark : Placed := (.code, '?')

/-- The parameters of a text with marks, of which `n` came before. -/
def readMarks : Nat → List Placed → List Item
  | _, [] => []
  | n, x :: xs => if x = mark then .param (n + 1) :: readMarks (n + 1) xs else .char x :: readMarks n xs

/-- A character of a name or a number. -/
def isWord (c : Char) : Bool := c.isAlphanum || c = '_' || c = '$' || 128 ≤ c.toNat

/-- A character of a word in the code. -/
def Word (x : Placed) : Prop := x.1 = .code ∧ isWord x.2 = true

instance (x : Placed) : Decidable (Word x) := inferInstanceAs (Decidable (_ ∧ _))

/-- Where a reader of numbered parameters is: after a character, which may end a word, after a `$` that
begins a token, or in the number after it. -/
inductive Reading where
  | idle (word : Bool)
  | dollar
  | number (n : Nat)

/-- A character that is not in the number of a parameter. -/
def Reading.other (word : Bool) (x : Placed) : List Item × Reading :=
  if x = (.code, '$') ∧ word = false then ([], .dollar) else ([.char x], .idle (decide (Word x)))

/-- A digit in the code. -/
def Digit (x : Placed) : Prop := x.1 = .code ∧ x.2.isDigit = true

instance (x : Placed) : Decidable (Digit x) := inferInstanceAs (Decidable (_ ∧ _))

/-- One character: the items that end before it, and where the reader is. -/
def Reading.step (s : Reading) (x : Placed) : List Item × Reading :=
  match s with
  | .idle word => other word x
  | .dollar =>
    if Digit x then ([], .number (x.2.toNat - '0'.toNat))
    else (.char (.code, '$') :: (other false x).1, (other false x).2)
  | .number n =>
    if Digit x then ([], .number (10 * n + (x.2.toNat - '0'.toNat)))
    else (.param n :: (other false x).1, (other false x).2)

/-- The item that the text ends in. -/
def Reading.rest : Reading → List Item
  | .idle _ => []
  | .dollar => [.char (.code, '$')]
  | .number n => [.param n]

/-- The parameters of a text with numbers. -/
def readNumbered : Reading → List Placed → List Item
  | s, [] => s.rest
  | s, x :: xs => (s.step x).1 ++ readNumbered (s.step x).2 xs

/-! ## Numbers for marks -/

/-- Each `?` by `$` and its number, where `n` came before. -/
def dollars : Nat → List Char → List Char
  | _, [] => []
  | n, c :: cs =>
    if c = '?' then '$' :: (Nat.toDigits 10 (n + 1) ++ dollars (n + 1) cs) else c :: dollars n cs

/-- The same, of placed characters. -/
def expand : Nat → List Placed → List Placed
  | _, [] => []
  | n, x :: xs =>
    if x = mark then
      (.code, '$') :: ((Nat.toDigits 10 (n + 1)).map (Prod.mk .code) ++ expand (n + 1) xs)
    else x :: expand n xs

/-- Two neighbours of which neither is a mark that touches a word. -/
def Apart (x y : Placed) : Prop := (x = mark → ¬ Word y) ∧ (y = mark → ¬ Word x)

instance (x y : Placed) : Decidable (Apart x y) := inferInstanceAs (Decidable (_ ∧ _))

/-- Every `?` is a mark and touches no word, and there is no `$` in the code. -/
structure Portable (xs : List Placed) : Prop where
  marks : ∀ x ∈ xs, x.2 = '?' → x.1 = .code
  noDollar : (.code, '$') ∉ xs
  apart : xs.IsChain Apart

instance (xs : List Placed) : Decidable (Portable xs) :=
  decidable_of_iff ((∀ x ∈ xs, x.2 = '?' → x.1 = .code) ∧ (.code, '$') ∉ xs ∧ xs.IsChain Apart)
    ⟨fun h => ⟨h.1, h.2.1, h.2.2⟩, fun h => ⟨h.marks, h.noDollar, h.apart⟩⟩

section Scan

variable {c : Char} {cs : List Char} {m : Mode} {next next' : Option Char}

theorem step_congr (h : next = some '-' ↔ next' = some '-') : m.step c next = m.step c next' := by
  unfold Mode.step
  simp only [h]

theorem step_mark (h : (m.step '?' next).1 = .code) : m = .code ∧ m.step '?' next = (.code, .code) := by
  cases m with
  | code => exact ⟨rfl, rfl⟩
  | quoted q => cases h
  | comment => cases h

theorem scan_plain (hquote : isQuote c = false) (hdash : c ≠ '-') :
    scan .code (c :: cs) = (.code, c) :: scan .code cs := by
  have hstep : Mode.code.step c cs.head? = (.code, .code) := by
    unfold Mode.step
    simp [hquote, hdash]
  rw [scan, hstep]

theorem plain_digit (h : c.isDigit = true) : isQuote c = false ∧ c ≠ '-' := by
  constructor
  · unfold isQuote
    rw [Bool.or_eq_false_iff]
    constructor <;> refine decide_eq_false ?_ <;> rintro rfl <;> exact absurd h (by decide)
  · rintro rfl
    exact absurd h (by decide)

theorem scan_digits {ds : List Char} (h : ∀ c ∈ ds, c.isDigit = true) (cs : List Char) :
    scan .code (ds ++ cs) = ds.map (Prod.mk .code) ++ scan .code cs := by
  induction ds with
  | nil => rfl
  | cons d ds ih =>
    obtain ⟨hd, hds⟩ := List.forall_mem_cons.mp h
    rw [List.cons_append, scan_plain (plain_digit hd).1 (plain_digit hd).2, ih hds]
    rfl

theorem isDigit_toDigits {n : Nat} : ∀ c ∈ Nat.toDigits 10 n, c.isDigit = true := fun _ hc =>
  Nat.isDigit_of_mem_toDigits (by decide) (by decide) hc

theorem head_dollars {n : Nat} : (dollars n cs).head? = some '-' ↔ cs.head? = some '-' := by
  cases cs with
  | nil => rfl
  | cons c cs =>
    rw [dollars]
    split_ifs with hc
    · subst hc
      simp
    · rfl

/-- **The numbers stand where the marks stood**, and every other character in its place. -/
theorem scan_dollars {n : Nat} (h : ∀ x ∈ scan m cs, x.2 = '?' → x.1 = .code) :
    scan m (dollars n cs) = expand n (scan m cs) := by
  induction cs generalizing m n with
  | nil => rfl
  | cons c cs ih =>
    rw [scan] at h ⊢
    obtain ⟨hc, hcs⟩ := List.forall_mem_cons.mp h
    by_cases hmark : c = '?'
    · subst hmark
      obtain ⟨rfl, hstep⟩ := step_mark (hc rfl)
      rw [hstep] at hcs ⊢
      rw [dollars, if_pos rfl, expand, if_pos rfl, scan_plain rfl (by decide),
        scan_digits isDigit_toDigits, ih hcs]
    · have hne : ((m.step c cs.head?).1, c) ≠ mark := fun heq => hmark (Prod.mk.inj heq).2
      rw [dollars, if_neg hmark, expand, if_neg hne, scan, step_congr head_dollars, ih hcs]

end Scan

section Read

variable {x : Placed} {xs ys : List Placed} {n : Nat}

theorem readNumbered_digits {ds : List Char} (h : ∀ c ∈ ds, c.isDigit = true) :
    readNumbered (.number n) (ds.map (Prod.mk .code) ++ ys) =
      readNumbered (.number (Nat.ofDigitChars 10 ds n)) ys := by
  induction ds generalizing n with
  | nil => rw [Nat.ofDigitChars_nil]; rfl
  | cons d ds ih =>
    obtain ⟨hd, hds⟩ := List.forall_mem_cons.mp h
    rw [List.map_cons, List.cons_append, readNumbered, Reading.step, if_pos ⟨rfl, hd⟩,
      Nat.ofDigitChars_cons, ← ih hds]
    rfl

/-- A number is read as it was written. -/
theorem readNumbered_toDigits :
    readNumbered .dollar ((Nat.toDigits 10 n).map (Prod.mk .code) ++ ys) =
      readNumbered (.number n) ys := by
  have hvalue : Nat.ofDigitChars 10 (Nat.toDigits 10 n) 0 = n := Nat.ofDigitChars_ten_toDigits
  have hdigits := isDigit_toDigits (n := n)
  cases hds : Nat.toDigits 10 n with
  | nil => exact absurd hds Nat.toDigits_ne_nil
  | cons d ds =>
    rw [hds] at hvalue hdigits
    obtain ⟨hd, hrest⟩ := List.forall_mem_cons.mp hdigits
    rw [List.map_cons, List.cons_append, readNumbered, Reading.step, if_pos ⟨rfl, hd⟩,
      List.nil_append, readNumbered_digits hrest]
    rw [Nat.ofDigitChars_cons, Nat.mul_zero, Nat.zero_add] at hvalue
    rw [hvalue]

/-- What ends a number. -/
theorem readNumbered_number (h : ∀ y ∈ ys.head?, ¬ Digit y) :
    readNumbered (.number n) ys = .param n :: readNumbered (.idle false) ys := by
  cases ys with
  | nil => rfl
  | cons y ys =>
    have hstep : Reading.step (.number n) y =
        (.param n :: (Reading.other false y).1, (Reading.other false y).2) := if_neg (h y rfl)
    rw [readNumbered, hstep]
    rfl

theorem word_of_digit (h : Digit x) : Word x := by
  refine ⟨h.1, ?_⟩
  unfold isWord Char.isAlphanum
  rw [h.2]
  simp

/-- After a mark no number goes on. -/
theorem head_expand (h : ∀ y ∈ xs.head?, ¬ Word y) : ∀ y ∈ (expand n xs).head?, ¬ Digit y := by
  cases xs with
  | nil =>
    intro y hy
    cases hy
  | cons x xs =>
    rw [expand]
    split_ifs with hx
    · intro y hy
      cases hy
      rintro ⟨-, hdigit⟩
      exact absurd hdigit (by decide)
    · intro y hy
      cases hy
      exact fun hdigit => h x rfl (word_of_digit hdigit)

/-- **The numbers are read back** as the marks were counted. -/
theorem readNumbered_expand {word : Bool} (h : Portable xs)
    (hword : xs.head? = some mark → word = false) :
    readNumbered (.idle word) (expand n xs) = readMarks n xs := by
  induction xs generalizing n word with
  | nil => rfl
  | cons x xs ih =>
    obtain ⟨happart, hchain⟩ := List.isChain_cons.mp h.apart
    have hxs : Portable xs :=
      ⟨fun y hy => h.marks y (List.mem_cons_of_mem _ hy),
        fun hdollar => h.noDollar (List.mem_cons_of_mem _ hdollar), hchain⟩
    rw [expand, readMarks]
    by_cases hx : x = mark
    · subst hx
      rw [if_pos rfl, if_pos rfl, hword rfl]
      have hstep : Reading.step (.idle false) (.code, '$') = ([], .dollar) := rfl
      rw [readNumbered, hstep, List.nil_append, readNumbered_toDigits,
        readNumbered_number (head_expand fun y hy => (happart y hy).1 rfl), ih hxs fun _ => rfl]
    · rw [if_neg hx, if_neg hx]
      have hdollar : x ≠ (.code, '$') := fun heq => h.noDollar (heq ▸ List.mem_cons_self)
      have hstep : Reading.step (.idle word) x = ([.char x], .idle (decide (Word x))) := by
        unfold Reading.step Reading.other
        exact if_neg fun hboth => hdollar hboth.1
      rw [readNumbered, hstep, ih hxs fun hhead => decide_eq_false ((happart mark hhead).2 rfl)]
      rfl

end Read

/-! ## Statements -/

/-- The characters that stand in no comment. -/
def uncommented (xs : List Placed) : List Placed := xs.filter fun x => x.1 ≠ .comment

/-- The parts of a script between the semicolons in its code. -/
def statements (cs : List Char) : List (List Char) :=
  ((uncommented (scan .code cs)).splitOnP fun x => x = (.code, ';')).map (List.map Prod.snd)

/-- A script whose quoted parts hold neither a semicolon nor what begins a comment. -/
structure Cuttable (xs : List Placed) : Prop where
  semicolons : ∀ x ∈ xs, x.2 = ';' → x.1 ≠ .quoted
  dashes : xs.IsChain fun x y => ¬ (x = (.quoted, '-') ∧ y = (.quoted, '-'))

instance (xs : List Placed) : Decidable (Cuttable xs) :=
  decidable_of_iff ((∀ x ∈ xs, x.2 = ';' → x.1 ≠ .quoted) ∧
      xs.IsChain fun x y => ¬ (x = (.quoted, '-') ∧ y = (.quoted, '-')))
    ⟨fun h => ⟨h.1, h.2⟩, fun h => ⟨h.semicolons, h.dashes⟩⟩

/-- A text without what comes after `--` on a line; `inComment` tells where it begins. -/
def bare (inComment : Bool) : List Char → List Char
  | [] => []
  | c :: cs =>
    if c = '\n' then '\n' :: bare false cs
    else if inComment then bare true cs
    else if c = '-' ∧ cs.head? = some '-' then bare true cs
    else c :: bare false cs

section Statements

variable {cs : List Char} {xs : List Placed} {m : Mode}

/-- A mode in which no character but a quote ends a quoted part. -/
def Mode.Quotes : Mode → Prop
  | .quoted q => isQuote q = true
  | .code | .comment => True

def Mode.inComment : Mode → Bool
  | .comment => true
  | .code | .quoted _ => false

/-- Two dashes in a quoted part. -/
theorem dashes_quoted {q : Char} (hq : isQuote q = true)
    (h : (scan (.quoted q) ('-' :: cs)).IsChain fun x y => ¬ (x = (.quoted, '-') ∧ y = (.quoted, '-'))) :
    cs.head? ≠ some '-' := by
  intro hhead
  obtain ⟨cs, rfl⟩ : ∃ rest, cs = '-' :: rest := by
    cases cs with
    | nil => cases hhead
    | cons c cs => exact ⟨cs, by rw [Option.some.inj hhead]⟩
  have hne : '-' ≠ q := by
    rintro rfl
    exact absurd hq (by decide)
  rw [scan, scan, Mode.step, if_neg hne, List.isChain_cons_cons] at h
  exact h.1 ⟨rfl, rfl⟩

theorem bare_kept {c : Char} (h : ¬ (c = '-' ∧ cs.head? = some '-')) :
    bare false (c :: cs) = c :: bare false cs := by
  rw [bare, if_neg Bool.false_ne_true, if_neg h]
  split_ifs with hc
  · rw [hc]
  · rfl

/-- **A text without its comments**, by the lines. -/
theorem bare_scan (hm : m.Quotes)
    (h : (scan m cs).IsChain fun x y => ¬ (x = (.quoted, '-') ∧ y = (.quoted, '-'))) :
    bare m.inComment cs = (uncommented (scan m cs)).map Prod.snd := by
  induction cs generalizing m with
  | nil => rfl
  | cons c cs ih =>
    have htail : (scan (m.step c cs.head?).2 cs).IsChain
        fun x y => ¬ (x = (.quoted, '-') ∧ y = (.quoted, '-')) := by
      rw [scan] at h
      exact h.tail
    cases m with
    | comment =>
      by_cases hc : c = '\n'
      · have hstep : Mode.step .comment c cs.head? = (.code, .code) := if_pos hc
        rw [hstep] at htail
        have hrest : bare false cs = _ := ih (m := .code) trivial htail
        rw [scan, bare, if_pos hc, hstep, hrest, hc]
        rfl
      · have hstep : Mode.step .comment c cs.head? = (.comment, .comment) := if_neg hc
        rw [hstep] at htail
        have hrest : bare true cs = _ := ih (m := .comment) trivial htail
        rw [scan, bare, if_neg hc, hstep]
        exact hrest
    | quoted q =>
      have hrest : bare false cs = (uncommented (scan (Mode.step (.quoted q) c cs.head?).2 cs)).map
          Prod.snd := by
        by_cases hc : c = q
        · have hstep : Mode.step (.quoted q) c cs.head? = (.quoted, .code) := by
            unfold Mode.step
            simp only [if_pos hc]
          rw [hstep] at htail ⊢
          exact ih (m := .code) trivial htail
        · have hstep : Mode.step (.quoted q) c cs.head? = (.quoted, .quoted q) := by
            unfold Mode.step
            simp only [if_neg hc]
          rw [hstep] at htail ⊢
          exact ih (m := .quoted q) hm htail
      have hdash : ¬ (c = '-' ∧ cs.head? = some '-') := by
        rintro ⟨rfl, hhead⟩
        exact dashes_quoted hm h hhead
      exact (bare_kept hdash).trans (by rw [hrest]; rfl)
    | code =>
      by_cases hquote : isQuote c = true
      · have hstep : Mode.step .code c cs.head? = (.quoted, .quoted c) := if_pos hquote
        have hdash : ¬ (c = '-' ∧ cs.head? = some '-') := by
          rintro ⟨rfl, -⟩
          exact absurd hquote (by decide)
        rw [hstep] at htail
        have hrest : bare false cs = _ := ih (m := .quoted c) hquote htail
        rw [scan, hstep]
        exact (bare_kept hdash).trans (by rw [hrest]; rfl)
      · by_cases hdash : c = '-' ∧ cs.head? = some '-'
        · have hstep : Mode.step .code c cs.head? = (.comment, .comment) := by
            unfold Mode.step
            simp only [if_neg hquote, if_pos hdash]
          have hnl : c ≠ '\n' := by
            rw [hdash.1]
            decide
          have hgone : bare false (c :: cs) = bare true cs := by
            rw [bare, if_neg hnl, if_neg Bool.false_ne_true, if_pos hdash]
          rw [hstep] at htail
          rw [scan, hstep]
          exact hgone.trans (ih (m := .comment) trivial htail)
        · have hstep : Mode.step .code c cs.head? = (.code, .code) := by
            unfold Mode.step
            simp only [if_neg hquote, if_neg hdash]
          rw [hstep] at htail
          have hrest : bare false cs = _ := ih (m := .code) trivial htail
          rw [scan, hstep]
          exact (bare_kept hdash).trans (by rw [hrest]; rfl)

/-- **The statements**, by the characters of the text without its comments. -/
theorem split_chars (h : Cuttable (scan .code cs)) :
    statements cs = (bare false cs).splitOnP fun c => c = ';' := by
  have hbare : bare false cs = _ := bare_scan (m := .code) trivial h.dashes
  have hsemi : ∀ x ∈ uncommented (scan .code cs), x.2 = ';' → x = (.code, ';') := by
    intro x hx hc
    obtain ⟨hin, hplace⟩ := List.mem_filter.mp hx
    have hcomment : x.1 ≠ .comment := of_decide_eq_true hplace
    have hquoted := h.semicolons x hin hc
    obtain ⟨p, c⟩ := x
    obtain rfl : c = ';' := hc
    cases p with
    | code => rfl
    | quoted => exact absurd rfl hquoted
    | comment => exact absurd rfl hcomment
  rw [hbare]
  unfold statements
  generalize uncommented (scan .code cs) = xs at hsemi
  induction xs with
  | nil => rfl
  | cons x xs ih =>
    obtain ⟨hx, hxs⟩ := List.forall_mem_cons.mp hsemi
    rw [List.map_cons, List.splitOnP_cons_eq_if_modifyHead, List.splitOnP_cons_eq_if_modifyHead,
      ← ih hxs]
    by_cases hc : x.2 = ';'
    · rw [if_pos (decide_eq_true (hx hc)), if_pos (decide_eq_true hc)]
      rfl
    · rw [if_neg (by simpa using fun heq : x = (.code, ';') => hc (by rw [heq])),
        if_neg (by simpa using hc)]
      cases xs.splitOnP fun x => decide (x = (.code, ';')) with
      | nil => rfl
      | cons y ys => rfl

end Statements

end Llmops.Lib.Sql
