import Llmops.Lib.SqlText
import Llmops.Lib.Text
import Llmops.Router.Metrics

/-!
# One text for two databases

The SQL of the store is written for SQLite; for Postgres its marks become numbers
(`translate_placeholders`) and its scripts are cut into statements (`split_statements`), both by
characters alone (`packages/llmops-store/_driver.py:32-63`).

* `translate_binds`: the numbers bind the parameters as the marks do, where every `?` stands in the
  code and touches no word;
* `splitStatements_eq`: the parts of a script are its statements, where its quoted parts hold neither
  a semicolon nor two dashes.
-/

namespace Llmops.Store

open Lib Lib.Sql

/-! ## Parameters -/

/-- `translate_placeholders`. -/
def translatePlaceholders (sql : String) : String := .ofList (dollars 0 sql.toList)

/-- **The numbers bind the parameters as the marks do**, and nothing else of the statement changes. -/
theorem translate_binds {sql : String} (h : Portable (scan .code sql.toList)) :
    readNumbered (.idle false) (scan .code (translatePlaceholders sql).toList) =
      readMarks 0 (scan .code sql.toList) := by
  unfold translatePlaceholders
  rw [String.toList_ofList, scan_dollars h.marks]
  exact readNumbered_expand h fun _ => rfl

/-- A condition on two columns, with a comment and a literal. -/
theorem translate_binds_two :
    let sql := "UPDATE t SET a=?, b='$' WHERE k=?-- ..."
    readNumbered (.idle false) (scan .code (translatePlaceholders sql).toList) =
      readMarks 0 (scan .code sql.toList) := translate_binds (by decide +kernel)

/-! ## Statements -/

/-- `str.splitlines`, where `line` has been read of the first line. -/
def splitLinesFrom (line : List Char) : List Char → List (List Char)
  | [] => if line = [] then [] else [line]
  | '\r' :: '\n' :: cs => line :: splitLinesFrom [] cs
  | c :: cs =>
    if Metrics.isBoundary c then line :: splitLinesFrom [] cs else splitLinesFrom (line ++ [c]) cs

/-- `line.split("--", 1)[0]`. -/
def beforeDashes (line : List Char) : List Char :=
  ((splitFirst ['-', '-'] line).map Prod.fst).getD line

/-- `no_comments`. -/
def noComments (script : List Char) : List Char :=
  ['\n'].intercalate ((splitLinesFrom [] script).map beforeDashes)

/-- `split_statements`. -/
def splitStatements (script : String) : List String :=
  (((noComments script.toList).splitOnP fun c => c = ';').map fun p => strip (.ofList p)).filter
    (· ≠ "")

section Lines

variable {line cs rest : List Char} {c : Char}

theorem bare_true (h : '\n' ∉ cs) : bare true cs = [] := by
  induction cs with
  | nil => rfl
  | cons c cs ih =>
    obtain ⟨hc, hcs⟩ := not_or.mp (List.mem_cons.not.mp h)
    rw [bare, if_neg (Ne.symm hc), if_pos rfl]
    exact ih hcs

/-- One line without its comment. -/
theorem bare_line (h : '\n' ∉ line) : bare false line = beforeDashes line := by
  unfold beforeDashes
  induction line with
  | nil => rfl
  | cons c cs ih =>
    obtain ⟨hc, hcs⟩ := not_or.mp (List.mem_cons.not.mp h)
    rw [bare, if_neg (Ne.symm hc), if_neg Bool.false_ne_true, splitFirst]
    have hstarts : ['-', '-'].isPrefixOf (c :: cs) = true ↔ c = '-' ∧ cs.head? = some '-' := by
      cases cs with
      | nil => simp [List.isPrefixOf]
      | cons d cs =>
        rw [List.isPrefixOf_cons_cons, List.isPrefixOf_cons_cons, List.isPrefixOf_nil_left,
          Bool.and_true, Bool.and_eq_true, beq_iff_eq, beq_iff_eq, List.head?_cons, Option.some_inj, eq_comm,
          eq_comm (a := '-')]
    by_cases hdash : c = '-' ∧ cs.head? = some '-'
    · rw [if_pos hdash, if_pos (hstarts.mpr hdash), bare_true hcs]
      rfl
    · rw [if_neg hdash, if_neg fun hp => hdash (hstarts.mp hp), ih hcs]
      cases splitFirst ['-', '-'] cs <;> rfl

/-- A line, and the lines after it. -/
theorem bare_append (h : '\n' ∉ line) (inComment : Bool) :
    bare inComment (line ++ '\n' :: rest) = bare inComment line ++ '\n' :: bare false rest := by
  induction line generalizing inComment with
  | nil => rfl
  | cons c cs ih =>
    obtain ⟨hc, hcs⟩ := not_or.mp (List.mem_cons.not.mp h)
    have hhead : (cs ++ '\n' :: rest).head? = some '-' ↔ cs.head? = some '-' := by
      cases cs with
      | nil => simp
      | cons d cs => rfl
    rw [List.cons_append, bare, bare, if_neg (Ne.symm hc), if_neg (Ne.symm hc), ih hcs, ih hcs]
    simp only [hhead]
    split_ifs <;> rfl

theorem splitLinesFrom_cons (h : c ≠ '\r') : splitLinesFrom line (c :: cs) =
    if Metrics.isBoundary c then line :: splitLinesFrom [] cs
    else splitLinesFrom (line ++ [c]) cs := by
  rw [splitLinesFrom]
  exact fun _ hc _ => h hc

theorem splitLinesFrom_eq_nil (h : splitLinesFrom [] cs = []) (hr : '\r' ∉ cs) : cs = [] := by
  have hne (cs : List Char) (line : List Char) (hline : line ≠ []) (hr : '\r' ∉ cs) :
      splitLinesFrom line cs ≠ [] := by
    induction cs generalizing line with
    | nil =>
      rw [splitLinesFrom, if_neg hline]
      exact List.cons_ne_nil _ _
    | cons c cs ih =>
      obtain ⟨hc, hcs⟩ := not_or.mp (List.mem_cons.not.mp hr)
      rw [splitLinesFrom_cons (Ne.symm hc)]
      split_ifs
      · exact List.cons_ne_nil _ _
      · exact ih _ (by simp) hcs
  cases cs with
  | nil => rfl
  | cons c cs =>
    obtain ⟨hc, hcs⟩ := not_or.mp (List.mem_cons.not.mp hr)
    rw [splitLinesFrom_cons (Ne.symm hc)] at h
    split_ifs at h
    exact absurd h (hne cs _ (by simp) hcs)

/-- **The lines without their comments**, put together: the script without them, but for the end of
the last line. -/
theorem bare_eq_noComments (line : List Char) (hlines : ∀ c ∈ cs, Metrics.isBoundary c = true → c = '\n')
    (hline : '\n' ∉ line) : ∃ last, (last = [] ∨ last = ['\n']) ∧ bare false (line ++ cs) =
      ['\n'].intercalate ((splitLinesFrom line cs).map beforeDashes) ++ last := by
  induction cs generalizing line with
  | nil =>
    refine ⟨[], .inl rfl, ?_⟩
    rw [splitLinesFrom, List.append_nil, List.append_nil]
    split_ifs with hnil
    · subst hnil
      rfl
    · rw [bare_line hline]
      exact (List.intercalate_singleton).symm
  | cons c cs ih =>
    obtain ⟨hc, hcs⟩ := List.forall_mem_cons.mp hlines
    have hr : '\r' ∉ cs := fun hmem => absurd (hcs _ hmem (by decide)) (by decide)
    have hcr : c ≠ '\r' := by
      rintro rfl
      exact absurd (hc (by decide)) (by decide)
    rw [splitLinesFrom_cons hcr]
    by_cases hnl : c = '\n'
    · subst hnl
      rw [if_pos (by decide), bare_append hline, bare_line hline]
      obtain ⟨last, hlast, hrest⟩ := ih [] hcs List.not_mem_nil
      rw [List.nil_append] at hrest
      cases hls : splitLinesFrom [] cs with
      | nil =>
        obtain rfl := splitLinesFrom_eq_nil hls hr
        exact ⟨['\n'], .inr rfl, by simp [bare, List.intercalate_singleton]⟩
      | cons l ls =>
        rw [hls] at hrest
        refine ⟨last, hlast, ?_⟩
        rw [hrest, List.map_cons, List.map_cons, List.map_cons, List.intercalate_cons_cons]
        simp
    · rw [if_neg fun hb => hnl (hc hb)]
      have hconcat : line ++ c :: cs = (line ++ [c]) ++ cs := by simp
      rw [hconcat]
      refine ih _ hcs ?_
      rw [List.mem_append, List.mem_singleton]
      rintro (h | h)
      · exact hline h
      · exact hnl h.symm

end Lines

section Split

variable {cs : List Char} {c : Char} {p : Char → Bool}

/-- The parts of a text to which a character is added, which does not separate. -/
theorem splitOnP_concat (cs : List Char) (h : p c = false) : ∃ parts part,
    cs.splitOnP p = parts ++ [part] ∧ (cs ++ [c]).splitOnP p = parts ++ [part ++ [c]] := by
  induction cs with
  | nil =>
    refine ⟨[], [], rfl, ?_⟩
    rw [List.nil_append, List.splitOnP_cons_eq_if_modifyHead, h]
    rfl
  | cons d cs ih =>
    obtain ⟨parts, part, hparts, hconcat⟩ := ih
    rw [List.cons_append, List.splitOnP_cons_eq_if_modifyHead, List.splitOnP_cons_eq_if_modifyHead,
      hparts, hconcat]
    split_ifs with hd
    · exact ⟨[] :: parts, part, rfl, rfl⟩
    · cases parts with
      | nil => exact ⟨[], d :: part, rfl, rfl⟩
      | cons q parts => exact ⟨(d :: q) :: parts, part, rfl, rfl⟩

/-- A blank at the end is stripped. -/
theorem strip_concat (h : isSpace c = true) : strip (.ofList (cs ++ [c])) = strip (.ofList cs) := by
  unfold strip
  rw [String.toList_ofList, String.toList_ofList, List.dropWhile_append]
  split_ifs with hnil
  · rw [List.isEmpty_iff.mp hnil, List.dropWhile_cons_of_pos h]
    rfl
  · rw [List.reverse_append, List.reverse_singleton, List.singleton_append,
      List.dropWhile_cons_of_pos h]

/-- **The parts of a script are its statements.** -/
theorem splitStatements_eq {script : String}
    (hlines : ∀ c ∈ script.toList, Metrics.isBoundary c = true → c = '\n')
    (h : Cuttable (scan .code script.toList)) :
    splitStatements script =
      ((statements script.toList).map fun p => strip (.ofList p)).filter (· ≠ "") := by
  obtain ⟨last, hlast, hbare⟩ := bare_eq_noComments [] hlines List.not_mem_nil
  rw [List.nil_append] at hbare
  rw [split_chars h, hbare]
  unfold splitStatements noComments
  rcases hlast with rfl | rfl
  · rw [List.append_nil]
  · obtain ⟨parts, part, hparts, hconcat⟩ := splitOnP_concat
      (['\n'].intercalate ((splitLinesFrom [] script.toList).map beforeDashes))
      (c := '\n') (p := fun c => decide (c = ';')) (by decide)
    rw [hparts, hconcat, List.map_append, List.map_append, List.map_singleton, List.map_singleton,
      strip_concat (by decide)]

end Split

/-- Two statements, and a comment with a semicolon. -/
theorem splitStatements_eq_two :
    let script := "CREATE t; -- a; b\nDROP t\n"
    splitStatements script =
      ((statements script.toList).map fun p => strip (.ofList p)).filter (· ≠ "") :=
  splitStatements_eq (by simp [Metrics.isBoundary]) (by decide +kernel)

end Llmops.Store
