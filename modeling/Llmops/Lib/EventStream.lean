import Mathlib

/-!
# Event streams

How a client reads a stream of server-sent events: the lines of the stream, which end with LF, CR or
both, are comments or fields, and a blank line dispatches the event that was gathered, if there is any
data. A line or an event that is not complete yet is not read. The fields that only a reconnection
looks at (`id`, `retry`) gather nothing, and a byte order mark is no part of the stream.

* `readsLine`: a line is read whatever follows it;
* `received_frame`: of an event with one line of data, or a comment, what is received is the data, and
  the rest of the stream is read as a stream.
-/

namespace Llmops.Lib.EventStream

/-- An event that is dispatched: its type, and its data. -/
structure Event where
  type : List Char
  data : List Char
  deriving DecidableEq

/-- The event that is gathered; the data with a line feed after each line of it. -/
structure Gathered where
  type : List Char := []
  data : List Char := []

/-- The type of the events that give none. -/
def message : List Char := ['m', 'e', 's', 's', 'a', 'g', 'e']

/-- One field. -/
def Gathered.field (g : Gathered) (name value : List Char) : Gathered :=
  if name = ['d', 'a', 't', 'a'] then { g with data := g.data ++ value ++ ['\n'] }
  else if name = ['e', 'v', 'e', 'n', 't'] then { g with type := value }
  else g

/-- The event of a blank line. -/
def Gathered.dispatch (g : Gathered) : Option Event :=
  if g.data = [] then none else some ⟨if g.type = [] then message else g.type, g.data.dropLast⟩

/-- The value of a field, without the blank after the colon. -/
def fieldValue : List Char → List Char
  | ' ' :: value => value
  | value => value

/-- A line that is not blank. -/
def Gathered.line (g : Gathered) (line : List Char) : Gathered :=
  match line.span (· ≠ ':') with
  | ([], _ :: _) => g
  | (name, _ :: value) => g.field name (fieldValue value)
  | (name, []) => g.field name []

/-- The events of these lines. -/
def eventsOf (g : Gathered) : List (List Char) → List Event
  | [] => []
  | [] :: lines => g.dispatch.toList ++ eventsOf {} lines
  | line :: lines => eventsOf (g.line line) lines

/-- The lines of a stream, of which `line` is the beginning of the first. -/
def linesFrom (line : List Char) : List Char → List (List Char)
  | [] => []
  | '\r' :: '\n' :: t => line :: linesFrom [] t
  | c :: t => if c = '\n' ∨ c = '\r' then line :: linesFrom [] t else linesFrom (line ++ [c]) t

/-- What is received of a stream. -/
def received (t : List Char) : List Event := eventsOf {} (linesFrom [] t)

/-! ## Frames -/

/-- What a server writes: an event with one line of data, or a comment. -/
inductive Frame where
  | data (text : List Char)
  | comment (text : List Char)

/-- The text of a frame. -/
def Frame.render : Frame → List Char
  | .data text => ['d', 'a', 't', 'a', ':', ' '] ++ text ++ ['\n', '\n']
  | .comment text => [':', ' '] ++ text ++ ['\n', '\n']

/-- The text is one line. -/
def Frame.OneLine : Frame → Prop
  | .data text | .comment text => ∀ c ∈ text, c ≠ '\n' ∧ c ≠ '\r'

/-- The data of a frame. -/
def Frame.sent : Frame → Option (List Char)
  | .data text => some text
  | .comment _ => none

variable {line u t : List Char}

theorem linesFrom_cons {c : Char} (h : c ≠ '\n' ∧ c ≠ '\r') :
    linesFrom line (c :: t) = linesFrom (line ++ [c]) t := by
  rw [linesFrom]
  · exact if_neg (not_or.mpr h)
  · rintro t' hcr -
    exact h.2 hcr

/-- **A line is read** whatever follows it. -/
theorem readsLine (h : ∀ c ∈ u, c ≠ '\n' ∧ c ≠ '\r') :
    linesFrom line (u ++ '\n' :: t) = (line ++ u) :: linesFrom [] t := by
  induction u generalizing line with
  | nil =>
    rw [List.append_nil, List.nil_append, linesFrom]
    · exact if_pos (Or.inl rfl)
    · rintro t' hcr -
      cases hcr
  | cons c u ih =>
    obtain ⟨hc, hu⟩ := List.forall_mem_cons.mp h
    rw [List.cons_append, linesFrom_cons hc, ih hu, List.append_assoc]
    rfl

/-- A line and a blank one. -/
theorem received_line {c : Char} (h : ∀ d ∈ c :: u, d ≠ '\n' ∧ d ≠ '\r') :
    received (c :: u ++ ['\n', '\n'] ++ t) =
      (Gathered.line {} (c :: u)).dispatch.toList ++ received t := by
  have hlines : linesFrom [] (c :: u ++ ['\n', '\n'] ++ t) = (c :: u) :: [] :: linesFrom [] t := by
    have hblank : linesFrom [] ('\n' :: t) = [] :: linesFrom [] t :=
      readsLine (u := []) fun d hd => (List.not_mem_nil hd).elim
    rw [List.append_assoc, ← hblank]
    exact readsLine h
  unfold received
  rw [hlines]
  rfl

/-- **A frame is received** as what was sent with it, and nothing is left over. -/
theorem received_frame {f : Frame} (h : f.OneLine) :
    received (f.render ++ t) =
      (f.sent.map fun text => (⟨message, text⟩ : Event)).toList ++ received t := by
  cases f with
  | data text =>
    have hline : ∀ d ∈ 'd' :: (['a', 't', 'a', ':', ' '] ++ text), d ≠ '\n' ∧ d ≠ '\r' := by
      intro d hd
      obtain hd | hd := List.mem_append.mp (show d ∈ ['d', 'a', 't', 'a', ':', ' '] ++ text from hd)
      · exact (by simp : ∀ d ∈ ['d', 'a', 't', 'a', ':', ' '], d ≠ '\n' ∧ d ≠ '\r') d hd
      · exact h d hd
    have hdispatch : (Gathered.line {} ('d' :: (['a', 't', 'a', ':', ' '] ++ text))).dispatch =
        some ⟨message, text⟩ := by
      change (Gathered.dispatch ⟨[], text ++ ['\n']⟩) = _
      unfold Gathered.dispatch
      rw [if_neg (List.append_ne_nil_of_right_ne_nil _ (List.cons_ne_nil _ _)), if_pos rfl,
        List.dropLast_concat]
    exact (received_line hline).trans (by rw [hdispatch]; rfl)
  | comment text =>
    have hline : ∀ d ∈ ':' :: ([' '] ++ text), d ≠ '\n' ∧ d ≠ '\r' := by
      intro d hd
      obtain hd | hd := List.mem_append.mp (show d ∈ [':', ' '] ++ text from hd)
      · exact (by simp : ∀ d ∈ [':', ' '], d ≠ '\n' ∧ d ≠ '\r') d hd
      · exact h d hd
    exact received_line hline

end Llmops.Lib.EventStream
