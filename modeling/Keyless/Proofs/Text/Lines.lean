/-
What a text holds, line by line, however its lines are set.

A line may have blanks on either side of what it holds, and end with a line feed alone or with a
carriage return before it.  A reader that cuts the text at its line feeds and trims what it gets
sees nothing of that: the carriage return is a blank like the others (`Text.contents_append`).
-/
import Keyless.Proofs.Text.Blank

namespace Keyless.Text

/-- The two ways in which a line ends. -/
inductive LineEnd where
  | lf
  | crlf

/-- The characters of a line end. -/
def LineEnd.chars : LineEnd → List Char
  | lf => ['\n']
  | crlf => ['\r', '\n']

/-- A line as it is set: what it holds, the blanks around that, and its end. -/
structure Line where
  before : List Char
  content : List Char
  after : List Char
  lineEnd : LineEnd
  before_blank : ∀ c ∈ before, isBlank c = true
  after_blank : ∀ c ∈ after, isBlank c = true
  unbroken : '\n' ∉ before ++ content ++ after

namespace Line

/-- The line up to its end. -/
def inner (line : Line) : List Char := line.before ++ line.content ++ line.after

/-- The line with its end. -/
def text (line : Line) : List Char := line.inner ++ line.lineEnd.chars

end Line

/-- What the lines of a text hold. -/
def contents (text : List Char) : List (List Char) := (lines text).map trim

/-! ### Trimming -/

theorem trim_eq_self {text : List Char} (first : ∀ c, text.head? = some c → isBlank c = false)
    (last : ∀ c, text.getLast? = some c → isBlank c = false) : trim text = text :=
  isTrimmed_iff.mp { around := ⟨[], [], by simp, by simp, by simp⟩, first, last }

/-- Blanks around a text are trimmed with its own. -/
theorem trim_append_blanks {before text after : List Char}
    (hbefore : ∀ c ∈ before, isBlank c = true) (hafter : ∀ c ∈ after, isBlank c = true) :
    trim (before ++ text ++ after) = trim text := by
  obtain ⟨⟨front, back, htext, hfront, hback⟩, first, last⟩ := isTrimmed_trim text
  refine isTrimmed_iff.mp { around := ⟨before ++ front, back ++ after, ?_, ?_, ?_⟩, first, last }
  · have hmiddle := congrArg (fun middle => before ++ middle ++ after) htext
    simpa only [List.append_assoc] using hmiddle
  · exact List.forall_mem_append.mpr ⟨hbefore, hfront⟩
  · exact List.forall_mem_append.mpr ⟨hback, hafter⟩

/-! ### Cutting -/

theorem lines_append_lf {line : List Char} (unbroken : '\n' ∉ line) (rest : List Char) :
    lines (line ++ '\n' :: rest) = line :: lines rest := by
  induction line with
  | nil => rfl
  | cons c line ih =>
      rw [List.mem_cons, not_or] at unbroken
      rw [List.cons_append, lines, if_neg (Ne.symm unbroken.1), ih unbroken.2]

theorem lines_eq_singleton {line : List Char} (unbroken : '\n' ∉ line) : lines line = [line] := by
  induction line with
  | nil => rfl
  | cons c line ih =>
      rw [List.mem_cons, not_or] at unbroken
      rw [lines, if_neg (Ne.symm unbroken.1), ih unbroken.2]

/-- What stands before the line feed of a line end is blank. -/
theorem LineEnd.exists_return (lineEnd : LineEnd) : ∃ carriage, lineEnd.chars = carriage ++ ['\n'] ∧
    (∀ c ∈ carriage, isBlank c = true) ∧ '\n' ∉ carriage := by
  cases lineEnd with
  | lf => exact ⟨[], rfl, by simp, by simp⟩
  | crlf => exact ⟨['\r'], rfl, List.forall_mem_singleton.mpr rfl, by decide⟩

/-- A line holds its content and nothing of how it is set. -/
theorem contents_append (line : Line) (rest : List Char) :
    contents (line.text ++ rest) = trim line.content :: contents rest := by
  obtain ⟨carriage, hchars, hblank, hunbroken⟩ := line.lineEnd.exists_return
  have htext : line.text ++ rest =
      line.before ++ line.content ++ (line.after ++ carriage) ++ '\n' :: rest := by
    rw [Line.text, Line.inner, hchars]
    simp only [List.append_assoc, List.cons_append, List.nil_append]
  have unbroken : '\n' ∉ line.before ++ line.content ++ (line.after ++ carriage) := by
    rw [← List.append_assoc, List.mem_append, not_or]
    exact ⟨line.unbroken, hunbroken⟩
  have hafter : ∀ c ∈ line.after ++ carriage, isBlank c = true :=
    List.forall_mem_append.mpr ⟨line.after_blank, hblank⟩
  rw [contents, htext, lines_append_lf unbroken, List.map_cons,
    trim_append_blanks line.before_blank hafter, contents]

theorem contents_flatMap (set : List Line) (rest : List Char) :
    contents (set.flatMap Line.text ++ rest) =
      set.map (fun line => trim line.content) ++ contents rest := by
  induction set with
  | nil => rfl
  | cons line others ih =>
      rw [List.flatMap_cons, List.append_assoc, contents_append, ih, List.map_cons,
        List.cons_append]

/-- The last line of a text may stand without an end. -/
theorem contents_inner (line : Line) : contents line.inner = [trim line.content] := by
  rw [contents, Line.inner, lines_eq_singleton line.unbroken, List.map_singleton,
    trim_append_blanks line.before_blank line.after_blank]

end Keyless.Text
