import TopdeskMcp.Lib.HashMap
import Mathlib.Data.List.Basic
import Mathlib.Tactic.Common

/-!
# Words and assignments

* `Shell.words` splits a command line at the spaces outside double quotes, and takes
  quotes and backslashes away. Nothing is expanded.
* `Shell.assignments` reads a file of environment variables, a `KEY=value` on each line.
-/

namespace Shell

/-! ## Words -/

/-- Between two words, in a word, between double quotes, or right after a backslash; with what
has been read of the word. -/
inductive State where
  | between
  | word (read : List Char)
  | quoted (read : List Char)
  | escaped (read : List Char) (inQuotes : Bool)

/-- A character of a word that stands for itself. -/
def isPlain (c : Char) : Bool := c != ' ' && c != '"' && c != '\\'

theorem isPlain_iff {c : Char} : isPlain c = true ↔ c ≠ ' ' ∧ c ≠ '"' ∧ c ≠ '\\' := by
  simp [isPlain, and_assoc]

/-- The rest of the words; `none` when a quote is not closed. -/
def split : State → List Char → Option (List String)
  | .between, [] => some []
  | .word read, [] => some [String.ofList read]
  | .quoted _, [] => none
  | .escaped _ _, [] => none
  | .between, c :: rest =>
      if c = ' ' then split .between rest
      else if c = '"' then split (.quoted []) rest
      else if c = '\\' then split (.escaped [] false) rest
      else split (.word [c]) rest
  | .word read, c :: rest =>
      if c = ' ' then (split .between rest).map (String.ofList read :: ·)
      else if c = '"' then split (.quoted read) rest
      else if c = '\\' then split (.escaped read false) rest
      else split (.word (read ++ [c])) rest
  | .quoted read, c :: rest =>
      if c = '"' then split (.word read) rest
      else if c = '\\' then split (.escaped read true) rest
      else split (.quoted (read ++ [c])) rest
  | .escaped read false, c :: rest => split (.word (read ++ [c])) rest
  | .escaped read true, c :: rest =>
      -- between quotes a backslash is one before anything it does not have to protect
      if c ∈ "\"\\$`".toList then split (.quoted (read ++ [c])) rest
      else split (.quoted (read ++ ['\\', c])) rest

def words (line : List Char) : Option (List String) := split .between line

theorem split_word {w : List Char} (hw : w.all isPlain = true) (read rest : List Char) :
    split (.word read) (w ++ ' ' :: rest) =
      (words rest).map (String.ofList (read ++ w) :: ·) := by
  induction w generalizing read with
  | nil => simp [split, words]
  | cons c w ih =>
      rw [List.all_cons, Bool.and_eq_true] at hw
      obtain ⟨hspace, hquote, hbackslash⟩ := isPlain_iff.mp hw.1
      rw [List.cons_append, split, if_neg hspace, if_neg hquote, if_neg hbackslash, ih hw.2]
      simp

/-- A word of plain characters is the first one. -/
theorem words_cons {w : List Char} (hne : w ≠ []) (hw : w.all isPlain = true)
    (rest : List Char) :
    words (w ++ ' ' :: rest) = (words rest).map (String.ofList w :: ·) := by
  cases w with
  | nil => exact absurd rfl hne
  | cons c w =>
      rw [List.all_cons, Bool.and_eq_true] at hw
      obtain ⟨hspace, hquote, hbackslash⟩ := isPlain_iff.mp hw.1
      rw [List.cons_append, words, split, if_neg hspace, if_neg hquote, if_neg hbackslash,
        split_word hw.2]
      rfl

example : words "start --url \"a \\\"b\\\"\"".toList = some ["start", "--url", "a \"b\""] := by decide

/-! ## Assignments -/

/-- A line up to its first equals sign, and what follows. -/
def assignment (line : List Char) : Option (String × String) :=
  if '=' ∈ line then
    some (String.ofList (line.takeWhile (· ≠ '=')), String.ofList (line.dropWhile (· ≠ '=')).tail)
  else none

/-- The variables of a file, a later assignment over an earlier one. -/
def assignments (contents : List Char) : StringMap :=
  ((contents.splitOn '\n').filterMap assignment).foldl (fun env e => env.insert e.1 e.2) ∅

theorem assignment_line {key value : List Char} (h : '=' ∉ key) :
    assignment (key ++ '=' :: value) = some (String.ofList key, String.ofList value) := by
  have hkey : ∀ c ∈ key, decide (c ≠ '=') = true := by
    intro c hc
    simpa using fun heq : c = '=' => h (heq ▸ hc)
  rw [assignment, if_pos (by simp), List.takeWhile_append_of_pos hkey,
    List.dropWhile_append_of_pos hkey]
  simp

theorem newline_notMem_of_mem_splitOn {contents line : List Char}
    (h : line ∈ contents.splitOn '\n') : '\n' ∉ line := by
  induction contents generalizing line with
  | nil =>
      rw [List.splitOn_nil, List.mem_singleton] at h
      simp [h]
  | cons c contents ih =>
      rw [List.splitOn_cons_eq_if_modifyHead] at h
      split at h
      · rcases List.mem_cons.mp h with rfl | h
        · simp
        · exact ih h
      · rename_i hc
        -- the character goes to the first line
        obtain ⟨first, lines, hlines⟩ := List.exists_cons_of_ne_nil
          (List.splitOn_ne_nil '\n' contents)
        rw [hlines, List.modifyHead_cons] at h
        rcases List.mem_cons.mp h with rfl | h
        · have hne : '\n' ≠ c := fun heq => hc (beq_iff_eq.mpr heq.symm)
          exact List.not_mem_cons_of_ne_of_not_mem hne (ih (by simp [hlines]))
        · exact ih (by simp [hlines, h])

/-- No value has a line break in it. -/
theorem newline_notMem_of_lookup {contents : List Char} {key value : String}
    (h : (assignments contents).lookup key = some value) : '\n' ∉ value.toList := by
  have hmem := (StringMap.mem_of_lookup_foldl_insert h).resolve_right (by simp)
  obtain ⟨line, hline, hassignment⟩ := List.mem_filterMap.mp hmem
  rw [assignment] at hassignment
  split at hassignment
  · obtain ⟨-, rfl⟩ := Prod.mk.inj (Option.some.inj hassignment)
    intro hnewline
    rw [String.toList_ofList] at hnewline
    exact newline_notMem_of_mem_splitOn hline
      ((List.dropWhile_suffix _).subset (List.mem_of_mem_tail hnewline))
  · simp at hassignment

end Shell
