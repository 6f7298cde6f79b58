import TopdeskMcp.Lib.Lines
import TopdeskMcp.Scripts.ProductionCoverage
import Mathlib.Data.List.Infix

/-!
# The coverage report (`scripts/check_production_coverage.py`)

The script goes through the records of an LCOV report, leaves out the lines of test modules and
counts the others. `int`, the character class `\w` and the comparison of the percentages are
parameters (`Python`), and so are the source files. An exception ends the script, and nothing is
written then.

A match of `TEST_MODULE` is modelled by the text from its start and the text after its end.
-/

namespace TopdeskMcp.ProductionCoverage

abbrev Line := List Char

structure Python where
  int : Line → Except String Int
  isWord : Char → Bool
  /-- `percent + 1e-9 < args.minimum`, for so many covered lines of a total. -/
  below : Nat → Nat → Bool

/-- What `read_text` finds. -/
inductive SourceFile where
  | unreadable
  | undecodable
  | text (text : List Char)

/-! ## Test modules -/

def isBlank (c : Char) : Bool := c == ' ' || c == '\t'

/-- What follows a literal. -/
def afterLiteral (literal : String) (text : List Char) : Option (List Char) :=
  if literal.toList.isPrefixOf text then some (text.drop literal.toList.length) else none

/-- `[ \t]+` -/
def afterBlanks : List Char → Option (List Char)
  | c :: text => if isBlank c then some (text.dropWhile isBlank) else none
  | [] => none

/-- `[A-Za-z_]\w*` -/
def afterName (isWord : Char → Bool) : List Char → Option (List Char)
  | c :: text => if c.isAlpha || c == '_' then some (text.dropWhile isWord) else none
  | [] => none

/-- The pattern after `^`; no part of it can begin where the part before it could go on. -/
def testModule (isWord : Char → Bool) (text : List Char) : Option (List Char) := do
  let text ← afterLiteral "#[cfg(test)]" (text.dropWhile isBlank)
  let text ← afterLiteral "\n" (text.dropWhile isBlank)
  let text ← afterLiteral "mod" (text.dropWhile isBlank)
  let text ← afterBlanks text
  let text ← afterName isWord text
  afterLiteral "\x7b" (text.dropWhile isBlank)

/-- What comes after is a proper part of the text. -/
theorem afterLiteral_eq {literal : String} {text after : List Char}
    (h : afterLiteral literal text = some after) : text = literal.toList ++ after := by
  unfold afterLiteral at h
  split at h
  · rename_i hstart
    obtain ⟨rest, rfl⟩ := List.isPrefixOf_iff_prefix.mp hstart
    rw [List.drop_left] at h
    rw [Option.some.inj h]
  · simp at h

theorem afterBlanks_suffix {text after : List Char} (h : afterBlanks text = some after) :
    after <:+ text := by
  unfold afterBlanks at h
  split at h
  · split at h
    · rw [← Option.some.inj h]
      exact (List.dropWhile_suffix _).trans (List.suffix_cons _ _)
    · simp at h
  · simp at h

theorem afterName_suffix {isWord : Char → Bool} {text after : List Char}
    (h : afterName isWord text = some after) : after <:+ text := by
  unfold afterName at h
  split at h
  · split at h
    · rw [← Option.some.inj h]
      exact (List.dropWhile_suffix _).trans (List.suffix_cons _ _)
    · simp at h
  · simp at h

theorem afterLiteral_suffix {literal : String} {text after : List Char}
    (h : afterLiteral literal (text.dropWhile isBlank) = some after) :
    after <:+ text :=
  (List.suffix_append literal.toList after).trans
    (afterLiteral_eq h ▸ List.dropWhile_suffix isBlank)

/-- A match ends in the opening brace. -/
theorem testModule_eq {isWord : Char → Bool} {text after : List Char}
    (h : testModule isWord text = some after) : ∃ header, text = header ++ '{' :: after := by
  obtain ⟨text₁, h₁, h⟩ := Option.bind_eq_some_iff.mp h
  obtain ⟨text₂, h₂, h⟩ := Option.bind_eq_some_iff.mp h
  obtain ⟨text₃, h₃, h⟩ := Option.bind_eq_some_iff.mp h
  obtain ⟨text₄, h₄, h⟩ := Option.bind_eq_some_iff.mp h
  obtain ⟨text₅, h₅, h⟩ := Option.bind_eq_some_iff.mp h
  have hbrace : '{' :: after <:+ text₅ := by
    rw [show '{' :: after = "\x7b".toList ++ after from rfl, ← afterLiteral_eq h]
    exact List.dropWhile_suffix isBlank
  obtain ⟨header, hheader⟩ := hbrace.trans <| (afterName_suffix h₅).trans <|
    (afterBlanks_suffix h₄).trans <| (afterLiteral_suffix h₃).trans <|
    (afterLiteral_suffix h₂).trans (afterLiteral_suffix h₁)
  exact ⟨header, hheader.symm⟩

/-- `finditer`; whether the text begins a line is known from the character before. -/
def finditer (isWord : Char → Bool) (lineStart : Bool) : List Char → List (List Char × List Char)
  | [] => []
  | c :: text =>
      match _h : if lineStart then testModule isWord (c :: text) else none with
      | some after => (c :: text, after) :: finditer isWord false after
      | none => finditer isWord (c == '\n') text
termination_by text => text.length
decreasing_by
  · split at _h
    · obtain ⟨header, hheader⟩ := testModule_eq _h
      rw [hheader, List.length_append, List.length_cons]
      omega
    · simp at _h
  · simp

def lineAt (text : List Char) (index : Nat) : Nat := (text.take index).count '\n' + 1

def testRange (text : List Char) (found : List Char × List Char) : Except String (Nat × Nat) := do
  let closing ← matchingBrace text (text.length - found.2.length - 1)
  return (lineAt text (text.length - found.1.length), lineAt text closing)

def testRanges (python : Python) : SourceFile → Except String (List (Nat × Nat))
  | .unreadable => .ok []
  | .undecodable => .error "invalid utf-8"
  | .text text => (finditer python.isWord true text).mapM (testRange text)

/-! ## Records -/

def startsWith (line : Line) (literal : String) : Bool := literal.toList.isPrefixOf line

structure Filtered where
  kept : List Line
  found : Nat
  hit : Nat

/-- `any`; the number is only read if there is a range. -/
def inRanges (python : Python) (lineNumber : Line) : List (Nat × Nat) → Except String Bool
  | [] => .ok false
  | (start, stop) :: ranges => do
      let n ← python.int lineNumber
      if start ≤ n ∧ n ≤ stop then return true else inRanges python lineNumber ranges

/-- The body of the loop of `filter_record`. -/
def filterLine (python : Python) (ranges : List (Nat × Nat)) (f : Filtered) (line : Line) :
    Except String Filtered :=
  if startsWith line "DA:" then
    match (line.drop 3).splitOn ',' with
    | lineNumber :: count :: _ => do
        if ← inRanges python lineNumber ranges then return f
        let count ← python.int count
        return { kept := f.kept ++ [line], found := f.found + 1,
                 hit := f.hit + if 0 < count then 1 else 0 }
    | _ => .error "not enough values to unpack (expected at least 2, got 1)"
  else if startsWith line "LF:" || startsWith line "LH:" then .ok f
  else .ok { f with kept := f.kept ++ [line] }

def endOfRecord : Line := "end_of_record".toList

def countLine (name : String) (count : Nat) : Line := name.toList ++ count.repr.toList

def recordRanges (python : Python) (files : Line → SourceFile) (record : List Line) :
    Except String (List (Nat × Nat)) :=
  match record.find? (startsWith · "SF:") with
  | some sourceLine => testRanges python (files (sourceLine.drop 3))
  | none => .ok []

def filterRecord (python : Python) (files : Line → SourceFile) (record : List Line) :
    Except String Filtered := do
  let ranges ← recordRanges python files record
  let f ← record.foldlM (filterLine python ranges) ⟨[], 0, 0⟩
  return { f with kept := f.kept ++ [countLine "LF:" f.found, countLine "LH:" f.hit, endOfRecord] }

/-! ## The script -/

structure Report where
  filtered : List Line
  total : Nat
  covered : Nat

/-- What is done with a record, in the loop and after it. -/
def addRecord (python : Python) (files : Line → SourceFile) (report : Report)
    (record : List Line) : Except String Report := do
  let f ← filterRecord python files record
  return { filtered := report.filtered ++ f.kept, total := report.total + f.found,
           covered := report.covered + f.hit }

def readReport (python : Python) (files : Line → SourceFile) (input : List Char) :
    Except String Report :=
  (Lines.split input).foldlM (Lines.gather endOfRecord (addRecord python files)) (⟨[], 0, 0⟩, []) >>=
    Lines.finish (addRecord python files)

/-- What is written and printed, and the exit code. -/
structure Outcome where
  output : List Char
  total : Nat
  covered : Nat
  exitCode : Nat

def main (python : Python) (files : Line → SourceFile) (input : List Char) :
    Except String Outcome := do
  let report ← readReport python files input
  return {
    output := ['\n'].intercalate report.filtered ++ ['\n']
    total := report.total
    covered := report.covered
    exitCode :=
      if report.total = 0 then 1
      else if python.below report.covered report.total then 1
      else 0 }

end TopdeskMcp.ProductionCoverage
