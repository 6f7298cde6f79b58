import TopdeskMcp.Scripts.CoverageReport
import TopdeskMcp.Theorems.ClosingBrace
import Mathlib.Algebra.Ring.Nat

/-!
# What the coverage gate counts

The script adds up its counts line by line. What it comes to is said line by line too: a line is
kept, counted and covered by predicates on the line (`filterLine_eq`), so a record is filtered by
them (`filterRecord_eq_ok_iff`), and a report is the concatenation of its records
(`main_eq_ok_iff`).

* A filtered record is filtered to itself, so the script leaves its own output as it is
  (`gate_idempotent`);
* the lines that are left out are those from the attribute of a test module to its closing brace
  (`gate_exact`).
-/

namespace TopdeskMcp.Theorems.CoverageGate

open TopdeskMcp.ProductionCoverage Rust

open TopdeskMcp.Theorems.ClosingBrace (Balanced InStep matchingBrace_of_front)

section

variable {python : Python} {files : Line → SourceFile} {ranges : List (Nat × Nat)}
  {record : List Line} {line : Line} {input : List Char} {outcome : Outcome}

/-! ## One line -/

/-- The number of the line is in a range. -/
def isTest (python : Python) (ranges : List (Nat × Nat)) (line : Line) : Bool :=
  match (line.drop 3).splitOn ',' with
  | lineNumber :: _ :: _ => (inRanges python lineNumber ranges).toOption == some true
  | _ => false

/-- The line was executed. -/
def isHit (python : Python) (line : Line) : Bool :=
  match (line.drop 3).splitOn ',' with
  | _ :: count :: _ =>
      match python.int count with
      | .ok n => decide (0 < n)
      | .error _ => false
  | _ => false

def isCounted (python : Python) (ranges : List (Nat × Nat)) (line : Line) : Bool :=
  startsWith line "DA:" && !isTest python ranges line

def isCovered (python : Python) (ranges : List (Nat × Nat)) (line : Line) : Bool :=
  isCounted python ranges line && isHit python line

def isKept (python : Python) (ranges : List (Nat × Nat)) (line : Line) : Bool :=
  if startsWith line "DA:" then !isTest python ranges line
  else !(startsWith line "LF:" || startsWith line "LH:")

/-- The exceptions that a line can raise. -/
def check (python : Python) (ranges : List (Nat × Nat)) (line : Line) : Except String Unit :=
  (filterLine python ranges ⟨[], 0, 0⟩ line).map fun _ => ()

/-- All that is done with a line. -/
theorem filterLine_eq (python : Python) (ranges : List (Nat × Nat)) (f : Filtered) (line : Line) :
    filterLine python ranges f line = (check python ranges line).map fun _ =>
      { kept := f.kept ++ [line].filter (isKept python ranges)
        found := f.found + [line].countP (isCounted python ranges)
        hit := f.hit + [line].countP (isCovered python ranges) } := by
  unfold check filterLine
  by_cases hda : startsWith line "DA:" = true
  · rw [if_pos hda, if_pos hda]
    cases hfields : (line.drop 3).splitOn ',' with
    | nil => rfl
    | cons lineNumber fields =>
        cases fields with
        | nil => rfl
        | cons count fields =>
            cases htest : inRanges python lineNumber ranges with
            | error err => simp only [htest]; rfl
            | ok test =>
                cases test with
                | true =>
                    have hisTest : isTest python ranges line = true := by
                      simp [isTest, hfields, htest, Except.toOption]
                    simp [htest, isKept, isCounted, isCovered, hda, hisTest, Except.map, Bind.bind,
                      Except.bind, Pure.pure, Except.pure]
                | false =>
                    have hisTest : isTest python ranges line = false := by
                      simp [isTest, hfields, htest, Except.toOption]
                    cases hcount : python.int count with
                    | error err => simp [htest, hcount, Except.map, Bind.bind, Except.bind]
                    | ok n =>
                        have hisHit : isHit python line = decide (0 < n) := by
                          simp [isHit, hfields, hcount]
                        simp [htest, hcount, isKept, isCounted, isCovered, hda, hisTest, hisHit,
                          Except.map, Bind.bind, Except.bind, Pure.pure, Except.pure,
                          List.countP_cons]
  · rw [if_neg hda, if_neg hda]
    by_cases hcounts : (startsWith line "LF:" || startsWith line "LH:") = true
    · simp [isKept, isCounted, isCovered, hda, hcounts, Except.map]
    · simp [isKept, isCounted, isCovered, hda, hcounts, Except.map]

/-! ## One record -/

/-- What is made of the lines of a record. -/
def filtered (python : Python) (ranges : List (Nat × Nat)) (record : List Line) : Filtered where
  kept := record.filter (isKept python ranges)
  found := record.countP (isCounted python ranges)
  hit := record.countP (isCovered python ranges)

/-- No line raises an exception. -/
def Clean (python : Python) (ranges : List (Nat × Nat)) (record : List Line) : Prop :=
  ∀ line ∈ record, check python ranges line = .ok ()

theorem foldlM_filterLine_eq_ok_iff (f f' : Filtered) :
    record.foldlM (filterLine python ranges) f = .ok f' ↔ Clean python ranges record ∧
      f' = { kept := f.kept ++ (filtered python ranges record).kept
             found := f.found + (filtered python ranges record).found
             hit := f.hit + (filtered python ranges record).hit } := by
  induction record generalizing f with
  | nil =>
      show Except.ok f = Except.ok f' ↔ _
      simp [Clean, filtered, eq_comm]
  | cons line record ih =>
      rw [List.foldlM_cons, filterLine_eq, Clean, List.forall_mem_cons]
      cases check python ranges line with
      | error err =>
          show Except.error err = Except.ok f' ↔ _
          simp
      | ok checked =>
          show record.foldlM (filterLine python ranges) _ = _ ↔ _
          rw [ih]
          have hsum : filtered python ranges (line :: record) =
              { kept := [line].filter (isKept python ranges) ++ (filtered python ranges record).kept
                found := [line].countP (isCounted python ranges) +
                  (filtered python ranges record).found
                hit := [line].countP (isCovered python ranges) +
                  (filtered python ranges record).hit } := by
            rw [filtered, ← List.singleton_append, List.filter_append, List.countP_append,
              List.countP_append, filtered]
          rw [hsum]
          simp only [List.append_assoc, Nat.add_assoc, Clean, true_and]

/-- A record as the script leaves it. -/
def reduced (python : Python) (ranges : List (Nat × Nat)) (record : List Line) : List Line :=
  (filtered python ranges record).kept ++ [countLine "LF:" (filtered python ranges record).found,
    countLine "LH:" (filtered python ranges record).hit]

theorem filterRecord_eq_ok_iff (f : Filtered) : filterRecord python files record = .ok f ↔
    ∃ ranges, recordRanges python files record = .ok ranges ∧ Clean python ranges record ∧
      f = { filtered python ranges record with
        kept := reduced python ranges record ++ [endOfRecord] } := by
  unfold filterRecord
  rw [Lines.bind_eq_ok_iff]
  refine exists_congr fun ranges => and_congr_right fun _ => ?_
  rw [Lines.bind_eq_ok_iff]
  constructor
  · rintro ⟨f', hfold, hf⟩
    obtain ⟨hclean, rfl⟩ := (foldlM_filterLine_eq_ok_iff _ f').mp hfold
    refine ⟨hclean, ?_⟩
    rw [← Except.ok.inj hf]
    simp [reduced]
  · rintro ⟨hclean, rfl⟩
    refine ⟨_, (foldlM_filterLine_eq_ok_iff _ _).mpr ⟨hclean, rfl⟩, congrArg Except.ok ?_⟩
    simp [reduced]

/-! ## The report -/

/-- The ranges of a record that can be read. -/
def rangesOf (python : Python) (files : Line → SourceFile) (record : List Line) :
    List (Nat × Nat) :=
  (recordRanges python files record).toOption.getD []

/-- No exception is raised for a record. -/
structure Readable (python : Python) (files : Line → SourceFile) (record : List Line) : Prop where
  ranges : recordRanges python files record = .ok (rangesOf python files record)
  clean : Clean python (rangesOf python files record) record

/-- A record of a report, as the script leaves it. -/
def reducedRecord (python : Python) (files : Line → SourceFile) (record : List Line) : List Line :=
  reduced python (rangesOf python files record) record

theorem rangesOf_eq (h : recordRanges python files record = .ok ranges) :
    rangesOf python files record = ranges := by
  rw [rangesOf, h]
  rfl

/-- A report from these records. -/
def reportOf (python : Python) (files : Line → SourceFile) (records : List (List Line)) :
    Report where
  filtered := records.flatMap fun record => reducedRecord python files record ++ [endOfRecord]
  total := (records.map fun record =>
    record.countP (isCounted python (rangesOf python files record))).sum
  covered := (records.map fun record =>
    record.countP (isCovered python (rangesOf python files record))).sum

theorem addRecord_eq_ok_iff (report report' : Report) :
    addRecord python files report record = .ok report' ↔ Readable python files record ∧
      report' = { filtered := report.filtered ++ (reportOf python files [record]).filtered
                  total := report.total + (reportOf python files [record]).total
                  covered := report.covered + (reportOf python files [record]).covered } := by
  unfold addRecord
  rw [Lines.bind_eq_ok_iff]
  constructor
  · rintro ⟨f, hf, hreport⟩
    obtain ⟨ranges, hranges, hclean, rfl⟩ := (filterRecord_eq_ok_iff f).mp hf
    have heq := rangesOf_eq hranges
    refine ⟨⟨heq ▸ hranges, heq ▸ hclean⟩, ?_⟩
    rw [← Except.ok.inj hreport]
    simp [reportOf, reducedRecord, heq, filtered]
  · rintro ⟨hreadable, rfl⟩
    refine ⟨_, (filterRecord_eq_ok_iff _).mpr ⟨_, hreadable.ranges, hreadable.clean, rfl⟩,
      congrArg Except.ok ?_⟩
    simp [reportOf, reducedRecord, filtered]

theorem foldlM_addRecord_eq_ok_iff (records : List (List Line)) (report report' : Report) :
    records.foldlM (addRecord python files) report = .ok report' ↔
      (∀ record ∈ records, Readable python files record) ∧
      report' = { filtered := report.filtered ++ (reportOf python files records).filtered
                  total := report.total + (reportOf python files records).total
                  covered := report.covered + (reportOf python files records).covered } := by
  induction records generalizing report with
  | nil =>
      show Except.ok report = Except.ok report' ↔ _
      simp [reportOf, eq_comm]
  | cons record records ih =>
      rw [List.foldlM_cons, Lines.bind_eq_ok_iff, List.forall_mem_cons]
      have hsum : reportOf python files (record :: records) =
          { filtered := (reportOf python files [record]).filtered ++
              (reportOf python files records).filtered
            total := (reportOf python files [record]).total + (reportOf python files records).total
            covered := (reportOf python files [record]).covered +
              (reportOf python files records).covered } := by
        simp [reportOf]
      constructor
      · rintro ⟨next, hnext, hrest⟩
        obtain ⟨hreadable, rfl⟩ := (addRecord_eq_ok_iff report next).mp hnext
        obtain ⟨hall, rfl⟩ := (ih _).mp hrest
        refine ⟨⟨hreadable, hall⟩, ?_⟩
        rw [hsum]
        simp only [List.append_assoc, Nat.add_assoc]
      · rintro ⟨⟨hreadable, hall⟩, rfl⟩
        refine ⟨_, (addRecord_eq_ok_iff report _).mpr ⟨hreadable, rfl⟩, (ih _).mpr ⟨hall, ?_⟩⟩
        rw [hsum]
        simp only [List.append_assoc, Nat.add_assoc]

/-- The records of an input. -/
def recordsOf (input : List Char) : List (List Line) :=
  Lines.records endOfRecord (Lines.split input)

/-- What the script makes of a report. -/
def outcomeOf (python : Python) (report : Report) : Outcome where
  output := ['\n'].intercalate report.filtered ++ ['\n']
  total := report.total
  covered := report.covered
  exitCode :=
    if report.total = 0 then 1
    else if python.below report.covered report.total then 1
    else 0

/-- The script succeeds if every record can be read, and then its outcome is that of the
records. -/
theorem main_eq_ok_iff : main python files input = .ok outcome ↔
    (∀ record ∈ recordsOf input, Readable python files record) ∧
      outcome = outcomeOf python (reportOf python files (recordsOf input)) := by
  have hloop : readReport python files input =
      (recordsOf input).foldlM (addRecord python files) ⟨[], 0, 0⟩ :=
    Lines.foldlM_gather (addRecord python files) (Lines.split input) List.not_mem_nil _
  unfold main
  rw [hloop, Lines.bind_eq_ok_iff]
  constructor
  · rintro ⟨report, hreport, houtcome⟩
    obtain ⟨hall, rfl⟩ := (foldlM_addRecord_eq_ok_iff _ _ report).mp hreport
    refine ⟨hall, ?_⟩
    rw [← Except.ok.inj houtcome]
    simp [outcomeOf]
  · rintro ⟨hall, rfl⟩
    refine ⟨_, (foldlM_addRecord_eq_ok_iff _ _ _).mpr ⟨hall, rfl⟩, congrArg Except.ok ?_⟩
    simp [outcomeOf]

/-! ## The script's own output -/

/-- A line starts with one of two literals of the same length. -/
theorem startsWith_eq_false {literal other : String} (h : startsWith line literal = true)
    (hlength : literal.toList.length = other.toList.length) (hne : literal ≠ other) :
    startsWith line other = false := by
  rw [Bool.eq_false_iff]
  intro hother
  have hfront := List.prefix_of_prefix_length_le (List.isPrefixOf_iff_prefix.mp h)
    (List.isPrefixOf_iff_prefix.mp hother) hlength.le
  exact hne (String.toList_inj.mp (hfront.eq_of_length hlength))

theorem startsWith_countLine (name : String) (count : Nat) :
    startsWith (countLine name count) name = true :=
  List.isPrefixOf_iff_prefix.mpr (List.prefix_append _ _)

/-- The lines that the script appends. -/
def IsCount (line : Line) : Prop :=
  ∃ name count, (name = "LF:" ∨ name = "LH:") ∧ line = countLine name count

/-- What a count is not: a line of data, or the line of the source. -/
theorem IsCount.startsWith (h : IsCount line) :
    (startsWith line "LF:" || startsWith line "LH:") = true ∧ startsWith line "DA:" = false ∧
      startsWith line "SF:" = false := by
  obtain ⟨name, count, rfl | rfl, rfl⟩ := h
  · have hname := startsWith_countLine "LF:" count
    exact ⟨by rw [hname, Bool.true_or], startsWith_eq_false hname rfl (by decide),
      startsWith_eq_false hname rfl (by decide)⟩
  · have hname := startsWith_countLine "LH:" count
    exact ⟨by rw [hname, Bool.or_true], startsWith_eq_false hname rfl (by decide),
      startsWith_eq_false hname rfl (by decide)⟩

/-- It is left out, and counts as nothing. -/
theorem IsCount.dropped (h : IsCount line) :
    isKept python ranges line = false ∧ isCounted python ranges line = false ∧
      isCovered python ranges line = false ∧ check python ranges line = .ok () := by
  obtain ⟨hcount, hda, -⟩ := h.startsWith
  refine ⟨?_, ?_, ?_, ?_⟩
  · rw [isKept, hda, hcount]
    rfl
  · rw [isCounted, hda]
    rfl
  · rw [isCovered, isCounted, hda]
    rfl
  · rw [check, filterLine, hda, hcount]
    rfl

theorem isCount_counts (found hit : Nat) :
    ∀ line ∈ [countLine "LF:" found, countLine "LH:" hit], IsCount line := by
  intro line hline
  rcases List.mem_pair.mp hline with rfl | rfl
  · exact ⟨_, _, .inl rfl, rfl⟩
  · exact ⟨_, _, .inr rfl, rfl⟩

/-- Nothing is left out of a reduced record again. -/
theorem filtered_reduced (python : Python) (ranges : List (Nat × Nat)) (record : List Line) :
    filtered python ranges (reduced python ranges record) = filtered python ranges record := by
  have hcounts := isCount_counts (filtered python ranges record).found
    (filtered python ranges record).hit
  have hkept : ∀ line, isCounted python ranges line = true → isKept python ranges line = true := by
    intro line hline
    obtain ⟨hda, htest⟩ := Bool.and_eq_true_iff.mp hline
    rw [isKept, hda]
    exact htest
  have hcovered : ∀ line, isCovered python ranges line = true →
      isKept python ranges line = true := by
    intro line hline
    exact hkept line (Bool.and_eq_true_iff.mp hline).1
  have hcount : ∀ p : Line → Bool, (∀ line, p line = true → isKept python ranges line = true) →
      (∀ line, IsCount line → p line = false) →
      (reduced python ranges record).countP p = record.countP p := by
    intro p hp hnone
    have hend : [countLine "LF:" (filtered python ranges record).found,
        countLine "LH:" (filtered python ranges record).hit].countP p = 0 := by
      refine List.countP_eq_zero.mpr fun line hline => ?_
      rw [hnone line (hcounts line hline)]
      exact Bool.false_ne_true
    rw [reduced, List.countP_append, hend, Nat.add_zero, filtered, List.countP_filter]
    refine List.countP_congr fun line _ => ?_
    rw [Bool.and_eq_true_iff]
    exact ⟨fun h => h.1, fun h => ⟨h, hp line h⟩⟩
  have hfilter : (reduced python ranges record).filter (isKept python ranges) =
      record.filter (isKept python ranges) := by
    have hend : [countLine "LF:" (filtered python ranges record).found,
        countLine "LH:" (filtered python ranges record).hit].filter (isKept python ranges) = [] := by
      refine List.filter_eq_nil_iff.mpr fun line hline => ?_
      rw [(hcounts line hline).dropped.1]
      exact Bool.false_ne_true
    rw [reduced, List.filter_append, hend, List.append_nil, filtered, List.filter_filter]
    simp
  rw [filtered, hfilter, hcount _ hkept fun line h => h.dropped.2.1,
    hcount _ hcovered fun line h => h.dropped.2.2.1]
  rfl

theorem reduced_reduced (python : Python) (ranges : List (Nat × Nat)) (record : List Line) :
    reduced python ranges (reduced python ranges record) = reduced python ranges record := by
  have hfiltered := filtered_reduced python ranges record
  show (filtered python ranges (reduced python ranges record)).kept ++
    [countLine "LF:" (filtered python ranges (reduced python ranges record)).found,
      countLine "LH:" (filtered python ranges (reduced python ranges record)).hit] = _
  rw [hfiltered]
  rfl

/-- The source of a reduced record is that of the record. -/
theorem recordRanges_reduced (python : Python) (files : Line → SourceFile)
    (ranges : List (Nat × Nat)) (record : List Line) :
    recordRanges python files (reduced python ranges record) =
      recordRanges python files record := by
  have hend : [countLine "LF:" (filtered python ranges record).found,
      countLine "LH:" (filtered python ranges record).hit].find? (startsWith · "SF:") = none := by
    refine List.find?_eq_none.mpr fun line hline => ?_
    rw [(isCount_counts _ _ line hline).startsWith.2.2]
    exact Bool.false_ne_true
  have hfind : (reduced python ranges record).find? (startsWith · "SF:") =
      record.find? (startsWith · "SF:") := by
    rw [reduced, List.find?_append, hend, Option.or_none, filtered, List.find?_filter]
    congr 1
    funext line
    cases hsource : startsWith line "SF:" with
    | false => simp
    | true =>
        have hda : startsWith line "DA:" = false := startsWith_eq_false hsource rfl (by decide)
        have hlf : startsWith line "LF:" = false := startsWith_eq_false hsource rfl (by decide)
        have hlh : startsWith line "LH:" = false := startsWith_eq_false hsource rfl (by decide)
        simp [isKept, hda, hlf, hlh]
  unfold recordRanges
  rw [hfind]

theorem readable_reducedRecord (h : Readable python files record) :
    rangesOf python files (reducedRecord python files record) = rangesOf python files record ∧
      Readable python files (reducedRecord python files record) := by
  have hranges := recordRanges_reduced python files (rangesOf python files record) record
  have heq : rangesOf python files (reducedRecord python files record) =
      rangesOf python files record := by
    unfold rangesOf reducedRecord
    rw [hranges]
  refine ⟨heq, ⟨?_, ?_⟩⟩
  · rw [heq]
    exact hranges.trans h.ranges
  · rw [heq]
    intro line hline
    rcases List.mem_append.mp hline with hline | hline
    · exact h.clean line (List.mem_filter.mp hline).1
    · exact (isCount_counts _ _ line hline).dropped.2.2.2

theorem IsCount.whole (h : IsCount line) : Lines.Whole line := by
  obtain ⟨name, count, hname, rfl⟩ := h
  intro c hc
  rcases List.mem_append.mp hc with hc | hc
  · have hnames : Lines.Whole ("LF:".toList ++ "LH:".toList) := by decide
    rcases hname with rfl | rfl
    · exact hnames c (List.mem_append_left _ hc)
    · exact hnames c (List.mem_append_right _ hc)
  · rw [Nat.toList_repr] at hc
    exact Lines.isBreak_of_isDigit (Nat.isDigit_of_mem_toDigits (by omega) (by omega) hc)

/-- The lines of the output are those of the report, -/
theorem whole_reducedRecord (hrecord : record ∈ recordsOf input) :
    ∀ line ∈ reducedRecord python files record, Lines.Whole line := by
  intro line hline
  rcases List.mem_append.mp hline with hline | hline
  · have hmem := (Lines.mem_records hrecord).2.2 (List.mem_filter.mp hline).1
    exact Lines.whole_split hmem
  · exact (isCount_counts _ _ line hline).whole

/-- ... and its records the reduced ones. -/
theorem recordsOf_output (hne : recordsOf input ≠ []) :
    recordsOf (outcomeOf python (reportOf python files (recordsOf input))).output =
      (recordsOf input).map (reducedRecord python files) := by
  have hlines : (reportOf python files (recordsOf input)).filtered =
      ((recordsOf input).map (reducedRecord python files)).flatMap (· ++ [endOfRecord]) := by
    rw [List.flatMap_map]
    rfl
  have hwhole : ∀ line ∈ ((recordsOf input).map (reducedRecord python files)).flatMap
      (· ++ [endOfRecord]), Lines.Whole line := by
    intro line hline
    obtain ⟨group, hgroup, hline⟩ := List.mem_flatMap.mp hline
    obtain ⟨record, hrecord, rfl⟩ := List.mem_map.mp hgroup
    rcases List.mem_append.mp hline with hline | hline
    · exact whole_reducedRecord hrecord line hline
    · rw [List.mem_singleton.mp hline]
      decide
  have hmarked : ∀ group ∈ (recordsOf input).map (reducedRecord python files),
      group ≠ [] ∧ endOfRecord ∉ group := by
    intro group hgroup
    obtain ⟨record, hrecord, rfl⟩ := List.mem_map.mp hgroup
    refine ⟨List.append_ne_nil_of_right_ne_nil _ (by simp), fun hmem => ?_⟩
    rcases List.mem_append.mp hmem with hmem | hmem
    · exact (Lines.mem_records hrecord).2.1 (List.mem_filter.mp hmem).1
    · have hstart := (isCount_counts _ _ _ hmem).startsWith.1
      exact absurd hstart (by decide)
  obtain ⟨record, records, hcons⟩ := List.exists_cons_of_ne_nil hne
  have hnonempty : ((recordsOf input).map (reducedRecord python files)).flatMap
      (· ++ [endOfRecord]) ≠ [] := by
    rw [hcons]
    simp
  show Lines.records endOfRecord (Lines.split (['\n'].intercalate
    (reportOf python files (recordsOf input)).filtered ++ ['\n'])) = _
  rw [hlines, Lines.intercalate_append hnonempty, Lines.split_join hwhole,
    Lines.records_flatMap hmarked]

/-- **The output is left as it is.** A report with at least one record, for which the script
succeeds: run on its own output it writes the same report, and comes to the same totals and the
same verdict. -/
theorem gate_idempotent (hrun : main python files input = .ok outcome)
    (hne : recordsOf input ≠ []) : main python files outcome.output = .ok outcome := by
  obtain ⟨hall, rfl⟩ := main_eq_ok_iff.mp hrun
  rw [main_eq_ok_iff, recordsOf_output hne]
  constructor
  · intro record hrecord
    obtain ⟨source, hsource, rfl⟩ := List.mem_map.mp hrecord
    exact (readable_reducedRecord (hall source hsource)).2
  · have hsame : ∀ record ∈ recordsOf input,
        rangesOf python files (reducedRecord python files record) =
            rangesOf python files record ∧
          filtered python (rangesOf python files record) (reducedRecord python files record) =
            filtered python (rangesOf python files record) record :=
      fun record hrecord => ⟨(readable_reducedRecord (hall record hrecord)).1,
        filtered_reduced python _ record⟩
    refine congrArg (outcomeOf python) ?_
    unfold reportOf
    rw [List.flatMap_map, List.map_map, List.map_map]
    refine congr (congr (congrArg Report.mk ?_) (congrArg List.sum ?_)) (congrArg List.sum ?_)
    · refine List.flatMap_congr fun record hrecord => ?_
      obtain ⟨hranges, -⟩ := hsame record hrecord
      refine congrArg (· ++ [endOfRecord]) ?_
      show reducedRecord python files record =
        reduced python (rangesOf python files (reducedRecord python files record))
          (reducedRecord python files record)
      rw [hranges]
      exact (reduced_reduced python _ record).symm
    · refine List.map_congr_left fun record hrecord => ?_
      obtain ⟨hranges, hfiltered⟩ := hsame record hrecord
      show _ = List.countP _ (reducedRecord python files record)
      rw [hranges]
      exact (congrArg Filtered.found hfiltered).symm
    · refine List.map_congr_left fun record hrecord => ?_
      obtain ⟨hranges, hfiltered⟩ := hsame record hrecord
      show _ = List.countP _ (reducedRecord python files record)
      rw [hranges]
      exact (congrArg Filtered.hit hfiltered).symm

/-! ## Test modules -/

/-- After its opening brace a module is in step with tokens, up to its closing brace. -/
structure Closed (xid : Char → Bool) (after : List Char) (body : List Token) : Prop where
  tokens : ∃ back, after = textOf (body ++ .other '}' :: back) ∧
    Lexed xid (body ++ .other '}' :: back) ∧ InStep (body ++ .other '}' :: back)
  balanced : Balanced 1 (body ++ [.other '}'])
  first : ∀ p, p <+: body → ¬ Balanced 1 p

variable {xid : Char → Bool} {text before header after lineNumber count : List Char}
  {body : List Token}

theorem lineAt_append (front back : List Char) :
    lineAt (front ++ back) front.length = front.count '\n' + 1 := by
  rw [lineAt, List.take_left]

/-- From the line on which the match begins to that of the closing brace. -/
theorem testRange_eq (hclosed : Closed xid after body) :
    testRange (before ++ header ++ '{' :: after) (header ++ '{' :: after, after) =
      .ok (before.count '\n' + 1, (before ++ header ++ '{' :: textOf body).count '\n' + 1) := by
  obtain ⟨⟨back, rfl, hlexed, hstep⟩, hbalanced, hfirst⟩ := hclosed
  have hbrace : matchingBrace (before ++ header ++ '{' :: textOf (body ++ .other '}' :: back))
      (before ++ header).length = .ok ((before ++ header).length + 1 + (textOf body).length) :=
    matchingBrace_of_front hlexed hstep ⟨back, by simp⟩ hbalanced hfirst
  have hopening : (before ++ header ++ '{' :: textOf (body ++ .other '}' :: back)).length -
      (textOf (body ++ .other '}' :: back)).length - 1 = (before ++ header).length := by
    simp only [List.length_append, List.length_cons]
    omega
  have hstart : (before ++ header ++ '{' :: textOf (body ++ .other '}' :: back)).length -
      (header ++ '{' :: textOf (body ++ .other '}' :: back)).length = before.length := by
    simp only [List.length_append, List.length_cons]
    omega
  have hfront : lineAt (before ++ header ++ '{' :: textOf (body ++ .other '}' :: back))
      before.length = before.count '\n' + 1 := by
    rw [List.append_assoc]
    exact lineAt_append _ _
  have hback : lineAt (before ++ header ++ '{' :: textOf (body ++ .other '}' :: back))
      ((before ++ header).length + 1 + (textOf body).length) =
        (before ++ header ++ '{' :: textOf body).count '\n' + 1 := by
    have hsplit : before ++ header ++ '{' :: textOf (body ++ .other '}' :: back) =
        (before ++ header ++ '{' :: textOf body) ++ textOf (.other '}' :: back) := by
      simp
    have hlength : (before ++ header).length + 1 + (textOf body).length =
        (before ++ header ++ '{' :: textOf body).length := by
      simp only [List.length_append, List.length_cons]
      omega
    rw [hsplit, hlength]
    exact lineAt_append _ _
  unfold testRange
  rw [hopening, hbrace, hstart, hfront]
  exact congrArg (fun line => Except.ok (_, line)) hback

/-- What the script says of a report, for the lines of data that are production code. -/
structure Counts (python : Python) (files : Line → SourceFile) (input : List Char)
    (production : List Line → Line → Bool) (outcome : Outcome) : Prop where
  total : outcome.total = ((recordsOf input).map fun record => record.countP fun line =>
    startsWith line "DA:" && production record line).sum
  covered : outcome.covered = ((recordsOf input).map fun record => record.countP fun line =>
    startsWith line "DA:" && production record line && isHit python line).sum
  output : recordsOf input ≠ [] → recordsOf outcome.output = (recordsOf input).map fun record =>
    (record.filter fun line => if startsWith line "DA:" then production record line
      else !(startsWith line "LF:" || startsWith line "LH:")) ++
    [countLine "LF:" (record.countP fun line => startsWith line "DA:" && production record line),
     countLine "LH:" (record.countP fun line =>
       startsWith line "DA:" && production record line && isHit python line)]
  exitCode : outcome.exitCode = 0 ↔
    outcome.total ≠ 0 ∧ python.below outcome.covered outcome.total = false

end

/-! ## A source with one module -/

namespace OneModule

/-- Decimal digits only, and a minimum of 80 percent. -/
def python : Python where
  int line :=
    if line.all Char.isDigit && line != [] then
      .ok (line.foldl (fun n c => n * 10 + (c.toNat - '0'.toNat)) 0 : Nat)
    else .error "invalid literal for int() with base 10"
  isWord c := c.isAlphanum || c == '_'
  below covered total := decide (covered * 100 < 80 * total)

def header : List Char := "#[cfg(test)]\nmod t ".toList

def source : List Char := 'f' :: '\n' :: header ++ ['{', '}']

def files : Line → SourceFile := fun _ => .text source

def record : List Line := ["SF:a.rs".toList, "DA:1,1".toList, "DA:3,0".toList]

def report : List Char := Lines.join (record ++ [endOfRecord])

theorem recordsOf_report : recordsOf report = [record] := by
  have hwhole : ∀ line ∈ record ++ [endOfRecord], Lines.Whole line := by decide
  rw [recordsOf, report, Lines.split_join hwhole]
  exact Lines.records_append (by decide) (by decide)

theorem closed : Closed python.isWord ['}'] [] where
  tokens := by
    refine ⟨[], rfl, .cons ⟨by decide, by decide, by decide⟩ (by simp [Token.Ends]) .nil, ?_⟩
    intro front token back heq _
    cases front with
    | nil =>
        obtain ⟨rfl, rfl⟩ := List.cons.inj heq
        exact id
    | cons first front => simp at heq
  balanced := by decide
  first p hp := by
    rw [List.prefix_nil.mp hp]
    decide

theorem finditer_of_some {isWord : Char → Bool} {c : Char} {text after : List Char}
    (h : testModule isWord (c :: text) = some after) :
    finditer isWord true (c :: text) = (c :: text, after) :: finditer isWord false after := by
  rw [finditer]
  split
  · rename_i after' hafter
    rw [if_pos rfl, h] at hafter
    rw [Option.some.inj hafter]
  · rename_i hnone
    rw [if_pos rfl, h] at hnone
    simp at hnone

theorem finditer_of_none {isWord : Char → Bool} {lineStart : Bool} {c : Char} {text : List Char}
    (h : (if lineStart then testModule isWord (c :: text) else none) = none) :
    finditer isWord lineStart (c :: text) = finditer isWord (c == '\n') text := by
  rw [finditer]
  split
  · rename_i after hafter
    rw [h] at hafter
    simp at hafter
  · rfl

theorem finditer_source : finditer python.isWord true source =
    [(header ++ ['{', '}'], ['}'])] := by
  have hfirst : testModule python.isWord source = none := by decide
  have hmodule : testModule python.isWord (header ++ ['{', '}']) = some ['}'] := by decide
  rw [source, List.cons_append, List.cons_append] at hfirst ⊢
  rw [finditer_of_none (by simpa using hfirst), finditer_of_none (by simp)]
  rw [show header = '#' :: header.tail from by decide, List.cons_append] at hmodule ⊢
  rw [show ('\n' == '\n') = true from rfl, finditer_of_some hmodule,
    finditer_of_none (by simp), finditer]

theorem recordRanges_record : recordRanges python files record = .ok [(2, 3)] := by
  have hsource : record.find? (startsWith · "SF:") = some "SF:a.rs".toList := by decide
  have hrange : testRange source (header ++ ['{', '}'], ['}']) = .ok (2, 3) :=
    @testRange_eq _ ['f', '\n'] header _ _ closed
  rw [recordRanges, hsource]
  show (finditer python.isWord true source).mapM (testRange source) = _
  rw [finditer_source, List.mapM_cons, hrange, List.mapM_nil]
  rfl

theorem readable : Readable python files record where
  ranges := by rw [rangesOf_eq recordRanges_record, recordRanges_record]
  clean := by
    rw [rangesOf_eq recordRanges_record]
    simp only [Clean, record, List.forall_mem_cons]
    exact ⟨rfl, rfl, rfl, by simp⟩

def outcome : Outcome where
  output := "SF:a.rs\nDA:1,1\nLF:1\nLH:1\nend_of_record\n".toList
  total := 1
  covered := 1
  exitCode := 0

theorem main_report : main python files report = .ok outcome := by
  rw [main_eq_ok_iff, recordsOf_report, List.forall_mem_singleton]
  refine ⟨readable, ?_⟩
  unfold reportOf reducedRecord
  simp only [List.flatMap_singleton, List.map_singleton, rangesOf_eq recordRanges_record]
  rfl

theorem gate_idempotent_one_module : main python files outcome.output = .ok outcome :=
  gate_idempotent main_report (by simp [recordsOf_report])

end OneModule

end TopdeskMcp.Theorems.CoverageGate
