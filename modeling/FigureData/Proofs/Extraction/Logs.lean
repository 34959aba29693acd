/-
  Logs of the classifier are read back.

  A log is cut into lines, skipped up to the first marker, and four lines are cut at their first
  colon and into words.  A line that was printed from a label, a count and a percentage goes through
  all of this unharmed: what surrounds it is blank, and neither a count nor a numeral has a blank or
  a mark of a percentage in it.  The two ends of a line, LF and CRLF, differ by a blank.

  Proved:
  * `readResultLine?_text`: a printed line is read as what it was printed from.
  * `readResultLines_of_printed`, `afterMarker_of_isLog`: so are the lines after the marker.
  * `readResultLines_refused_iff`: which lines are refused.
  * `Extractor.printed_log_read_back`: the entities of a log, what they depend on, and which logs are
    refused.
-/
import FigureData.Extraction.Extractor
import FigureData.Proofs.Outcome
import FigureData.Proofs.Text.Numerals
import FigureData.Proofs.Text.Split

namespace FigureData

open Extraction Outcome

/-! ## Result lines -/

namespace Extraction

/-- Brackets around a numeral can be told from it. -/
theorem isPercentageMark_of_isNumeralChar {c : Char} (h : Decimal.isNumeralChar c = true) :
    isPercentageMark c = false := by
  by_contra hmark
  rw [Bool.not_eq_false, isPercentageMark, Bool.or_eq_true, Bool.or_eq_true] at hmark
  rcases hmark with (hmark | hmark) | hmark
  all_goals
    rw [of_decide_eq_true hmark] at h
    exact absurd h (by decide)

/-- What a line says does not depend on a CR at its end. -/
theorem readResultLine?_dropCarriageReturn (line : List Char) :
    readResultLine? (Text.dropCarriageReturn line) = readResultLine? line := by
  rcases Text.eq_dropCarriageReturn line with hline | hline
  · rw [← hline]
  · have hblank : Text.isBlank '\r' = true := rfl
    nth_rewrite 2 [hline]
    unfold readResultLine?
    rw [Text.cutAt?_concat (by decide)]
    cases Text.cutAt? ':' (Text.dropCarriageReturn line) with
    | none => rfl
    | some cut =>
      simp only [Option.map_some, Option.bind_eq_bind, Option.bind_some, Text.words_concat hblank]

end Extraction

/-- A label, a count and a percentage, as they are printed in one line. -/
structure ResultLine where
  indent : List Char
  label : String
  count : ℕ
  /-- The percentage as it is written, and as a number. -/
  numeral : List Char
  percentage : Decimal
  blank_indent : ∀ c ∈ indent, Text.isBlank c = true
  unbroken_indent : '\n' ∉ indent
  unbroken_label : '\n' ∉ label.toList
  colon_label : ':' ∉ label.toList
  trim_label : Text.trim label.toList = label.toList
  count_lt : count < 2 ^ 64
  read_numeral : Decimal.read? numeral = some percentage

namespace ResultLine

/-- Behind the colon: the count, and the percentage in brackets. -/
def figures (l : ResultLine) : List Char :=
  ' ' :: (Digits.ofNat l.count ++ ' ' :: '(' :: (l.numeral ++ ['%', ')']))

/-- The line as it is printed. -/
def text (l : ResultLine) : List Char := l.indent ++ l.label.toList ++ ':' :: l.figures

/-- The entity that stands for the line; its count is the nearest double. -/
def entity (l : ResultLine) : Entity where
  id := l.label
  scalars := .ofList [("count", Binary64.ofNat l.count), ("rate", l.percentage.toFloat / 100.0)]

variable (l : ResultLine)

theorem words_figures : Text.words l.figures =
    [Digits.ofNat l.count, '(' :: (l.numeral ++ ['%', ')'])] := by
  have hcount : ∀ c ∈ Digits.ofNat l.count, Text.isBlank c = false :=
    fun c hc => Text.isBlank_of_isDigit (Digits.isDigit_ofNat hc)
  have hnumeral : ∀ c ∈ '(' :: (l.numeral ++ ['%', ')']), Text.isBlank c = false := by
    rw [List.forall_mem_cons, List.forall_mem_append]
    exact ⟨rfl, fun c hc => Decimal.isBlank_of_isNumeralChar
      (Decimal.isNumeralChar_of_read? l.read_numeral c hc),
      List.forall_mem_cons.2 ⟨rfl, List.forall_mem_singleton.2 rfl⟩⟩
  unfold figures
  rw [Text.words_cons_blank rfl, Text.words_append (Digits.ofNat_ne_nil _) hcount,
    Text.words_cons_blank rfl, Text.words_of_forall (List.cons_ne_nil _ _) hnumeral]
  intro c hc
  cases hc
  rfl

theorem trim_numeral :
    Text.trimWhile isPercentageMark ('(' :: (l.numeral ++ ['%', ')'])) = l.numeral := by
  have hnumeral : ∀ c ∈ l.numeral, isPercentageMark c = false := fun c hc =>
    isPercentageMark_of_isNumeralChar (Decimal.isNumeralChar_of_read? l.read_numeral c hc)
  calc
    Text.trimWhile isPercentageMark (['('] ++ (l.numeral ++ ['%', ')']))
    _ = Text.trimWhile isPercentageMark (l.numeral ++ ['%', ')']) :=
      Text.trimWhile_append_left (List.all_eq_true.1 rfl) _
    _ = Text.trimWhile isPercentageMark l.numeral :=
      Text.trimWhile_append_right (List.all_eq_true.1 rfl) _
    _ = l.numeral := Text.trimWhile_of_forall hnumeral

/-- A printed line is read as what it was printed from. -/
theorem readResultLine?_text : readResultLine? l.text =
    some (l.label, l.count, l.percentage.toFloat / 100.0) := by
  have hcolon : ':' ∉ l.indent ++ l.label.toList := by
    rw [List.mem_append, not_or]
    exact ⟨fun h => absurd (l.blank_indent _ h) (by decide), l.colon_label⟩
  have hlabel : Text.trim (l.indent ++ l.label.toList) = l.label.toList := by
    unfold Text.trim
    rw [Text.trimWhile_append_left l.blank_indent]
    exact l.trim_label
  have hpercent : Decimal.readFloat? l.numeral = some l.percentage.toFloat := by
    unfold Decimal.readFloat?
    rw [l.read_numeral]
  unfold readResultLine? text
  rw [Text.cutAt?_append hcolon]
  simp only [Option.bind_eq_bind, Option.bind_some, l.words_figures, l.trim_numeral,
    Decimal.readCount?_ofNat l.count_lt, hpercent, hlabel, String.ofList_toList]
  rfl

/-- A printed line is one line. -/
theorem unbroken_text : '\n' ∉ l.text := by
  have hcount : '\n' ∉ Digits.ofNat l.count :=
    fun h => absurd (Digits.isDigit_ofNat h) (by decide)
  have hnumeral : '\n' ∉ l.numeral :=
    fun h => absurd (Decimal.isNumeralChar_of_read? l.read_numeral _ h) (by decide)
  simp [text, figures, l.unbroken_indent, l.unbroken_label, hcount, hnumeral]

end ResultLine

/-! ## Logs -/

/-- A text that starts with printed lines; anything may follow.  Only the last of them can be
unended, since a text without a line end has no second line. -/
inductive Printed : List ResultLine → List Char → Prop
  | nil (rest : List Char) : Printed [] rest
  | cons {l : ResultLine} {more : List ResultLine} {cs rest : List Char}
      (hfirst : Text.FirstLine l.text cs rest) (hmore : Printed more rest) : Printed (l :: more) cs

/-- A log: lines other than the marker, the marker, and printed lines. -/
inductive IsLog (results : List ResultLine) : List Char → Prop
  | skip {line cs rest : List Char} (hline : '\n' ∉ line)
      (hother : Text.trim line ≠ resultsMarker.toList) (hfirst : Text.FirstLine line cs rest)
      (hrest : IsLog results rest) : IsLog results cs
  | marker {line cs rest : List Char} (hline : '\n' ∉ line)
      (hmarker : Text.trim line = resultsMarker.toList) (hfirst : Text.FirstLine line cs rest)
      (hrest : Printed results rest) : IsLog results cs

namespace Extraction

variable {file : String} {results : List ResultLine} {cs : List Char}

theorem readResultLines_of_printed (h : Printed results cs) :
    readResultLines file results.length (Text.lines cs) = .ok (results.map ResultLine.entity) := by
  induction h with
  | nil rest => rfl
  | @cons l more cs rest hfirst _ ih =>
    obtain ⟨read, hread, hlines⟩ := Text.lines_of_firstLine l.unbroken_text hfirst
    have hresult : readResultLine? read =
        some (l.label, l.count, l.percentage.toFloat / 100.0) :=
      (Text.eq_of_read readResultLine?_dropCarriageReturn hread).trans l.readResultLine?_text
    rw [hlines, List.length_cons, readResultLines, hresult]
    simp only
    rw [ih]
    rfl

theorem afterMarker_cons_of_ne {line : List Char} (h : Text.trim line ≠ resultsMarker.toList)
    (lines : List (List Char)) : afterMarker (line :: lines) = afterMarker lines := by
  unfold afterMarker
  rw [List.dropWhile_cons_of_pos]
  exact decide_eq_true h

theorem afterMarker_cons_of_eq {line : List Char} (h : Text.trim line = resultsMarker.toList)
    (lines : List (List Char)) : afterMarker (line :: lines) = lines := by
  unfold afterMarker
  rw [List.dropWhile_cons_of_neg]
  · rfl
  · exact of_decide_eq_false (decide_eq_false fun hne => of_decide_eq_true hne h)

/-- Behind the first marker stand the printed lines. -/
theorem afterMarker_of_isLog (h : IsLog results cs) :
    ∃ rest, Printed results rest ∧ afterMarker (Text.lines cs) = Text.lines rest := by
  induction h with
  | @skip line cs rest hline hother hfirst _ ih =>
    obtain ⟨printed, hprinted, hafter⟩ := ih
    obtain ⟨read, hread, hlines⟩ := Text.lines_of_firstLine hline hfirst
    rw [← Text.eq_of_read Text.trim_dropCarriageReturn hread] at hother
    refine ⟨printed, hprinted, ?_⟩
    rw [hlines, afterMarker_cons_of_ne hother, hafter]
  | @marker line cs rest hline hmarker hfirst hrest =>
    obtain ⟨read, hread, hlines⟩ := Text.lines_of_firstLine hline hfirst
    rw [← Text.eq_of_read Text.trim_dropCarriageReturn hread] at hmarker
    refine ⟨rest, hrest, ?_⟩
    rw [hlines, afterMarker_cons_of_eq hmarker]

/-- Without a marker there is nothing behind it. -/
theorem afterMarker_eq_nil {lines : List (List Char)}
    (h : ∀ line ∈ lines, Text.trim line ≠ resultsMarker.toList) : afterMarker lines = [] := by
  induction lines with
  | nil => rfl
  | cons line lines ih =>
    rw [List.forall_mem_cons] at h
    rw [afterMarker_cons_of_ne h.1, ih h.2]

/-- These lines stand behind the first marker. -/
def BehindMarker (lines after : List (List Char)) : Prop :=
  ∃ before marker, lines = before ++ marker :: after ∧
    (∀ line ∈ before, Text.trim line ≠ resultsMarker.toList) ∧
    Text.trim marker = resultsMarker.toList

theorem BehindMarker.afterMarker_eq {lines after : List (List Char)} (h : BehindMarker lines after) :
    afterMarker lines = after := by
  obtain ⟨before, marker, rfl, hbefore, hmarker⟩ := h
  induction before with
  | nil => exact afterMarker_cons_of_eq hmarker after
  | cons line before ih =>
    rw [List.forall_mem_cons] at hbefore
    exact (afterMarker_cons_of_ne hbefore.1 _).trans (ih hbefore.2)

/-- No more lines are read than there are results. -/
theorem readResultLines_take (n : ℕ) (lines : List (List Char)) :
    readResultLines file n (lines.take n) = readResultLines file n lines := by
  induction n generalizing lines with
  | zero => rfl
  | succ n ih =>
    cases lines with
    | nil => rfl
    | cons line rest => simp only [List.take_succ_cons, readResultLines, ih]

/-- Lines are refused when there are too few of them or when one is no result. -/
theorem readResultLines_refused_iff (n : ℕ) (lines : List (List Char)) :
    (∃ fault, readResultLines file n lines = .error fault) ↔
      lines.length < n ∨ ∃ line ∈ lines.take n, readResultLine? line = none := by
  induction n generalizing lines with
  | zero =>
    constructor
    · rintro ⟨fault, h⟩
      cases h
    · rintro (h | ⟨line, hline, -⟩)
      · cases h
      · cases hline
  | succ n ih =>
    cases lines with
    | nil => exact ⟨fun _ => .inl n.succ_pos, fun _ => ⟨_, rfl⟩⟩
    | cons line rest =>
      rw [List.length_cons, Nat.add_lt_add_iff_right, List.take_succ_cons, List.exists_mem_cons_iff,
        readResultLines]
      cases hline : readResultLine? line with
      | none => exact ⟨fun _ => .inr (.inl rfl), fun _ => ⟨_, rfl⟩⟩
      | some result =>
        rw [eq_false (Option.some_ne_none result), false_or, ← ih]
        constructor
        · rintro ⟨fault, h⟩
          rcases bind_eq_error h with h | ⟨more, -, h⟩
          · exact ⟨fault, h⟩
          · cases h
        · rintro ⟨fault, h⟩
          refine ⟨fault, ?_⟩
          simp only [h]
          rfl

theorem family_of_readResultLines {n : ℕ} {lines : List (List Char)} {fault : Fault}
    (h : readResultLines file n lines = .error fault) : fault.family = .schema := by
  induction n generalizing lines with
  | zero => cases h
  | succ n ih =>
    cases lines with
    | nil =>
      cases h
      rfl
    | cons line rest =>
      rw [readResultLines] at h
      split at h
      · cases h
        rfl
      · rcases bind_eq_error h with h | ⟨more, -, h⟩
        · exact ih h
        · cases h

end Extraction

theorem Extractor.ingest_classification {entities : List Entity} {r : Record} {text : String}
    (hr : r.text = .ok text) : (Extractor.classification entities).ingest r =
      (readResultLines r.fileName resultLineCount (afterMarker (Text.lines text.toList))).map
        fun more => .classification (Entity.extend entities more) := by
  show (readOutcomes r).map _ = _
  unfold readOutcomes
  rw [hr]
  rfl

/-- The entities of a log are those of its four printed lines, whatever stands before the first
marker and after the lines.  A log is refused when it has no marker, when fewer than four lines are
left behind it, or when one of these is no result. -/
theorem Extractor.printed_log_read_back {r : Record} {text : String} (hr : r.text = .ok text)
    (entities : List Entity) :
    (∀ results : List ResultLine, results.length = 4 → IsLog results text.toList →
      (classification entities).ingest r = .ok (.classification
        (entities ++ Entity.number entities.length (results.map ResultLine.entity)))) ∧
    (∀ r' text' after after', r'.text = .ok text' → r'.fileName = r.fileName →
      BehindMarker (Text.lines text.toList) after → BehindMarker (Text.lines text'.toList) after' →
      after'.take 4 = after.take 4 →
      (classification entities).ingest r' = (classification entities).ingest r) ∧
    (∀ fault, (classification entities).ingest r = .error fault → fault.family = .schema) ∧
    ((∀ line ∈ Text.lines text.toList, Text.trim line ≠ resultsMarker.toList) →
      ∃ fault, (classification entities).ingest r = .error fault) ∧
    ∀ after, BehindMarker (Text.lines text.toList) after →
      ((∃ fault, (classification entities).ingest r = .error fault) ↔
        after.length < 4 ∨ ∃ line ∈ after.take 4, readResultLine? line = none) := by
  refine ⟨fun results hfour hlog => ?_, fun r' text' after after' hr' hfile h h' hsame => ?_,
    fun fault h => ?_, fun hnone => ?_, fun after h => ?_⟩
  · obtain ⟨rest, hprinted, hafter⟩ := afterMarker_of_isLog hlog
    have hread : readResultLines r.fileName results.length (Text.lines rest) =
        .ok (results.map ResultLine.entity) := readResultLines_of_printed hprinted
    rw [hfour] at hread
    rw [ingest_classification hr, hafter]
    show (readResultLines r.fileName 4 _).map _ = _
    rw [hread]
    rfl
  · have hread : readResultLines r.fileName 4 after' = readResultLines r.fileName 4 after := by
      rw [← readResultLines_take, hsame, readResultLines_take]
    rw [ingest_classification hr, ingest_classification hr', hfile, h.afterMarker_eq,
      h'.afterMarker_eq]
    exact congrArg _ hread
  · rw [ingest_classification hr] at h
    exact family_of_readResultLines (map_eq_error.1 h)
  · rw [ingest_classification hr, afterMarker_eq_nil hnone]
    exact ⟨_, rfl⟩
  · rw [ingest_classification hr, h.afterMarker_eq]
    simp only [map_eq_error]
    exact readResultLines_refused_iff 4 after

/-- A line as the classifier prints it. -/
def plainLine (label : String) (count : ℕ) (numeral : String) (percentage : Decimal)
    (hlabel : '\n' ∉ label.toList ∧ ':' ∉ label.toList ∧ Text.trim label.toList = label.toList)
    (hcount : count < 2 ^ 64) (hnumeral : Decimal.read? numeral.toList = some percentage) :
    ResultLine where
  indent := [' ', ' ']
  label
  count
  numeral := numeral.toList
  percentage
  blank_indent := List.all_eq_true.1 rfl
  unbroken_indent := by decide
  unbroken_label := hlabel.1
  colon_label := hlabel.2.1
  trim_label := hlabel.2.2
  count_lt := hcount
  read_numeral := hnumeral

/-- The confusion counts of one run. -/
def confusionLines : List ResultLine := [
  plainLine "True Positive" 80 "40.0" ⟨false, 400, -1⟩ (by decide) (by decide) (by decide),
  plainLine "True Negative" 100 "50" ⟨false, 50, 0⟩ (by decide) (by decide) (by decide),
  plainLine "False Positive" 18446744073709551615 "7.5e0" ⟨false, 75, -1⟩ (by decide) (by decide)
    (by decide),
  plainLine "Results" 5 "2.5" ⟨false, 25, -1⟩ (by decide) (by decide) (by decide)]

/-- A log that ends without a line end.  The last label is almost a marker. -/
def confusionLog : String :=
  "training...\r\n\tResults:\n  True Positive: 80 (40.0%)\n  True Negative: 100 (50%)\r\n" ++
    "  False Positive: 18446744073709551615 (7.5e0%)\n  Results: 5 (2.5%)"

theorem isLog_confusionLog : IsLog confusionLines confusionLog.toList := by
  have hlines : confusionLog.toList = "training...".toList ++ '\r' :: '\n' ::
      ("\tResults:".toList ++ '\n' :: (confusionLines[0].text ++ '\n' ::
        (confusionLines[1].text ++ '\r' :: '\n' :: (confusionLines[2].text ++ '\n' ::
          confusionLines[3].text)))) := by
    decide +kernel
  rw [hlines]
  refine .skip (by decide) (by decide) (.crlf _) (.marker (by decide) (by decide) (.lf _) ?_)
  exact .cons (.lf _) (.cons (.crlf _) (.cons (.lf _) (.cons (.unended (by decide)) (.nil []))))

theorem confusionLog_read_back :
    confusionLines.length = 4 ∧ IsLog confusionLines confusionLog.toList ∧
      (Extractor.classification []).ingest ⟨"raw_output", "raw_output", .text confusionLog⟩ =
        .ok (.classification (Entity.number 0 (confusionLines.map ResultLine.entity))) ∧
      ∃ fault, (Extractor.classification []).ingest ⟨"raw_output", "raw_output", .text "Results:"⟩ =
        .error fault := by
  have hlog := Extractor.printed_log_read_back
    (r := ⟨"raw_output", "raw_output", .text confusionLog⟩) rfl []
  have hshort := Extractor.printed_log_read_back
    (r := ⟨"raw_output", "raw_output", .text "Results:"⟩) rfl []
  have hbehind : BehindMarker (Text.lines "Results:".toList) [] :=
    ⟨[], resultsMarker.toList, by decide, by decide, by decide⟩
  exact ⟨rfl, isLog_confusionLog, hlog.1 confusionLines rfl isLog_confusionLog,
    (hshort.2.2.2.2 [] hbehind).2 (.inl (by decide))⟩

end FigureData
