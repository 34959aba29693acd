/-
  Written tables read back as the records they were made of.

  The reader is followed through what the writer puts out: the bytes of a field leave it in a
  mode that holds the field and may be ended (`Holds`), the separator ends it.  Nothing is asked
  of the fields, and of the delimiter only that it is neither the quote nor LF.

  Proved:
  * `readBytes_writeField`: after a written field the reader holds that field.
  * `readBytes_writeRecord`: a written record is read as one record.
  * `read?_writeRecords`: a written table is read as its records.
-/
import FigureData.Csv.Reader

namespace FigureData.Csv

theorem readBytes_append (delimiter : UInt8) (s : ReadState) (u v : Bytes) :
    readBytes delimiter s (u ++ v) =
      (readBytes delimiter s u).bind fun next => readBytes delimiter next v := by
  induction u generalizing s with
  | nil => rfl
  | cons b u ih =>
    rw [List.cons_append, readBytes, readBytes]
    cases readByte delimiter s b with
    | none => rfl
    | some next => exact ih next

/-! ## Fields -/

/-- The mode has read the whole of a field, so the field may end. -/
inductive Holds (field : Bytes) : FieldMode → Prop where
  | fresh (h : field = []) : Holds field .fresh
  | plain : Holds field (.plain field.reverse)
  | closed : Holds field (.afterQuote field.reverse)

variable {delimiter : UInt8}

theorem readBytes_plain {field : Bytes} (h : field.any (needsQuotes delimiter) = false)
    (s : ReadState) (read : Bytes) :
    readBytes delimiter (s.within (.plain read)) field =
      some (s.within (.plain (field.reverse ++ read))) := by
  induction field generalizing read with
  | nil => rfl
  | cons b field ih =>
    rw [List.any_cons, Bool.or_eq_false_iff] at h
    obtain ⟨hb, hfield⟩ := h
    simp only [needsQuotes, Bool.or_eq_false_iff, beq_eq_false_iff_ne] at hb
    obtain ⟨⟨⟨hdelimiter, hquote⟩, -⟩, hfeed⟩ := hb
    have hstep : readByte delimiter (s.within (.plain read)) b =
        some (s.within (.plain (b :: read))) := by
      simp [readByte, ReadState.within, hdelimiter, hquote, hfeed]
    rw [readBytes, hstep, Option.bind_some, ih hfield, List.reverse_cons, List.append_assoc]
    rfl

/-- Inside quotes the doubled quotes of a field are read as single ones. -/
theorem readBytes_doubleQuotes (s : ReadState) (field read : Bytes) :
    readBytes delimiter (s.within (.quoted read)) (doubleQuotes field) =
      some (s.within (.quoted (field.reverse ++ read))) := by
  induction field generalizing read with
  | nil => rfl
  | cons b field ih =>
    have hone : readBytes delimiter (s.within (.quoted read))
        (if b == quote then [quote, quote] else [b]) = some (s.within (.quoted (b :: read))) := by
      by_cases hb : b = quote
      · simp [hb, readBytes, readByte, ReadState.within]
      · simp [hb, readBytes, readByte, ReadState.within]
    rw [doubleQuotes, List.flatMap_cons, readBytes_append, hone, Option.bind_some]
    have hrest := ih (b :: read)
    rw [doubleQuotes] at hrest
    rw [hrest, List.reverse_cons, List.append_assoc]
    rfl

theorem readBytes_quotedField {s : ReadState} (hfresh : s.mode = .fresh) (field : Bytes) :
    readBytes delimiter s (quote :: (doubleQuotes field ++ [quote])) =
      some (s.within (.afterQuote field.reverse)) := by
  have hopen : readByte delimiter s quote = some (s.within (.quoted [])) := by
    simp [readByte, hfresh]
  rw [readBytes, hopen, Option.bind_some, readBytes_append, readBytes_doubleQuotes,
    Option.bind_some, List.append_nil]
  simp [readBytes, readByte, ReadState.within]

/-- After a written field the reader holds that field. -/
theorem readBytes_writeField (delimiter : UInt8) {s : ReadState} (hfresh : s.mode = .fresh) (field : Bytes) :
    ∃ mode, readBytes delimiter s (writeField delimiter field) = some (s.within mode) ∧
      Holds field mode := by
  unfold writeField
  cases hquotes : field.any (needsQuotes delimiter) with
  | true =>
    rw [if_pos rfl]
    exact ⟨_, readBytes_quotedField hfresh field, .closed⟩
  | false =>
    rw [if_neg Bool.false_ne_true]
    cases field with
    | nil =>
      refine ⟨.fresh, ?_, .fresh rfl⟩
      cases s
      cases hfresh
      rfl
    | cons b field =>
      rw [List.any_cons, Bool.or_eq_false_iff] at hquotes
      obtain ⟨hb, hfield⟩ := hquotes
      simp only [needsQuotes, Bool.or_eq_false_iff, beq_eq_false_iff_ne] at hb
      obtain ⟨⟨⟨hdelimiter, hquote⟩, -⟩, hfeed⟩ := hb
      have hstep : readByte delimiter s b = some (s.within (.plain [b])) := by
        simp [readByte, hfresh, hdelimiter, hquote, hfeed]
      refine ⟨_, ?_, .plain⟩
      rw [readBytes, hstep, Option.bind_some, readBytes_plain hfield, List.reverse_cons]

/-! ## Records -/

theorem readByte_delimiter (hquote : delimiter ≠ quote) (s : ReadState) {field : Bytes} {mode : FieldMode}
    (h : Holds field mode) :
    readByte delimiter (s.within mode) delimiter =
      some ⟨s.records, field :: s.fields, .fresh⟩ := by
  cases h with
  | fresh h => simp [readByte, ReadState.within, ReadState.endField, hquote, h]
  | plain => simp [readByte, ReadState.within, ReadState.endField, hquote]
  | closed => simp [readByte, ReadState.within, ReadState.endField, hquote]

theorem readByte_lineFeed (hfeed : delimiter ≠ lineFeed) (s : ReadState) {field : Bytes} {mode : FieldMode}
    (h : Holds field mode) :
    readByte delimiter (s.within mode) lineFeed =
      some ⟨(field :: s.fields).reverse :: s.records, [], .fresh⟩ := by
  have hne : lineFeed ≠ delimiter := Ne.symm hfeed
  have hnq : lineFeed ≠ quote := by decide
  cases h with
  | fresh h => simp [readByte, ReadState.within, ReadState.endRecord, hne, hnq, h]
  | plain => simp [readByte, ReadState.within, ReadState.endRecord, hne, hnq]
  | closed => simp [readByte, ReadState.within, ReadState.endRecord, hne, hnq]

/-- Only a record of one empty field has nothing but its end. -/
theorem eq_of_writeFields_eq_nil {fields : List Bytes} (hne : fields ≠ [])
    (h : writeFields delimiter fields = []) : fields = [[]] := by
  cases fields with
  | nil => exact absurd rfl hne
  | cons field rest =>
    cases rest with
    | nil =>
      unfold writeFields writeField at h
      split at h
      · cases h
      · rw [h]
    | cons next rest =>
      unfold writeFields at h
      exact absurd (List.append_eq_nil_iff.1 h).2 (List.cons_ne_nil _ _)

section Separators

variable (hquote : delimiter ≠ quote) (hfeed : delimiter ≠ lineFeed)

include hquote hfeed

theorem readBytes_writeFields (records : List (List Bytes)) (done : List Bytes) (field : Bytes)
    (rest : List Bytes) :
    readBytes delimiter ⟨records, done, .fresh⟩
        (writeFields delimiter (field :: rest) ++ [lineFeed]) =
      some ⟨(done.reverse ++ field :: rest) :: records, [], .fresh⟩ := by
  induction rest generalizing field done with
  | nil =>
    obtain ⟨mode, hread, hholds⟩ :=
      readBytes_writeField delimiter (s := ⟨records, done, .fresh⟩) rfl field
    rw [writeFields, readBytes_append, hread, Option.bind_some, readBytes,
      readByte_lineFeed hfeed _ hholds, Option.bind_some, List.reverse_cons]
    rfl
  | cons next rest ih =>
    obtain ⟨mode, hread, hholds⟩ :=
      readBytes_writeField delimiter (s := ⟨records, done, .fresh⟩) rfl field
    rw [writeFields, List.append_assoc, List.cons_append, readBytes_append, hread, Option.bind_some,
      readBytes, readByte_delimiter hquote _ hholds, Option.bind_some, ih, List.reverse_cons,
      List.append_assoc]
    · rfl
    · exact List.cons_ne_nil _ _

/-- A written record is read as one record. -/
theorem readBytes_writeRecord (records : List (List Bytes)) {fields : List Bytes}
    (hne : fields ≠ []) :
    readBytes delimiter ⟨records, [], .fresh⟩ (writeRecord delimiter fields) =
      some ⟨fields :: records, [], .fresh⟩ := by
  unfold writeRecord
  by_cases hempty : writeFields delimiter fields = []
  · obtain rfl : fields = [[]] := eq_of_writeFields_eq_nil hne hempty
    have hquoted : readBytes delimiter ⟨records, [], .fresh⟩ [quote, quote] =
        some ⟨records, [], .afterQuote []⟩ := readBytes_quotedField rfl []
    simp only [hempty, List.isEmpty_nil, if_true]
    have hend : readByte delimiter ⟨records, [], .afterQuote []⟩ lineFeed =
        some ⟨[[]] :: records, [], .fresh⟩ :=
      readByte_lineFeed hfeed ⟨records, [], .fresh⟩ (show Holds [] (.afterQuote []) from .closed)
    rw [readBytes_append, hquoted, Option.bind_some, readBytes, hend]
    rfl
  · obtain ⟨field, rest, rfl⟩ := List.exists_cons_of_ne_nil hne
    simp only [List.isEmpty_iff, hempty, if_false]
    exact readBytes_writeFields hquote hfeed records [] field rest

/-! ## Tables -/

theorem readBytes_writeRecords (before : List (List Bytes)) {records : List (List Bytes)}
    (hne : ∀ fields ∈ records, fields ≠ []) :
    readBytes delimiter ⟨before, [], .fresh⟩ (records.flatMap (writeRecord delimiter)) =
      some ⟨records.reverse ++ before, [], .fresh⟩ := by
  induction records generalizing before with
  | nil => rfl
  | cons fields records ih =>
    rw [List.forall_mem_cons] at hne
    rw [List.flatMap_cons, readBytes_append, readBytes_writeRecord hquote hfeed before hne.1,
      Option.bind_some, ih (fields :: before) hne.2, List.reverse_cons, List.append_assoc]
    rfl

/-- A written table is read as its records. -/
theorem read?_writeRecords {records : List (List Bytes)} (hne : ∀ fields ∈ records, fields ≠ []) :
    read? delimiter (records.flatMap (writeRecord delimiter)) = some records := by
  unfold read? ReadState.start
  rw [readBytes_writeRecords hquote hfeed [] hne]
  simp

end Separators

end FigureData.Csv
