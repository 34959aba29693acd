/-
  Exported tables: when a dataset can be exported, and what its table says.

  A precision beyond `maxPlaces` is accepted by the configuration, but no number can be written
  with it; the other values of a dataset do not depend on the precision.

  Proved:
  * `Dataset.writeRows_eq_ok`: rows that can be written become one record each.
  * `Dataset.writeRows_eq_error`: the first row of the wrong length is the fault of the table,
    unless a number up to there cannot be written.
  * `Dataset.export_decodes`: with a valid delimiter other than the quote, exactly when a dataset
    can be exported, that its table reads back as headers and cells, and which fault a row of
    the wrong length is.
-/
import FigureData.Export.Bundle
import FigureData.Proofs.Csv.RoundTrip
import FigureData.Proofs.Dataset.Build
import FigureData.Proofs.Maps

namespace FigureData

open Outcome

/-! ## Numbers -/

/-- Can numbers be written with this precision? -/
def fitsPlaces (precision : Option Nat) : Bool :=
  precision.all fun places => decide (places ≤ maxPlaces)

theorem isSome_writeNumber? (precision : Option Nat) (x : Float) :
    (writeNumber? precision x).isSome = fitsPlaces precision := by
  unfold writeNumber? fitsPlaces
  cases precision with
  | none => rfl
  | some places =>
    simp only [Option.all_some]
    split_ifs with hbeyond
    · simp [hbeyond]
    · simp [Nat.not_lt.1 hbeyond]
    · simp [Nat.not_lt.1 hbeyond]

namespace Cell

def isNumber (c : Cell) : Bool := c.number?.isSome

/-- Only a number depends on the precision. -/
theorem isSome_render? (precision : Option Nat) (c : Cell) :
    (c.render? precision).isSome = (!c.isNumber || fitsPlaces precision) := by
  cases c with
  | text s => rfl
  | number x => exact isSome_writeNumber? precision x
  | missing => rfl

end Cell

/-! ## Rows -/

/-- The fields are the texts of the cells. -/
def AreTexts (precision : Option Nat) (cells : List Cell) (fields : List Bytes) : Prop :=
  List.Forall₂ (fun c field => ∃ text, c.render? precision = some text ∧ field = Bytes.ofText text)
    cells fields

namespace Dataset

/-- Can the cells of a row be written with this precision? -/
def canWrite (precision : Option Nat) (row : Row) : Bool :=
  row.cells.all fun c => !c.isNumber || fitsPlaces precision

theorem isSome_rowFields? (precision : Option Nat) (row : Row) :
    (rowFields? precision row).isSome = canWrite precision row := by
  unfold rowFields? canWrite
  rw [isSome_mapM]
  congr 1
  funext c
  rw [Option.isSome_map, Cell.isSome_render?]

variable {d : Dataset} {options : ExportOptions}

/-- A row of the right length that can be written is one record. -/
theorem writeRows_cons {row : Row} {rest : List Row} {fields : List Bytes}
    (hfields : rowFields? options.precision row = some fields)
    (hlength : row.cells.length = d.columns.length) :
    d.writeRows options (row :: rest) =
      (d.writeRows options rest).map fun more => Csv.writeRecord options.delimiter fields ++ more := by
  rw [writeRows, hfields]
  exact if_pos hlength

/-- Rows that can be written become one record each. -/
theorem writeRows_eq_ok {rows : List Row} {bytes : Bytes} :
    d.writeRows options rows = .ok bytes ↔
      (∀ row ∈ rows, row.cells.length = d.columns.length) ∧
        ∃ records, rows.mapM (rowFields? options.precision) = some records ∧
          bytes = records.flatMap (Csv.writeRecord options.delimiter) := by
  induction rows generalizing bytes with
  | nil => simp [writeRows, eq_comm]
  | cons row rest ih =>
    rw [List.mapM_cons, List.forall_mem_cons]
    cases hfields : rowFields? options.precision row with
    | none => simp [writeRows, hfields]
    | some fields =>
      by_cases hlength : row.cells.length = d.columns.length
      · rw [writeRows_cons hfields hlength]
        constructor
        · intro h
          obtain ⟨more, hmore, rfl⟩ := map_eq_ok h
          obtain ⟨hrest, records, hrecords, rfl⟩ := ih.1 hmore
          refine ⟨⟨hlength, hrest⟩, fields :: records, ?_, rfl⟩
          simp [hrecords]
        · rintro ⟨⟨-, hrest⟩, all, hall, rfl⟩
          obtain ⟨first, hfirst, hall⟩ := Option.bind_eq_some_iff.1 hall
          cases hfirst
          obtain ⟨records, hrecords, hall⟩ := Option.bind_eq_some_iff.1 hall
          cases hall
          rw [ih.2 ⟨hrest, records, hrecords, rfl⟩]
          rfl
      · simp [writeRows, hfields, hlength]

/-- The first row of the wrong length is the fault of the table, unless a number before the end
of that row cannot be written. -/
theorem writeRows_eq_error {before after : List Row} {row : Row}
    (hbefore : ∀ r ∈ before, r.cells.length = d.columns.length)
    (hlength : row.cells.length ≠ d.columns.length) :
    d.writeRows options (before ++ row :: after) = .error
      (if (before ++ [row]).all (canWrite options.precision) then
        .fault (.raggedRow row d.columns.length)
      else .tooManyPlaces) := by
  induction before with
  | nil =>
    rw [List.nil_append, List.nil_append, List.all_cons, List.all_nil, Bool.and_true, writeRows,
      ← isSome_rowFields?]
    cases rowFields? options.precision row with
    | none => rfl
    | some fields => simp [hlength]
  | cons r before ih =>
    rw [List.forall_mem_cons] at hbefore
    obtain ⟨hr, hrest⟩ := hbefore
    rw [List.cons_append, List.cons_append, List.all_cons, ← isSome_rowFields?]
    cases hfields : rowFields? options.precision r with
    | none => simp [writeRows, hfields]
    | some fields =>
      rw [writeRows_cons hfields hr, ih hrest]
      rfl

theorem writeTable_eq_ok {table : Bytes} :
    d.writeTable options = .ok table ↔
      (∀ row ∈ d.rows, row.cells.length = d.columns.length) ∧
        ∃ records, d.rows.mapM (rowFields? options.precision) = some records ∧
          table = (d.headerFields :: records).flatMap (Csv.writeRecord options.delimiter) := by
  unfold writeTable
  constructor
  · intro h
    obtain ⟨bytes, hbytes, rfl⟩ := map_eq_ok h
    obtain ⟨hlengths, records, hrecords, rfl⟩ := writeRows_eq_ok.1 hbytes
    exact ⟨hlengths, records, hrecords, rfl⟩
  · rintro ⟨hlengths, records, hrecords, rfl⟩
    rw [writeRows_eq_ok.2 ⟨hlengths, records, hrecords, rfl⟩]
    rfl

/-! ## Bundles -/

theorem isSome_writeValues? (precision : Option Nat) (values : List Float) :
    (writeValues? precision values).isSome = (values.isEmpty || fitsPlaces precision) := by
  unfold writeValues?
  rw [Option.isSome_map, isSome_mapM]
  simp only [isSome_writeNumber?]
  cases values with
  | nil => rfl
  | cons x rest => cases fitsPlaces precision <;> simp

/-- Side files can be written unless a number in them cannot. -/
theorem writeAttachments_ok_iff {precision : Option Nat} :
    (∃ files, d.writeAttachments precision = .ok files) ↔
      ∀ a ∈ d.attachments, a.values = [] ∨ fitsPlaces precision = true := by
  unfold writeAttachments
  rw [exists_mapM_eq_ok]
  refine forall₂_congr fun a _ => ?_
  have hvalues := isSome_writeValues? precision a.values
  cases hwrite : writeValues? precision a.values with
  | none =>
    rw [hwrite, Option.isSome_none, eq_comm, Bool.or_eq_false_iff] at hvalues
    simp [hvalues.1, hvalues.2, ← List.isEmpty_iff]
  | some content =>
    rw [hwrite, Option.isSome_some, eq_comm, Bool.or_eq_true, List.isEmpty_iff] at hvalues
    simp [hvalues]

theorem bundle_eq_ok {b : Bundle} (h : d.bundle options = .ok b) :
    d.writeTable options = .ok b.table := by
  unfold bundle at h
  obtain ⟨table, htable, h⟩ := bind_eq_ok h
  obtain ⟨files, -, h⟩ := bind_eq_ok h
  cases h
  exact htable

theorem bundle_ok_iff_parts :
    (∃ b, d.bundle options = .ok b) ↔
      (∃ table, d.writeTable options = .ok table) ∧
        ∃ files, d.writeAttachments options.precision = .ok files := by
  unfold bundle
  constructor
  · rintro ⟨b, h⟩
    obtain ⟨table, htable, h⟩ := bind_eq_ok h
    obtain ⟨files, hfiles, -⟩ := bind_eq_ok h
    exact ⟨⟨table, htable⟩, files, hfiles⟩
  · rintro ⟨⟨table, htable⟩, files, hfiles⟩
    rw [htable, hfiles]
    exact ⟨_, rfl⟩

/-- Does a row or a side file of the dataset hold a number? -/
def hasNumbers (d : Dataset) : Bool :=
  (d.rows.any fun row => row.cells.any Cell.isNumber) ||
    d.attachments.any fun a => !a.values.isEmpty

theorem canWrite_eq (precision : Option Nat) (row : Row) :
    canWrite precision row = (!row.cells.any Cell.isNumber || fitsPlaces precision) := by
  unfold canWrite
  cases fitsPlaces precision with
  | true => simp
  | false => simp [List.not_any_eq_all_not]

/-- A dataset can be exported when its rows have the right length and its numbers, if there are
any, can be written. -/
theorem bundle_ok_iff :
    (∃ b, d.bundle options = .ok b) ↔
      (∀ row ∈ d.rows, row.cells.length = d.columns.length) ∧
        (fitsPlaces options.precision = true ∨ d.hasNumbers = false) := by
  have hrecords : (∃ records, d.rows.mapM (rowFields? options.precision) = some records) ↔
      ∀ row ∈ d.rows, canWrite options.precision row = true := by
    rw [← Option.isSome_iff_exists, isSome_mapM, List.all_eq_true]
    simp only [isSome_rowFields?]
  have htable : (∃ table, d.writeTable options = .ok table) ↔
      (∀ row ∈ d.rows, row.cells.length = d.columns.length) ∧
        ∀ row ∈ d.rows, canWrite options.precision row = true := by
    simp only [writeTable_eq_ok, exists_and_left, ← hrecords]
    refine and_congr_right fun _ => ⟨?_, ?_⟩
    · rintro ⟨table, records, hrecords, -⟩
      exact ⟨records, hrecords⟩
    · rintro ⟨records, hrecords⟩
      exact ⟨_, records, hrecords, rfl⟩
  rw [bundle_ok_iff_parts, htable, writeAttachments_ok_iff, and_assoc]
  refine and_congr_right fun _ => ?_
  unfold hasNumbers
  simp only [canWrite_eq]
  cases fitsPlaces options.precision <;> simp

theorem all_canWrite {precision : Option Nat} {rows : List Row} :
    rows.all (canWrite precision) = true ↔
      fitsPlaces precision = true ∨ ∀ row ∈ rows, row.cells.any Cell.isNumber = false := by
  rw [List.all_eq_true]
  simp only [canWrite_eq]
  cases fitsPlaces precision <;> simp

/-- How a dataset fails whose first row of the wrong length is known. -/
theorem bundle_eq_error {before after : List Row} {row : Row} (hrows : d.rows = before ++ row :: after)
    (hbefore : ∀ r ∈ before, r.cells.length = d.columns.length)
    (hlength : row.cells.length ≠ d.columns.length) :
    d.bundle options = .error
      (if (before ++ [row]).all (canWrite options.precision) then
        .fault (.raggedRow row d.columns.length)
      else .tooManyPlaces) := by
  unfold bundle writeTable
  rw [hrows, writeRows_eq_error hbefore hlength]
  rfl

/-! ## Decoding -/

theorem areTexts_of_rowFields? {precision : Option Nat} {row : Row} {fields : List Bytes}
    (h : rowFields? precision row = some fields) : AreTexts precision row.cells fields := by
  unfold rowFields? at h
  refine (mapM_eq_some h).imp fun c field hfield => ?_
  obtain ⟨text, htext, rfl⟩ := Option.map_eq_some_iff.1 hfield
  exact ⟨text, htext, rfl⟩

/-- A table is read back as its headers and the cells of its rows. -/
theorem read?_table (hquote : options.delimiter ≠ Csv.quote)
    (hfeed : options.delimiter ≠ Csv.lineFeed) (hcolumns : d.columns ≠ []) {table : Bytes}
    (h : d.writeTable options = .ok table) :
    ∃ records, Csv.read? options.delimiter table = some (d.columns.map Bytes.ofText :: records) ∧
      List.Forall₂ (fun row fields => AreTexts options.precision row.cells fields)
        d.rows records := by
  obtain ⟨hlengths, records, hrecords, rfl⟩ := writeTable_eq_ok.1 h
  have htexts := mapM_eq_some hrecords
  refine ⟨records, ?_, htexts.imp fun row fields => areTexts_of_rowFields?⟩
  refine Csv.read?_writeRecords hquote hfeed ?_
  rw [List.forall_mem_cons]
  refine ⟨by simp [headerFields, hcolumns], ?_⟩
  intro fields hfields
  obtain ⟨row, hrow, hrowFields⟩ := exists_mem_of_forall₂ htexts hfields
  -- a row has as many fields as cells, and as many cells as there are columns
  have hsame : row.cells.length = fields.length := (areTexts_of_rowFields? hrowFields).length_eq
  rw [hlengths row hrow] at hsame
  intro hnil
  rw [hnil, List.length_nil] at hsame
  exact hcolumns (List.length_eq_zero_iff.1 hsame)

end Dataset

/-! ## Delimiters -/

/-- A valid delimiter other than the quote separates fields. -/
theorem delimiter_separates {config : Config} (hvalid : config.validate = .ok ())
    (hquote : config.output.delimiter ≠ '"') (dataFile : String) (provenance : Provenance) :
    (ExportOptions.ofForm config.output dataFile provenance).delimiter ≠ Csv.quote ∧
      (ExportOptions.ofForm config.output dataFile provenance).delimiter ≠ Csv.lineFeed := by
  unfold Config.validate at hvalid
  simp only at hvalid
  split at hvalid
  · cases hvalid
  next hdelimiter =>
    rw [not_or, Nat.not_le] at hdelimiter
    obtain ⟨hascii, hfeed⟩ := hdelimiter
    have hbyte : ∀ c : Char, c.toNat < 0x80 → config.output.delimiter ≠ c →
        UInt8.ofNat config.output.delimiter.toNat ≠ UInt8.ofNat c.toNat := by
      intro c hc hne h
      have hnat := congrArg UInt8.toNat h
      simp only [UInt8.toNat_ofNat'] at hnat
      exact hne (Char.toNat_inj.1 (by omega))
    exact ⟨hbyte '"' (by decide) hquote, hbyte '\n' (by decide) hfeed⟩

/-! ## Exports -/

theorem raggedRow_names_row (row : Row) (expected : Nat) :
    (Fault.raggedRow row expected).code = "csv_row" ∧
      (Fault.raggedRow row expected).context.find? "entity" = some row.id := by
  unfold Fault.raggedRow Fault.withContext
  exact ⟨rfl, SortedMap.find?_insert_self _ _ _⟩

/-- With a valid configuration whose delimiter is not the quote, a dataset with columns is
exported exactly when its rows have as many cells as there are columns and its numbers, if
there are any, can be written.  The table then reads back as headers and cells.  The first row
of another length is a fault that names it, unless a number up to there cannot be written.  A
dataset made for a descriptor has rows of the right length. -/
theorem Dataset.export_decodes {config : Config} (hvalid : config.validate = .ok ())
    (hquote : config.output.delimiter ≠ '"') {d : Dataset} (hcolumns : d.columns ≠ [])
    (dataFile : String) (provenance : Provenance) :
    let options := ExportOptions.ofForm config.output dataFile provenance
    let precision := config.output.precision
    ((∃ b, d.bundle options = .ok b) ↔
        (∀ row ∈ d.rows, row.cells.length = d.columns.length) ∧
          (fitsPlaces precision = true ∨ d.hasNumbers = false)) ∧
      (∀ b, d.bundle options = .ok b →
        ∃ records,
          Csv.read? options.delimiter b.table = some (d.columns.map Bytes.ofText :: records) ∧
          List.Forall₂ (fun row fields => AreTexts precision row.cells fields) d.rows records) ∧
      (∀ before row after, d.rows = before ++ row :: after →
        (∀ r ∈ before, r.cells.length = d.columns.length) →
        row.cells.length ≠ d.columns.length →
        if fitsPlaces precision = true ∨
            ∀ r ∈ before ++ [row], r.cells.any Cell.isNumber = false then
          ∃ fault, d.bundle options = .error (.fault fault) ∧ fault.code = "csv_row" ∧
            fault.context.find? "entity" = some row.id
        else d.bundle options = .error .tooManyPlaces) ∧
      ∀ descriptor entities, Dataset.ofDescriptor descriptor entities = .ok d →
        ∀ row ∈ d.rows, row.cells.length = d.columns.length := by
  intro options precision
  obtain ⟨hseparates, hends⟩ := delimiter_separates hvalid hquote dataFile provenance
  refine ⟨bundle_ok_iff, ?_, ?_, ?_⟩
  · intro b hb
    exact read?_table hseparates hends hcolumns (bundle_eq_ok hb)
  · intro before row after hrows hbefore hlength
    have herror : d.bundle options = .error
        (if (before ++ [row]).all (canWrite options.precision) then
          .fault (.raggedRow row d.columns.length)
        else .tooManyPlaces) := bundle_eq_error hrows hbefore hlength
    split_ifs with hwritable
    · have hall : (before ++ [row]).all (canWrite options.precision) = true :=
        all_canWrite.2 hwritable
      rw [if_pos hall] at herror
      exact ⟨_, herror, raggedRow_names_row row _⟩
    · have hnot : ¬(before ++ [row]).all (canWrite options.precision) = true :=
        mt all_canWrite.1 hwritable
      rwa [if_neg hnot] at herror
  · intro descriptor entities h row hrow
    exact length_cells_of_ofDescriptor h hrow

/-- A table of one number. -/
def oneNumber : Dataset where
  evaluation := .costComparison 6
  columns := ["a"]
  rows := [⟨"t", [.number 0]⟩]

/-- Tables with a digit as delimiter read back as well. -/
theorem oneNumber_decodes :
    ∃ b records,
      oneNumber.bundle (.ofForm { delimiter := '0' } "data.csv" .blank) = .ok b ∧
        Csv.read? 0x30 b.table = some ([Bytes.ofText "a"] :: records) ∧
        List.Forall₂ (fun row fields => AreTexts none row.cells fields) oneNumber.rows records := by
  have hvalid : Config.validate { output := { delimiter := '0' } } = .ok () := rfl
  have hspec := Dataset.export_decodes hvalid (by decide) (show oneNumber.columns ≠ [] by decide)
    "data.csv" .blank
  obtain ⟨b, hb⟩ := hspec.1.2 ⟨by decide, .inl rfl⟩
  obtain ⟨records, hread, htexts⟩ := hspec.2.1 b hb
  exact ⟨b, records, hb, hread, htexts⟩

/-- A valid configuration with which a well-formed dataset cannot be exported. -/
theorem precision_without_text :
    Config.validate { output := { precision := some 65536 } } = .ok () ∧
      oneNumber.columns ≠ [] ∧
      (∀ row ∈ oneNumber.rows, row.cells.length = oneNumber.columns.length) ∧
      oneNumber.bundle (.ofForm { precision := some 65536 } "data.csv" .blank) =
        .error .tooManyPlaces :=
  ⟨rfl, by decide, by decide, rfl⟩

end FigureData
