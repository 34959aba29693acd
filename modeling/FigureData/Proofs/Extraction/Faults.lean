/-
  Faults of reading one document name its file.

  A fault of a single file may be downgraded by a file policy, and the name of the file
  that is then skipped is taken from the circumstances of the fault.  So every fault that
  loading and extraction raise about a document has to be of a file and carry its name.

  Proved:
  * `namesFile_readSample`, `namesFile_readIdeal`, `namesFile_readScalars`,
    `namesFile_readErrorRates`: readers of one part.
  * `namesFile_read`: what a document contributes to strategies.
  * `namesFile_readNetworks`: the networks of a document of error rates.
  * `Extractor.namesFile_ingest`: a record that is refused, whatever is extracted from it.
  * `Loader.read_of_text`, `Loader.read_of_not_text`: the content of a file.
-/
import FigureData.Extraction.Extractor
import FigureData.Loading.Loader
import FigureData.Proofs.Maps
import FigureData.Proofs.Outcome

namespace FigureData

open Outcome

/-- A fault of a single file that carries the name of the file. -/
structure Fault.IsOfFile (fault : Fault) (file : String) : Prop where
  level : fault.isFileLevel = true
  name : fault.context.find? "file" = some file

/-- Every fault of an outcome is of a file. -/
def NamesFile (file : String) {α : Type} (outcome : Except Fault α) : Prop :=
  ∀ fault, outcome = .error fault → fault.IsOfFile file

section Steps

variable {α β : Type} {file : String}

theorem Fault.isOfFile_inFile (code message file : String) :
    (Fault.inFile code message file).IsOfFile file where
  level := rfl
  name := SortedMap.find?_insert_self _ _ _

/-- Other circumstances leave the name of the file. -/
theorem Fault.IsOfFile.withContext {fault : Fault} (h : fault.IsOfFile file) {name : String}
    (value : String) (hne : name ≠ "file") : (fault.withContext name value).IsOfFile file where
  level := h.level
  name := by
    rw [← h.name]
    exact SortedMap.find?_insert_of_ne _ _ hne.symm

theorem namesFile_ok (a : α) : NamesFile file (.ok a) := by
  intro fault h
  cases h

theorem namesFile_error {fault : Fault} (h : fault.IsOfFile file) :
    NamesFile file (.error fault : Except Fault α) := by
  intro fault' he
  cases he
  exact h

theorem NamesFile.bind {x : Except Fault α} {f : α → Except Fault β} (hx : NamesFile file x)
    (hf : ∀ a, NamesFile file (f a)) : NamesFile file (x >>= f) := by
  intro fault h
  rcases bind_eq_error h with h | ⟨a, -, h⟩
  · exact hx fault h
  · exact hf a fault h

theorem NamesFile.map {x : Except Fault α} (hx : NamesFile file x) (f : α → β) :
    NamesFile file (x.map f) := by
  intro fault h
  exact hx fault (map_eq_error.1 h)

theorem namesFile_mapM {f : α → Except Fault β} {xs : List α}
    (h : ∀ x ∈ xs, NamesFile file (f x)) : NamesFile file (xs.mapM f) := by
  intro fault he
  obtain ⟨x, hx, he⟩ := mapM_eq_error he
  exact h x hx fault he

end Steps

namespace Extraction

variable (j : Json) (pointer file : String)

theorem isOfFile_missingKey : (Fault.missingKey pointer file).IsOfFile file :=
  (Fault.isOfFile_inFile _ _ _).withContext _ (by decide)

theorem namesFile_require : NamesFile file (require j pointer file) := by
  unfold require
  split
  · exact namesFile_ok _
  · exact namesFile_error (isOfFile_missingKey pointer file)

theorem namesFile_requireNumber : NamesFile file (requireNumber j pointer file) := by
  unfold requireNumber
  refine (namesFile_require j pointer file).bind ?_
  intro part
  split
  · exact namesFile_ok _
  · exact namesFile_error ((Fault.isOfFile_inFile _ _ _).withContext _ (by decide))

theorem namesFile_requireArray : NamesFile file (requireArray j pointer file) := by
  unfold requireArray
  refine (namesFile_require j pointer file).bind ?_
  intro part
  split
  · exact namesFile_ok _
  · exact namesFile_error ((Fault.isOfFile_inFile _ _ _).withContext _ (by decide))

theorem namesFile_measurement (what : String) : NamesFile file (measurement j what file) := by
  unfold measurement
  split
  · exact namesFile_ok _
  split
  · exact namesFile_ok _
  · exact namesFile_error (Fault.isOfFile_inFile _ _ _)

theorem namesFile_elementOf (source : SampleSource) : NamesFile file (elementOf source file j) := by
  unfold elementOf
  split
  · exact namesFile_measurement _ _ _
  · split
    · exact namesFile_measurement _ _ _
    · exact namesFile_error (Fault.isOfFile_inFile _ _ _)

theorem namesFile_readSample (source : SampleSource) :
    NamesFile file (readSample j source file) := by
  unfold readSample
  refine (namesFile_requireArray j source.pointer file).bind ?_
  intro elements
  have helements : NamesFile file (elements.mapM (elementOf source file)) := by
    apply namesFile_mapM
    intro element _
    exact namesFile_elementOf element file source
  exact helements.bind fun measurements => namesFile_ok _

theorem namesFile_document (r : Record) : NamesFile r.fileName r.document := by
  unfold Record.document
  split
  · exact namesFile_ok _
  · exact namesFile_error (Fault.isOfFile_inFile _ _ _)

namespace StrategyRules

variable (rules : StrategyRules)

theorem namesFile_readIdeal : NamesFile file (rules.readIdeal j file) := by
  unfold readIdeal
  split
  · exact (namesFile_require _ _ _).bind fun part => namesFile_measurement _ _ _
  · exact namesFile_ok _

theorem namesFile_readScalars : NamesFile file (rules.readScalars j file) := by
  unfold readScalars
  refine NamesFile.bind (namesFile_mapM ?_) fun pairs => namesFile_ok _
  intro x _
  exact (namesFile_requireNumber _ _ _).bind fun value => namesFile_ok _

/-- What a document contributes to strategies. -/
theorem namesFile_read (r : Record) : NamesFile r.fileName (rules.read r) := by
  unfold read
  refine (namesFile_document r).bind ?_
  intro j
  refine NamesFile.bind (namesFile_mapM ?_) ?_
  · intro s _
    exact (namesFile_readSample _ _ _).bind fun sample => namesFile_ok _
  · intro samples
    split
    · exact namesFile_ok _
    · refine (namesFile_readIdeal _ _ _).bind ?_
      intro ideal
      exact (namesFile_readScalars _ _ _).bind fun scalars => namesFile_ok _

end StrategyRules

theorem namesFile_readErrorRates (orderings : List String) (index : Nat) :
    NamesFile file (readErrorRates orderings j index file) := by
  unfold readErrorRates
  refine NamesFile.bind (namesFile_mapM ?_) fun pairs => namesFile_ok _
  intro ordering _
  have hnumber := namesFile_requireNumber j (successRatePointer ordering) file
  split
  · exact namesFile_ok _
  next fault hfault => exact namesFile_error ((hnumber fault hfault).withContext _ (by decide))

/-- The networks of a document of error rates. -/
theorem namesFile_readNetworks (orderings : List String) (r : Record) :
    NamesFile r.fileName (readNetworks orderings r) := by
  unfold readNetworks
  refine (namesFile_document r).bind ?_
  intro j
  split
  · exact namesFile_error (Fault.isOfFile_inFile _ _ _)
  · apply namesFile_mapM
    intro x _
    exact (namesFile_readErrorRates _ _ _ _).bind fun scalars => namesFile_ok _

/-! ## Other kinds of extraction -/

theorem isOfFile_notACount (what : String) : (Fault.notACount what file).IsOfFile file :=
  Fault.isOfFile_inFile _ _ _

theorem namesFile_readRepetition (r : Record) : NamesFile r.fileName (readRepetition r) := by
  unfold readRepetition
  simp only
  split
  · exact namesFile_error (Fault.isOfFile_inFile _ _ _)
  refine (namesFile_document r).bind ?_
  intro j
  refine (namesFile_require _ _ _).bind ?_
  intro part
  split
  · exact namesFile_error (isOfFile_notACount _ _)
  · exact (namesFile_readSample _ _ _).bind fun sample => namesFile_ok _

theorem namesFile_readResultLines (n : ℕ) (lines : List (List Char)) :
    NamesFile file (readResultLines file n lines) := by
  induction n generalizing lines with
  | zero => exact namesFile_ok _
  | succ n ih =>
    cases lines with
    | nil => exact namesFile_error (Fault.isOfFile_inFile _ _ _)
    | cons line rest =>
      unfold readResultLines
      split
      · exact namesFile_error ((Fault.isOfFile_inFile _ _ _).withContext _ (by decide))
      · exact (ih rest).bind fun more => namesFile_ok _

theorem namesFile_readOutcomes (r : Record) : NamesFile r.fileName (readOutcomes r) := by
  unfold readOutcomes
  refine NamesFile.bind ?_ fun text => namesFile_readResultLines _ _ _
  unfold Record.text
  split
  · exact namesFile_ok _
  · exact namesFile_error (Fault.isOfFile_inFile _ _ _)

theorem namesFile_readPath : NamesFile file (readPath j file) := by
  unfold readPath
  refine (namesFile_require _ _ _).bind ?_
  intro part
  split
  · exact namesFile_error (isOfFile_notACount _ _)
  · exact (namesFile_require _ _ _).bind fun hops => namesFile_ok _

theorem namesFile_readFlow : NamesFile file (readFlow j file) := by
  unfold readFlow
  refine (namesFile_requireArray _ _ _).bind ?_
  intro steps
  refine NamesFile.bind (namesFile_mapM ?_) fun outcomes => namesFile_ok _
  intro step _
  unfold readStep
  split
  · exact namesFile_error (Fault.isOfFile_inFile _ _ _)
  · exact namesFile_mapM fun path _ => namesFile_readPath _ _

theorem namesFile_readReplay (r : Record) : NamesFile r.fileName (readReplay r) := by
  unfold readReplay
  refine (namesFile_document r).bind ?_
  intro j
  split
  · exact namesFile_error (Fault.isOfFile_inFile _ _ _)
  · exact namesFile_error (Fault.isOfFile_inFile _ _ _)
  · refine NamesFile.bind (namesFile_mapM ?_) fun outcomes => namesFile_ok _
    intro flow _
    exact namesFile_readFlow _ _

end Extraction

/-- Whatever the kind of extraction, a refused record is named. -/
theorem Extractor.namesFile_ingest (x : Extractor) (r : Record) :
    NamesFile r.fileName (x.ingest r) := by
  cases x with
  | strategies rules entities => exact (Extraction.StrategyRules.namesFile_read rules r).map _
  | errorRates orderings entities => exact (Extraction.namesFile_readNetworks orderings r).map _
  | complexity levels => exact (Extraction.namesFile_readRepetition r).map _
  | classification entities => exact (Extraction.namesFile_readOutcomes r).map _
  | packetLoss entities => exact (Extraction.namesFile_readReplay r).map _

/-! ## Loading -/

namespace Loader

variable {l : Loader} {file : String} {content : Bytes}

theorem namesFile_checkRequired (l : Loader) (j : Json) (file : String) :
    NamesFile file (l.checkRequired j file) := by
  unfold checkRequired
  split
  · exact namesFile_error (Extraction.isOfFile_missingKey _ _)
  · exact namesFile_ok _

theorem namesFile_readContent (l : Loader) (file text : String) :
    NamesFile file (l.readContent file text) := by
  unfold readContent
  split
  · exact namesFile_ok _
  split
  · exact namesFile_error ⟨rfl, SortedMap.find?_insert_self _ _ _⟩
  · exact (namesFile_checkRequired _ _ _).map _

theorem read_of_not_text (h : Bytes.text? content = none) :
    l.read file content = .error (.notText (Path.join l.folder file)) := by
  unfold read
  rw [h]

/-- A file that is text is loaded under its name, or refused with a fault that names it. -/
theorem read_of_text (l : Loader) (file : String) {text : String}
    (h : Bytes.text? content = some text) :
    NamesFile file (l.read file content) ∧
      ∀ r, l.read file content = .ok r → r.fileName = file := by
  unfold read
  rw [h]
  constructor
  · exact (namesFile_readContent l file text).map _
  · intro r hr
    obtain ⟨c, -, rfl⟩ := map_eq_ok hr
    rfl

end Loader

end FigureData
