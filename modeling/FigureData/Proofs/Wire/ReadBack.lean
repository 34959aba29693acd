/-
  Values that are read back from the text they are written as.

  Whatever has no doubles comes back as it was: faults, evaluations, the circumstances of a run.
  Whatever has doubles comes back as it was exactly when they do, and not all do: the reader of
  numerals rounds twice, so a finite double may come back as its neighbour.  Counts are assumed to
  fit 64 bits, as all counts of the program do.
-/
import FigureData.Descriptor.Catalogue
import FigureData.Proofs.Descriptor.RoundTrip

namespace FigureData

open Json Wire

/-- A value of one of the types that are written and read. -/
inductive WireValue
  | fault (f : Fault)
  | evaluation (e : Evaluation)
  | provenance (p : Provenance)
  | cell (c : Cell)
  | branch (b : CurveBranch)
  | column (c : Column)
  | scalar (r : ScalarRule)
  | config (c : Config)
  | descriptor (d : Descriptor)
deriving DecidableEq

namespace WireValue

/-- The canonical text of a value, read as a value of the same type. -/
def readBack? : WireValue → Option WireValue
  | .fault f => (Wire.readBack? Fault.wanted Fault.decode? f.encode).map .fault
  | .evaluation e => (Wire.readBack? .all Evaluation.decode? e.encode).map .evaluation
  | .provenance p => (Wire.readBack? Provenance.wanted Provenance.decode? p.encode).map .provenance
  | .cell c => (Wire.readBack? Cell.wanted Cell.decode? c.encode).map .cell
  | .branch b => (Wire.readBack? .all CurveBranch.decode? b.encode).map .branch
  | .column c => (Wire.readBack? .all Column.decode? c.encode).map .column
  | .scalar r => (Wire.readBack? .all ScalarRule.decode? r.encode).map .scalar
  | .config c => (Wire.readBack? Config.wanted Config.decode? c.encode).map .config
  | .descriptor d => (Wire.readBack? .all Descriptor.decode? d.encode).map .descriptor

def numbers : WireValue → List Float
  | .fault _ | .evaluation _ | .provenance _ => []
  | .cell c => c.numbers
  | .branch b => b.numbers
  | .column c => c.numbers
  | .scalar r => r.numbers
  | .config c => c.numbers
  | .descriptor d => d.numbers

/-- The counts of a value are numbers of 64 bits. -/
def CountsFit : WireValue → Prop
  | .provenance p => p.inputFiles < 2 ^ 64 ∧ p.droppedEntities < 2 ^ 64
  | .config c => ∀ n ∈ c.output.precision, n < 2 ^ 64
  | _ => True

theorem map_iff {α : Type} {o : Option α} {a : α} {p : Prop} (wrap : α → WireValue)
    (hwrap : Function.Injective wrap) (h : o = some a ↔ p) :
    o.map wrap = some (wrap a) ↔ p := by
  rw [← Option.map_some, (Option.map_injective hwrap).eq_iff]
  exact h

end WireValue

/-- A value with finite doubles is read back from its canonical text exactly when its doubles are,
so one without doubles always is; and a descriptor patched with nothing is what it was. -/
theorem values_read_back (v : WireValue) (hcounts : v.CountsFit)
    (hfinite : ∀ x ∈ v.numbers, x.isFinite = true) :
    (v.readBack? = some v ↔ ∀ x ∈ v.numbers, ReadsBack x) ∧
      ∀ d, v = .descriptor d → d.patch? [] = some d := by
  refine ⟨?_, fun d _ => d.patch?_nil⟩
  cases v <;>
    simp only [WireValue.readBack?, WireValue.numbers, WireValue.CountsFit] at hcounts hfinite ⊢
  case fault f => simp [f.readBack?_eq]
  case evaluation e => simp [e.readBack?_eq]
  case provenance p => simp [Provenance.readBack?_eq hcounts.1 hcounts.2]
  case cell c =>
    exact WireValue.map_iff .cell (fun _ _ => WireValue.cell.inj) (Cell.readBack?_iff hfinite)
  case branch b =>
    exact WireValue.map_iff .branch (fun _ _ => WireValue.branch.inj)
      (CurveBranch.readBack?_iff hfinite)
  case column c =>
    exact WireValue.map_iff .column (fun _ _ => WireValue.column.inj) (Column.readBack?_iff hfinite)
  case scalar r =>
    exact WireValue.map_iff .scalar (fun _ _ => WireValue.scalar.inj)
      (ScalarRule.readBack?_iff hfinite)
  case config c =>
    exact WireValue.map_iff .config (fun _ _ => WireValue.config.inj)
      (Config.readBack?_iff hcounts hfinite)
  case descriptor d =>
    exact WireValue.map_iff .descriptor (fun _ _ => WireValue.descriptor.inj)
      (Descriptor.readBack?_iff hfinite)

/-- Values whose doubles read back, one of each kind that has doubles or counts. -/
theorem defaults_read_back :
    (WireValue.provenance .blank).readBack? = some (.provenance .blank) ∧
    (WireValue.cell (.number 0.1)).readBack? = some (.cell (.number 0.1)) ∧
    (WireValue.branch (.withOutliers 2.5 0.75)).readBack? =
      some (.branch (.withOutliers 2.5 0.75)) ∧
    (WireValue.column (.position "y" 0.5)).readBack? = some (.column (.position "y" 0.5)) ∧
    (WireValue.scalar (.fractionAtOrBelow "f" "c" 1.0)).readBack? =
      some (.scalar (.fractionAtOrBelow "f" "c" 1.0)) ∧
    (WireValue.config {}).readBack? = some (.config {}) ∧
    (WireValue.descriptor Evaluation.costBoxplot.descriptor).readBack? =
      some (.descriptor Evaluation.costBoxplot.descriptor) := by
  refine ⟨(values_read_back (.provenance .blank) ⟨by decide, by decide⟩ ?_).1.2 ?_,
    (values_read_back (.cell _) trivial ?_).1.2 ?_,
    (values_read_back (.branch _) trivial ?_).1.2 ?_,
    (values_read_back (.column _) trivial ?_).1.2 ?_,
    (values_read_back (.scalar _) trivial ?_).1.2 ?_,
    (values_read_back (.config {}) (fun n hn => nomatch hn) ?_).1.2 ?_,
    (values_read_back (.descriptor _) trivial ?_).1.2 ?_⟩
  all_goals decide +kernel

/-- A finite double is written with its shortest digits and read as its upper neighbour. -/
theorem cell_reads_back_changed : (10.0 / 11.0 : Float).isFinite = true ∧
    readBack? Cell.wanted Cell.decode? (Cell.number (10.0 / 11.0)).encode =
      some (.number 0.9090909090909092) ∧
    Cell.number 0.9090909090909092 ≠ .number (10.0 / 11.0) := by
  decide +kernel

end FigureData
