/-
  The scalars that extractors give entities of their own.

  Proved:
  * `isFinite_readNetworks`: the error rates of a document with finite numbers are finite.
  * `counts_of_readOutcomes`: the counts of a log fit 64 bits.
-/
import FigureData.Extraction.Classification
import FigureData.Extraction.ErrorRates
import FigureData.Proofs.Binary64.Sums
import FigureData.Proofs.Json.Finite
import FigureData.Proofs.Maps
import FigureData.Proofs.Outcome

namespace FigureData.Extraction

open Outcome

/-! ## Error rates -/

theorem requireNumber_eq_ok {j : Json} {pointer file : String} {x : Float}
    (h : requireNumber j pointer file = .ok x) : (j.at? pointer).bind Json.number? = some x := by
  unfold requireNumber at h
  obtain ⟨part, hpart, h⟩ := bind_eq_ok h
  unfold require at hpart
  split at hpart
  next found hfound =>
    cases hpart
    rw [hfound, Option.bind_some]
    split at h
    next y hy =>
      cases h
      exact hy
    next => cases h
  next => cases hpart

/-- The error rates of a finite document are finite. -/
theorem isFinite_readErrorRates {orderings : List String} {network : Json} {index : Nat}
    {file : String} {rates : SortedMap String Float} (hnetwork : network.IsFinite)
    (h : readErrorRates orderings network index file = .ok rates) :
    ∀ x ∈ rates.entries, x.2.isFinite = true := by
  unfold readErrorRates at h
  obtain ⟨pairs, hpairs, h⟩ := bind_eq_ok h
  cases h
  intro x hx
  rcases SortedMap.mem_insertAll hx with hx | hx
  · cases hx
  obtain ⟨ordering, -, hordering⟩ := exists_mem_of_forall₂ (mapM_eq_ok hpairs) hx
  split at hordering
  next rate hrate =>
    cases hordering
    obtain ⟨part, hpart, hnumber⟩ := Option.bind_eq_some_iff.1 (requireNumber_eq_ok hrate)
    exact Binary64.isFinite_complement ((hnetwork.at? hpart).number? hnumber)
  next => cases hordering

theorem isFinite_readNetworks {orderings : List String} {r : Record} {entities : List Entity}
    (hdocument : ∀ j, r.document = .ok j → j.IsFinite)
    (h : readNetworks orderings r = .ok entities) :
    ∀ e ∈ entities, ∀ x ∈ e.scalars.entries, x.2.isFinite = true := by
  unfold readNetworks at h
  obtain ⟨j, hj, h⟩ := bind_eq_ok h
  split at h
  next => cases h
  next networks hnetworks =>
    intro e he
    obtain ⟨⟨network, index⟩, hmem, hentity⟩ := exists_mem_of_forall₂ (mapM_eq_ok h) he
    obtain ⟨rates, hrates, hentity⟩ := bind_eq_ok hentity
    cases hentity
    exact isFinite_readErrorRates
      ((hdocument j hj).items? hnetworks network (List.fst_mem_of_mem_zipIdx hmem)) hrates

/-! ## Confusion counts -/

theorem readCount?_lt {bits n : Nat} {cs : List Char} (h : Decimal.readCount? bits cs = some n) :
    n < 2 ^ bits := by
  unfold Decimal.readCount? at h
  extract_lets digits at h
  clear_value digits
  split at h
  · cases h
  · split at h
    next hn =>
      rw [← Option.some.inj h]
      exact hn
    next => cases h

/-- A count of 64 bits stands under the name that the figure sums. -/
def HasWordCount (e : Entity) : Prop :=
  ∃ n < 2 ^ 64, e.scalars.find? "count" = some (Binary64.ofNat n)

theorem counts_of_readResultLines {file : String} {n : Nat} {lines : List (List Char)}
    {entities : List Entity} (h : readResultLines file n lines = .ok entities) :
    ∀ e ∈ entities, HasWordCount e := by
  induction n generalizing lines entities with
  | zero =>
    cases h
    exact nofun
  | succ n ih =>
    cases lines with
    | nil => cases h
    | cons line rest =>
      unfold readResultLines at h
      split at h
      next => cases h
      next label count rate hline =>
        obtain ⟨more, hmore, h⟩ := bind_eq_ok h
        cases h
        refine List.forall_mem_cons.2 ⟨⟨count, ?_, ?_⟩, ih hmore⟩
        · unfold readResultLine? at hline
          obtain ⟨⟨front, back⟩, -, hline⟩ := Option.bind_eq_some_iff.1 hline
          simp only at hline
          split at hline
          next =>
            obtain ⟨read, hread, hline⟩ := Option.bind_eq_some_iff.1 hline
            obtain ⟨percent, -, hline⟩ := Option.bind_eq_some_iff.1 hline
            cases hline
            exact readCount?_lt hread
          next => cases hline
        · rw [SortedMap.ofList, SortedMap.find?_insertAll]
          rfl

/-- The counts of a log fit 64 bits. -/
theorem counts_of_readOutcomes {r : Record} {entities : List Entity}
    (h : readOutcomes r = .ok entities) : ∀ e ∈ entities, HasWordCount e := by
  unfold readOutcomes at h
  obtain ⟨text, -, h⟩ := bind_eq_ok h
  exact counts_of_readResultLines h

end FigureData.Extraction
