/-
  Entities carry their place in the order of discovery.

  The number of an entity is given at different moments: to a batch as it is listed after what
  is there, to the entity of a strategy when its identifier is first seen, to that of a level
  when all levels are listed.  Each time it is the number of entities before it, so that the
  numbers of a list are always its places.

  Proved:
  * `Entity.IsNumbered.extend`, `Contribution.isNumbered_enter`: a batch and a contribution keep
    the numbers in step with the places, also where a contribution goes into an entity that is
    there.
  * `Extractor.isNumbered_ingest`: so does every record that is ingested.
  * `Extractor.eq_entities_of_collected`: what is handed over is what has been collected.
-/
import FigureData.Extraction.Extractor
import FigureData.Proofs.Extraction.Strategies

namespace FigureData

open Extraction Outcome

/-! ## Lists of entities -/

namespace Entity

/-- Each entity has its place in the list as its number. -/
def IsNumbered (entities : List Entity) : Prop :=
  entities.map discovery = List.range entities.length

theorem isNumbered_number (entities : List Entity) : IsNumbered (number 0 entities) := by
  unfold IsNumbered
  rw [map_discovery_number, length_number, List.range_eq_range']

namespace IsNumbered

variable {entities : List Entity} (h : IsNumbered entities)
include h

theorem extend (more : List Entity) : IsNumbered (extend entities more) := by
  have hrange : List.range entities.length ++ List.range' entities.length more.length =
      List.range (entities.length + more.length) := by
    rw [List.range_eq_range', List.range_eq_range', ← List.range'_append_1, Nat.zero_add]
  unfold IsNumbered Entity.extend at *
  rw [List.map_append, h, map_discovery_number, List.length_append, length_number, hrange]

theorem discovery_eq {i : ℕ} (hi : i < entities.length) : entities[i].discovery = i := by
  have hplace : (entities.map discovery)[i]? = (List.range entities.length)[i]? := by rw [h]
  rw [List.getElem?_map, List.getElem?_eq_getElem hi, List.getElem?_range hi] at hplace
  exact Option.some.inj hplace

theorem pairwise : entities.Pairwise fun a b => a.discovery < b.discovery := by
  rw [← List.pairwise_map, h]
  exact List.pairwise_lt_range

end IsNumbered

end Entity

/-! ## Extractors -/

/-- A contribution keeps the numbers of the entities that are there, and the next number goes to
a new one. -/
theorem Extraction.Contribution.isNumbered_enter {m : OrderedMap Entity}
    (h : Entity.IsNumbered m.values) (c : Contribution) : Entity.IsNumbered (c.enter m).values := by
  have hsize : m.values.length = m.size := List.length_map _
  unfold Contribution.enter
  cases hfind : m.find? c.id with
  | some old =>
    have hkept : (m.insert c.id (c.addTo old)).values.map Entity.discovery =
        m.values.map Entity.discovery := OrderedMap.map_values_insert _ hfind rfl
    have hlength := congrArg List.length hkept
    rw [List.length_map, List.length_map] at hlength
    show Entity.IsNumbered (m.insert c.id (c.addTo old)).values
    unfold Entity.IsNumbered at *
    rw [hkept, h, hlength]
  | none =>
    show Entity.IsNumbered (m.insert c.id (c.addTo { id := c.id, discovery := m.size })).values
    rw [OrderedMap.values_insert_of_none hfind, ← hsize]
    exact h.extend [c.addTo { id := c.id }]

namespace Extractor

variable {x y : Extractor}

theorem isNumbered_fresh (x : Extractor) : Entity.IsNumbered x.fresh.entities := by
  cases x with
  | complexity levels => exact Entity.isNumbered_number _
  | _ => rfl

/-- A record that is ingested keeps the numbers in step with the places. -/
theorem isNumbered_ingest {r : Record} (hx : Entity.IsNumbered x.entities)
    (h : x.ingest r = .ok y) : Entity.IsNumbered y.entities := by
  cases x with
  | strategies rules m =>
    obtain ⟨contribution, -, rfl⟩ := map_eq_ok h
    cases contribution with
    | some c => exact Contribution.isNumbered_enter hx c
    | none => exact hx
  | errorRates orderings entities =>
    obtain ⟨more, -, rfl⟩ := map_eq_ok h
    exact hx.extend more
  | complexity levels =>
    obtain ⟨repetition, -, rfl⟩ := map_eq_ok h
    exact Entity.isNumbered_number _
  | classification entities =>
    obtain ⟨more, -, rfl⟩ := map_eq_ok h
    exact hx.extend more
  | packetLoss entities =>
    obtain ⟨e, -, rfl⟩ := map_eq_ok h
    exact hx.extend [e]

/-- What is handed over is what has been collected. -/
theorem eq_entities_of_collected {entities : List Entity} (h : x.collected = .ok entities) :
    entities = x.entities := by
  cases x with
  | strategies rules m => exact (StrategyRules.complete_spec h).1
  | _ => exact (Except.ok.inj h).symm

end Extractor

end FigureData
