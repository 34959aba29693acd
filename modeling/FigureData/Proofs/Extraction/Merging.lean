/-
  Entities as what their files contribute, the last file first.

  Contributions meet in one entity when they have the same identifier, and a later one
  overwrites.  So an entity is known by the files of its identifier alone, and a part of it by
  the last of them that has the part.

  Proved:
  * `mem_keys_enterAll`, `id_of_mem_enterAll`: there is one entity for every identifier
    contributed, and it has that identifier.
  * `find?_enterAll`: a part of an entity is that of its last contribution that has one.
  * `sample_enterAll`, `ideal_enterAll`: the samples and the ideal value.
  * `exists_last`: a part comes from the last file under the identifier that has one.
-/
import FigureData.Proofs.Extraction.Strategies

namespace FigureData.Extraction

open Outcome

/-- The contribution of the record of a file, when there is one. -/
def StrategyRules.contribution? (rules : StrategyRules) (item : Except Fault Record) :
    Option Contribution :=
  match item.bind rules.read with
  | .ok c => c
  | .error _ => none

theorem StrategyRules.contribution?_of_ok {rules : StrategyRules} {item : Except Fault Record}
    {c : Option Contribution} (h : item.bind rules.read = .ok c) : rules.contribution? item = c := by
  unfold StrategyRules.contribution?
  rw [h]

theorem StrategyRules.contribution?_of_read {rules : StrategyRules} {r : Record}
    {c : Option Contribution} (h : rules.read r = .ok c) : rules.contribution? (.ok r) = c :=
  contribution?_of_ok (show (Except.ok r).bind rules.read = .ok c from h)

theorem StrategyRules.contribution?_of_error {rules : StrategyRules} {item : Except Fault Record}
    {fault : Fault} (h : item.bind rules.read = .error fault) : rules.contribution? item = none := by
  unfold StrategyRules.contribution?
  rw [h]

theorem StrategyRules.contribution?_eq_some_iff {rules : StrategyRules}
    {item : Except Fault Record} {c : Contribution} :
    rules.contribution? item = some c ↔ ∃ r, item = .ok r ∧ rules.read r = .ok (some c) := by
  constructor
  · intro h
    cases hread : item.bind rules.read with
    | ok c' =>
      rw [StrategyRules.contribution?_of_ok hread] at h
      obtain ⟨r, rfl, hr⟩ := bind_eq_ok hread
      exact ⟨r, rfl, h ▸ hr⟩
    | error fault =>
      rw [StrategyRules.contribution?_of_error hread] at h
      cases h
  · rintro ⟨r, rfl, hr⟩
    exact StrategyRules.contribution?_of_ok hr

/-- What records contribute, one after the other. -/
def StrategyRules.contributions (rules : StrategyRules) (records : List Record) :
    List Contribution :=
  records.filterMap fun r => rules.contribution? (.ok r)

/-- Records that all contribute do so item by item. -/
theorem StrategyRules.forall₂_contributions {rules : StrategyRules} {records : List Record}
    (h : ∀ r ∈ records, ∃ c, rules.read r = .ok (some c)) :
    List.Forall₂ (fun r c => rules.read r = .ok (some c)) records (rules.contributions records) := by
  induction records with
  | nil => exact .nil
  | cons r rest ih =>
    rw [List.forall_mem_cons] at h
    obtain ⟨⟨c, hc⟩, hrest⟩ := h
    have hcons : rules.contributions (r :: rest) = c :: rules.contributions rest :=
      List.filterMap_cons_some (contribution?_of_read hc)
    rw [hcons]
    exact .cons hc (ih hrest)

/-- Contributions entered one after the other. -/
def enterAll (contributions : List Contribution) (m : OrderedMap Entity) : OrderedMap Entity :=
  contributions.foldl (fun m c => c.enter m) m

theorem enterAll_cons (c : Contribution) (rest : List Contribution) (m : OrderedMap Entity) :
    enterAll (c :: rest) m = enterAll rest (c.enter m) := rfl

theorem enterAll_concat (contributions : List Contribution) (c : Contribution)
    (m : OrderedMap Entity) :
    enterAll (contributions ++ [c]) m = c.enter (enterAll contributions m) := by
  unfold enterAll
  rw [List.foldl_append]
  rfl

/-- What every contribution keeps, all of them keep. -/
theorem enterAll_induction {P : OrderedMap Entity → Prop} {contributions : List Contribution}
    (hstep : ∀ c ∈ contributions, ∀ m, P m → P (c.enter m)) {m : OrderedMap Entity} (hm : P m) :
    P (enterAll contributions m) := by
  induction contributions generalizing m with
  | nil => exact hm
  | cons c rest ih =>
    rw [List.forall_mem_cons] at hstep
    exact ih hstep.2 (hstep.1 m hm)

/-! ## Identifiers -/

theorem mem_keys_enterAll {contributions : List Contribution} {m : OrderedMap Entity} {id : String} :
    id ∈ (enterAll contributions m).keys ↔ (∃ c ∈ contributions, c.id = id) ∨ id ∈ m.keys := by
  induction contributions generalizing m with
  | nil => simp [enterAll]
  | cons c rest ih =>
    have hkeys : id ∈ (c.enter m).keys ↔ id = c.id ∨ id ∈ m.keys := by
      unfold Contribution.enter
      rw [OrderedMap.keys_insert]
      split
      next hmem =>
        refine (or_iff_right_of_imp ?_).symm
        rintro rfl
        exact hmem
      next => rw [List.mem_append, List.mem_singleton, or_comm]
    rw [enterAll_cons, ih, hkeys, List.exists_mem_cons_iff, ← or_assoc]
    apply or_congr_left
    rw [or_comm, eq_comm]

/-- Every entity has the identifier it is entered under. -/
theorem id_of_mem_enterAll {contributions : List Contribution} {x : String × Entity}
    (h : x ∈ (enterAll contributions ∅).entries) : x.2.id = x.1 := by
  refine enterAll_induction (P := fun m => ∀ x ∈ m.entries, x.2.id = x.1) ?_ ?_ x h
  · intro c _ m hm x hx
    rcases mem_putEntry hx with rfl | hx
    · show ((m.find? c.id).getD { id := c.id, discovery := m.size }).id = c.id
      cases hfind : m.find? c.id with
      | none => rfl
      | some e => exact hm _ (OrderedMap.find?_eq_some_iff.1 hfind)
    · exact hm x hx
  · intro x hx
    exact absurd hx List.not_mem_nil

/-- Entities are listed under their identifiers. -/
theorem map_id_enterAll (contributions : List Contribution) :
    (enterAll contributions ∅).values.map Entity.id = (enterAll contributions ∅).keys := by
  unfold OrderedMap.values OrderedMap.keys
  rw [List.map_map]
  exact List.map_congr_left fun x hx => id_of_mem_enterAll hx

/-! ## Parts of an entity -/

/-- A part of an entity is that of its last contribution that has one. -/
theorem find?_enterAll {β : Type} (part : Entity → Option β) (own : Contribution → Option β)
    (hadd : ∀ c e, part (c.addTo e) = (own c).or (part e)) (hnew : ∀ id i, part { id, discovery := i } = none)
    (contributions : List Contribution) (m : OrderedMap Entity) (id : String) :
    ((enterAll contributions m).find? id).bind part =
      (contributions.reverse.findSome? fun c => if c.id = id then own c else none).or
        ((m.find? id).bind part) := by
  induction contributions generalizing m with
  | nil => rfl
  | cons c rest ih =>
    have henter : ((c.enter m).find? id).bind part =
        (if c.id = id then own c else none).or ((m.find? id).bind part) := by
      unfold Contribution.enter
      rw [OrderedMap.find?_insert]
      by_cases h : c.id = id
      · subst h
        rw [if_pos rfl, if_pos rfl, Option.bind_some, hadd]
        cases m.find? c.id with
        | none => rw [Option.getD_none, hnew, Option.bind_none]
        | some e => rw [Option.getD_some, Option.bind_some]
      · rw [if_neg (Ne.symm h), if_neg h, Option.none_or]
    rw [enterAll_cons, ih, henter, List.reverse_cons, List.findSome?_append, Option.or_assoc]
    congr 2
    simp

section Parts

variable (contributions : List Contribution) (id : String)

theorem sample_enterAll (label : String) :
    ((enterAll contributions ∅).find? id).bind (fun e => e.samples.find? label) =
      contributions.reverse.findSome? fun c =>
        if c.id = id then c.samples.reverse.lookup label else none := by
  rw [find?_enterAll (fun e => e.samples.find? label) (fun c => c.samples.reverse.lookup label)
    (fun c e => OrderedMap.find?_insertAll e.samples c.samples label) (fun _ _ => rfl)]
  exact Option.or_none

theorem ideal_enterAll :
    ((enterAll contributions ∅).find? id).bind Entity.ideal =
      contributions.reverse.findSome? fun c => if c.id = id then c.ideal else none := by
  rw [find?_enterAll Entity.ideal Contribution.ideal (fun _ _ => rfl) (fun _ _ => rfl)]
  exact Option.or_none

end Parts

/-- The part of an entity comes from the last file under its identifier that has one. -/
theorem exists_last {β : Type} {rules : StrategyRules} {own : Contribution → Option β}
    {items : List (Except Fault Record)} {id : String} {b : β}
    (h : ((items.filterMap rules.contribution?).reverse.findSome? fun c =>
      if c.id = id then own c else none) = some b) :
    ∃ before r c after, items = before ++ .ok r :: after ∧ rules.read r = .ok (some c) ∧
      c.id = id ∧ own c = some b ∧
      ∀ r' c', .ok r' ∈ after → rules.read r' = .ok (some c') → c'.id = id → own c' = none := by
  rw [← List.filterMap_reverse, ← List.head?_filterMap, List.filterMap_filterMap,
    List.head?_filterMap, List.findSome?_eq_some_iff] at h
  obtain ⟨after, item, before, hsplit, hitem, hafter⟩ := h
  obtain ⟨c, hc, hb⟩ := Option.bind_eq_some_iff.1 hitem
  obtain ⟨r, rfl, hr⟩ := StrategyRules.contribution?_eq_some_iff.1 hc
  split_ifs at hb with hid
  refine ⟨before.reverse, r, c, after.reverse, ?_, hr, hid, hb, ?_⟩
  · rw [← List.reverse_reverse items, hsplit, List.reverse_append, List.reverse_cons,
      List.append_assoc]
    rfl
  · intro r' c' hr' hread hid'
    have hnone := hafter (.ok r') (List.mem_reverse.1 hr')
    rw [StrategyRules.contribution?_eq_some_iff.2 ⟨r', rfl, hread⟩, Option.bind_some,
      if_pos hid'] at hnone
    exact hnone

end FigureData.Extraction
