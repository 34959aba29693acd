/-
  Packets of a replay are conserved.

  Flows, steps and paths are read one inside the other, but the packets that are counted depend
  on the list of all paths alone: each is counted once, on the side that its hops tell.  The flows
  matter by their number only.

  Proved:
  * `readPath_eq_ok_iff`, `readStep_eq_ok_iff`, `readFlow_eq_ok_iff`, `readReplay_eq_ok_iff`: a
    part of a document is read exactly when it has the shape of one, and what it is read as.
  * `Tally.ofOutcomes_packets`: the tally of paths sums the packets on either side, up to what
    64 bits hold; by `Tally.countsExactly_ofOutcomes` it is exact when they hold all packets.
  * `packets_conserved`: which documents are accepted, and what the entity of an accepted one
    says about its packets.

  A replay of 2^64 packets or more is accepted like any other, but a counter may have wrapped
  around: what its scalars say is not covered.
-/
import FigureData.Extraction.Extractor
import FigureData.Proofs.Binary64.Monotone
import FigureData.Proofs.Extraction.Measurements
import FigureData.Proofs.Maps

namespace FigureData

open Extraction Outcome

/-! ## The shape of a replay -/

namespace Json

/-- A path says for how many packets it stands and which hops they took. -/
inductive IsPath : Json → Prop
  | object {members : List (String × Json)} {count : ℕ} {hops : Json}
      (hcount : members.lookup "count" = some (.int count)) (hbound : count < 2 ^ 64)
      (hhops : members.lookup "path" = some hops) : IsPath (.object members)

/-- A step is an array of paths. -/
inductive IsStep : Json → Prop
  | array {paths : List Json} (h : ∀ path ∈ paths, IsPath path) : IsStep (.array paths)

/-- A flow has an array of steps. -/
inductive IsFlow : Json → Prop
  | object {members : List (String × Json)} {steps : List Json}
      (hsteps : members.lookup "paths" = some (.array steps))
      (h : ∀ step ∈ steps, IsStep step) : IsFlow (.object members)

/-- A replay is an array of flows, at least one. -/
inductive IsReplay : Json → Prop
  | array {flows : List Json} (hne : flows ≠ []) (h : ∀ flow ∈ flows, IsFlow flow) :
      IsReplay (.array flows)

/-- For how many packets a path stands. -/
def packetCount (path : Json) : ℕ := ((path.member? "count").bind (count? 64)).getD 0

/-- Do the packets of a path arrive? -/
def arrives (path : Json) : Bool := (path.member? "path").any isTruthy

/-- What became of the packets of a path. -/
def packets (path : Json) : Outcome :=
  if path.arrives then .success path.packetCount else .failure path.packetCount

/-- The items of an array; no other document has any. -/
def elements (j : Json) : List Json := j.items?.getD []

/-- The paths of a flow, step by step. -/
def flowPaths (flow : Json) : List Json :=
  ((flow.member? "paths").elim [] elements).flatMap elements

/-- The paths of a replay, flow by flow. -/
def replayPaths (replay : Json) : List Json := replay.elements.flatMap flowPaths

/-- The packets of a replay that arrive. -/
def transmitted (replay : Json) : ℕ := ((replay.replayPaths.filter arrives).map packetCount).sum

/-- The packets of a replay that are lost. -/
def dropped (replay : Json) : ℕ :=
  ((replay.replayPaths.filter fun path => !path.arrives).map packetCount).sum

/-- All packets of a replay. -/
def packetTotal (replay : Json) : ℕ := (replay.replayPaths.map packetCount).sum

/-- Every packet arrives or is lost. -/
theorem transmitted_add_dropped (replay : Json) :
    replay.transmitted + replay.dropped = replay.packetTotal := by
  unfold transmitted dropped packetTotal
  rw [← List.sum_append, ← List.map_append]
  exact ((List.filter_append_perm arrives replay.replayPaths).map packetCount).sum_eq

/-- A pointer of one step that is no position names a member. -/
theorem at?_of_name (j : Json) {pointer name : String} (hsteps : pointerSteps? pointer = some [name])
    (hindex : arrayIndex? name = none) : j.at? pointer = j.member? name := by
  unfold at?
  rw [hsteps, Option.bind_some, descend?]
  cases j with
  | object members =>
    exact Option.bind_fun_some _
  | array items =>
    show ((arrayIndex? name).bind fun i => items[i]?).bind _ = none
    rw [hindex]
    rfl
  | _ => rfl

theorem member?_eq_some_iff {j part : Json} {name : String} :
    j.member? name = some part ↔ ∃ members, j = .object members ∧ members.lookup name = some part := by
  cases j <;> simp [member?]

theorem count?_eq_some_iff {j : Json} {bits count : ℕ} :
    j.count? bits = some count ↔ j = .int count ∧ count < 2 ^ bits := by
  cases j with
  | int n =>
    unfold count?
    rw [Option.ite_none_right_eq_some, Option.some.injEq, int.injEq]
    constructor
    · rintro ⟨⟨hnonneg, hbound⟩, rfl⟩
      exact ⟨(Int.toNat_of_nonneg hnonneg).symm, hbound⟩
    · rintro ⟨rfl, hbound⟩
      exact ⟨⟨Int.natCast_nonneg count, hbound⟩, rfl⟩
  | _ => simp [count?]

theorem items?_eq_some_iff {j : Json} {items : List Json} : j.items? = some items ↔ j = .array items := by
  cases j <;> simp [items?]

end Json

/-- The same file with another document in it. -/
def Record.holding (r : Record) (j : Json) : Record := { r with content := .document j }

/-- The entity of a replay. -/
def replayEntity (id : String) (replay : Json) : Entity where
  id
  scalars := packetScalars (.ofOutcomes (replay.replayPaths.map Json.packets)) replay.elements.length

/-! ## Reading a replay -/

namespace Extraction

variable {file : String}

/-- A path is read exactly when it is one, as what became of its packets. -/
theorem readPath_eq_ok_iff {path : Json} {o : Outcome} :
    readPath path file = .ok o ↔ path.IsPath ∧ o = path.packets := by
  have hcount : path.at? "/count" = path.member? "count" := path.at?_of_name rfl rfl
  have hhops : path.at? "/path" = path.member? "path" := path.at?_of_name rfl rfl
  unfold readPath
  constructor
  · intro h
    obtain ⟨countPart, hcountPart, h⟩ := bind_eq_ok h
    rw [require_eq_ok_iff, hcount] at hcountPart
    split at h
    · cases h
    next count hvalue =>
      obtain ⟨hops, hhopsPart, h⟩ := bind_eq_ok h
      rw [require_eq_ok_iff, hhops] at hhopsPart
      cases h
      obtain ⟨members, rfl, hlookup⟩ := Json.member?_eq_some_iff.1 hcountPart
      obtain ⟨rfl, hbound⟩ := Json.count?_eq_some_iff.1 hvalue
      refine ⟨.object hlookup hbound hhopsPart, ?_⟩
      unfold Json.packets Json.arrives Json.packetCount
      rw [hcountPart, hhopsPart, Option.bind_some, hvalue, Option.getD_some, Option.any_some]
  · rintro ⟨⟨hlookup, hbound, hhopsLookup⟩, rfl⟩
    rename_i members count hops
    have hcountPart : (Json.object members).member? "count" = some (.int count) := hlookup
    have hhopsPart : (Json.object members).member? "path" = some hops := hhopsLookup
    have hvalue : (Json.int count).count? 64 = some count :=
      Json.count?_eq_some_iff.2 ⟨rfl, hbound⟩
    simp only [require_eq_ok_iff.2 (hcount.trans hcountPart),
      require_eq_ok_iff.2 (hhops.trans hhopsPart), hvalue, bind, Except.bind]
    unfold Json.packets Json.arrives Json.packetCount
    rw [hcountPart, hhopsPart, Option.bind_some, hvalue, Option.getD_some, Option.any_some]
    rfl

/-- A step is read exactly when it is one. -/
theorem readStep_eq_ok_iff {step : Json} {outcomes : List Outcome} :
    readStep step file = .ok outcomes ↔ step.IsStep ∧ outcomes = step.elements.map Json.packets := by
  unfold readStep
  constructor
  · intro h
    split at h
    · cases h
    next paths hpaths =>
      obtain rfl := Json.items?_eq_some_iff.1 hpaths
      obtain ⟨hshape, rfl⟩ := (mapM_eq_ok_map_iff fun _ _ => readPath_eq_ok_iff).1 h
      exact ⟨.array hshape, rfl⟩
  · rintro ⟨⟨hshape⟩, rfl⟩
    exact (mapM_eq_ok_map_iff fun _ _ => readPath_eq_ok_iff).2 ⟨hshape, rfl⟩

/-- A flow is read exactly when it is one. -/
theorem readFlow_eq_ok_iff {flow : Json} {outcomes : List Outcome} :
    readFlow flow file = .ok outcomes ↔ flow.IsFlow ∧ outcomes = flow.flowPaths.map Json.packets := by
  have hpaths : flow.at? "/paths" = flow.member? "paths" := flow.at?_of_name rfl rfl
  unfold readFlow Json.flowPaths
  rw [List.map_flatMap]
  constructor
  · intro h
    obtain ⟨steps, hsteps, h⟩ := bind_eq_ok h
    obtain ⟨outcomes', houtcomes, h⟩ := bind_eq_ok h
    cases h
    obtain ⟨part, hpart, hitems⟩ := Option.bind_eq_some_iff.1 (requireArray_eq_ok_iff.1 hsteps)
    obtain rfl := Json.items?_eq_some_iff.1 hitems
    rw [hpaths] at hpart
    obtain ⟨members, rfl, hlookup⟩ := Json.member?_eq_some_iff.1 hpart
    obtain ⟨hshape, rfl⟩ := (mapM_eq_ok_map_iff fun _ _ => readStep_eq_ok_iff).1 houtcomes
    rw [hpart]
    exact ⟨.object hlookup hshape, rfl⟩
  · rintro ⟨⟨hlookup, hshape⟩, rfl⟩
    rename_i members steps
    have hpart : (Json.object members).member? "paths" = some (.array steps) := hlookup
    have hread : steps.mapM (fun step => readStep step file) = .ok _ :=
      (mapM_eq_ok_map_iff fun _ _ => readStep_eq_ok_iff).2 ⟨hshape, rfl⟩
    rw [requireArray_eq_ok_iff.2 (by rw [hpaths, hpart]; rfl), hpart]
    show (steps.mapM (fun step => readStep step file) >>= fun read => pure read.flatten) = _
    rw [hread]
    rfl

/-- A document is read exactly when it is a replay, as the tally of its paths. -/
theorem readReplay_eq_ok_iff {r : Record} {replay : Json} {e : Entity} :
    readReplay (r.holding replay) = .ok e ↔ replay.IsReplay ∧ e = replayEntity r.stem replay := by
  unfold readReplay replayEntity Json.replayPaths
  rw [List.map_flatMap]
  constructor
  · intro h
    obtain ⟨j, hj, h⟩ := bind_eq_ok h
    cases hj
    split at h
    · cases h
    · cases h
    next flows hne hflows =>
      obtain ⟨outcomes, houtcomes, h⟩ := bind_eq_ok h
      cases h
      obtain rfl := Json.items?_eq_some_iff.1 hflows
      obtain ⟨hshape, rfl⟩ := (mapM_eq_ok_map_iff fun _ _ => readFlow_eq_ok_iff).1 houtcomes
      exact ⟨.array hne hshape, rfl⟩
  · rintro ⟨⟨hne, hshape⟩, rfl⟩
    rename_i flows
    have hread : flows.mapM (fun flow => readFlow flow r.fileName) = .ok _ :=
      (mapM_eq_ok_map_iff fun _ _ => readFlow_eq_ok_iff).2 ⟨hshape, rfl⟩
    obtain ⟨first, rest, rfl⟩ := List.exists_cons_of_ne_nil hne
    show ((first :: rest).mapM (fun flow => readFlow flow r.fileName) >>= _) = _
    rw [hread]
    rfl

end Extraction

/-! ## Counting packets -/

/-- The tally of paths sums the packets on either side. -/
theorem Tally.foldl_add_packets (paths : List Json) (t : Tally) :
    (paths.map Json.packets).foldl Tally.add t =
      ⟨t.success + .ofNat ((paths.filter Json.arrives).map Json.packetCount).sum,
        t.failure + .ofNat ((paths.filter fun path => !path.arrives).map Json.packetCount).sum⟩ := by
  induction paths generalizing t with
  | nil =>
    show t = ⟨t.success + 0, t.failure + 0⟩
    rw [UInt64.add_zero, UInt64.add_zero]
  | cons path rest ih =>
    rw [List.map_cons, List.foldl_cons, ih, List.filter_cons, List.filter_cons]
    unfold Json.packets
    cases path.arrives with
    | true => simp [Tally.add, UInt64.ofNat_add, UInt64.add_assoc]
    | false => simp [Tally.add, UInt64.ofNat_add, UInt64.add_assoc]

theorem Tally.ofOutcomes_packets (replay : Json) :
    Tally.ofOutcomes (replay.replayPaths.map Json.packets) =
      ⟨.ofNat replay.transmitted, .ofNat replay.dropped⟩ := by
  unfold Tally.ofOutcomes
  rw [foldl_add_packets]
  show Tally.mk (0 + .ofNat replay.transmitted) (0 + .ofNat replay.dropped) = _
  rw [UInt64.zero_add, UInt64.zero_add]

/-- The counters say how many packets of a replay arrive, are lost, and are there at all. -/
structure Tally.CountsExactly (t : Tally) (replay : Json) : Prop where
  success : t.success.toNat = replay.transmitted
  failure : t.failure.toNat = replay.dropped
  total : t.total.toNat = replay.packetTotal

theorem Tally.CountsExactly.total_eq_zero_iff {t : Tally} {replay : Json}
    (h : t.CountsExactly replay) : t.total = 0 ↔ replay.packetTotal = 0 := by
  rw [← h.total, ← UInt64.toNat_inj]
  rfl

/-- No counter wraps around when one can hold all packets. -/
theorem Tally.countsExactly_ofOutcomes {replay : Json} (h : replay.packetTotal < 2 ^ 64) :
    (Tally.ofOutcomes (replay.replayPaths.map Json.packets)).CountsExactly replay := by
  have hsplit := replay.transmitted_add_dropped
  have htotal : (Tally.mk (.ofNat replay.transmitted) (.ofNat replay.dropped)).total =
      .ofNat replay.packetTotal := by
    rw [← hsplit]
    exact (UInt64.ofNat_add _ _).symm
  rw [ofOutcomes_packets]
  exact {
    success := UInt64.toNat_ofNat_of_lt' (lt_of_le_of_lt (by omega) h)
    failure := UInt64.toNat_ofNat_of_lt' (lt_of_le_of_lt (by omega) h)
    total := by rw [htotal]; exact UInt64.toNat_ofNat_of_lt' h }

/-- The entity of a replay depends on its paths up to their order, and on the number of flows. -/
theorem replayEntity_congr {replay other : Json} (id : String)
    (hflows : other.elements.length = replay.elements.length)
    (hpaths : other.replayPaths.Perm replay.replayPaths) :
    replayEntity id other = replayEntity id replay := by
  have htransmitted : other.transmitted = replay.transmitted :=
    ((hpaths.filter _).map _).sum_eq
  have hdropped : other.dropped = replay.dropped := ((hpaths.filter _).map _).sum_eq
  unfold replayEntity
  rw [Tally.ofOutcomes_packets, Tally.ofOutcomes_packets, htransmitted, hdropped, hflows]

/-- The scalars of an entity account for the packets of a replay. -/
structure Entity.CountsPackets (e : Entity) (replay : Json) : Prop where
  transmitted : e.scalars.find? "transmitted" = some (Binary64.ofNat replay.transmitted)
  dropped : e.scalars.find? "dropped" = some (Binary64.ofNat replay.dropped)
  rates : 0 < replay.packetTotal →
    e.scalars.find? "transmitted_rate" =
        some (Binary64.ofNat replay.transmitted / Binary64.ofNat replay.packetTotal) ∧
      e.scalars.find? "dropped_rate" =
        some (1.0 - Binary64.ofNat replay.transmitted / Binary64.ofNat replay.packetTotal)
  no_rates : replay.packetTotal = 0 →
    e.scalars.find? "transmitted_rate" = none ∧ e.scalars.find? "dropped_rate" = none
  time : e.scalars.find? "time" = some
    (Binary64.ofNat replay.packetTotal / Binary64.ofNat replay.elements.length / packetsPerSecond)
  /-- The time is no division by zero. -/
  divisor : (Binary64.ofNat replay.elements.length == 0.0) = false

theorem packetScalars_of_none {t : Tally} (h : t.total = 0) (flows : ℕ) :
    packetScalars t flows = .ofList [("transmitted", Binary64.ofNat t.success.toNat),
      ("dropped", Binary64.ofNat t.failure.toNat),
      ("time", Binary64.ofNat t.total.toNat / Binary64.ofNat flows / packetsPerSecond)] := by
  have hnone : t.successRate? = none := if_pos h
  unfold packetScalars Tally.errorRate?
  rw [hnone]
  rfl

theorem packetScalars_of_some {t : Tally} (h : t.total ≠ 0) (flows : ℕ) :
    packetScalars t flows = .ofList [("transmitted", Binary64.ofNat t.success.toNat),
      ("dropped", Binary64.ofNat t.failure.toNat),
      ("transmitted_rate", Binary64.ofNat t.success.toNat / Binary64.ofNat t.total.toNat),
      ("dropped_rate", 1.0 - Binary64.ofNat t.success.toNat / Binary64.ofNat t.total.toNat),
      ("time", Binary64.ofNat t.total.toNat / Binary64.ofNat flows / packetsPerSecond)] := by
  have hsome : t.successRate? =
      some (Binary64.ofNat t.success.toNat / Binary64.ofNat t.total.toNat) := if_neg h
  unfold packetScalars Tally.errorRate?
  rw [hsome]
  rfl

theorem countsPackets_replayEntity {replay : Json} (h : replay.IsReplay)
    (hbound : replay.packetTotal < 2 ^ 64) (id : String) :
    (replayEntity id replay).CountsPackets replay := by
  have hcounts := Tally.countsExactly_ofOutcomes hbound
  have hdivisor : (Binary64.ofNat replay.elements.length == 0.0) = false := by
    obtain ⟨hne, -⟩ := h
    exact Binary64.ofNat_beq_zero (List.length_pos_of_ne_nil hne)
  rcases Nat.eq_zero_or_pos replay.packetTotal with hzero | hpos
  · have hnone := hcounts.total_eq_zero_iff.2 hzero
    have hfind : ∀ key, (replayEntity id replay).scalars.find? key = _ := fun key => by
      unfold replayEntity
      rw [packetScalars_of_none hnone, SortedMap.find?_ofList, hcounts.success, hcounts.failure,
        hcounts.total]
    exact {
      transmitted := hfind _
      dropped := hfind _
      rates := fun hpos => absurd hzero hpos.ne'
      no_rates := fun _ => ⟨hfind _, hfind _⟩
      time := hfind _
      divisor := hdivisor }
  · have hsome := mt hcounts.total_eq_zero_iff.1 hpos.ne'
    have hfind : ∀ key, (replayEntity id replay).scalars.find? key = _ := fun key => by
      unfold replayEntity
      rw [packetScalars_of_some hsome, SortedMap.find?_ofList, hcounts.success, hcounts.failure,
        hcounts.total]
    exact {
      transmitted := hfind _
      dropped := hfind _
      rates := fun _ => ⟨hfind _, hfind _⟩
      no_rates := fun hzero => absurd hzero hpos.ne'
      time := hfind _
      divisor := hdivisor }

/-- A replay is taken in as one more entity, and nothing else is. -/
theorem Extractor.ingest_packetLoss_eq_ok_iff {entities : List Entity} {r : Record} {replay : Json}
    {y : Extractor} :
    (packetLoss entities).ingest (r.holding replay) = .ok y ↔
      replay.IsReplay ∧ y = .packetLoss (Entity.extend entities [replayEntity r.stem replay]) := by
  constructor
  · intro h
    obtain ⟨e, he, rfl⟩ := map_eq_ok h
    obtain ⟨hshape, rfl⟩ := readReplay_eq_ok_iff.1 he
    exact ⟨hshape, rfl⟩
  · rintro ⟨hshape, rfl⟩
    show (readReplay (r.holding replay)).map _ = _
    rw [readReplay_eq_ok_iff.2 ⟨hshape, rfl⟩]
    rfl

/-- A document is accepted exactly when it is a replay.  Its entity is listed after those that
are there and, when a counter can hold all packets, accounts for every path of the replay once; it
is the same for another replay with the same paths, however they are spread over as many flows. -/
theorem packets_conserved (entities : List Entity) (r : Record) (replay : Json) :
    ((∃ y, (Extractor.packetLoss entities).ingest (r.holding replay) = .ok y) ↔ replay.IsReplay) ∧
      replay.transmitted + replay.dropped = replay.packetTotal ∧
      ∀ y, (Extractor.packetLoss entities).ingest (r.holding replay) = .ok y →
        (∃ e, y = .packetLoss (entities ++ [e]) ∧ e.id = r.stem ∧ e.discovery = entities.length ∧
          (replay.packetTotal < 2 ^ 64 → e.CountsPackets replay)) ∧
        ∀ other : Json, other.IsReplay → other.elements.length = replay.elements.length →
          other.replayPaths.Perm replay.replayPaths →
          (Extractor.packetLoss entities).ingest (r.holding other) = .ok y := by
  refine ⟨?_, replay.transmitted_add_dropped, ?_⟩
  · constructor
    · rintro ⟨y, hy⟩
      exact (Extractor.ingest_packetLoss_eq_ok_iff.1 hy).1
    · intro h
      exact ⟨_, Extractor.ingest_packetLoss_eq_ok_iff.2 ⟨h, rfl⟩⟩
  · intro y hy
    obtain ⟨hshape, rfl⟩ := Extractor.ingest_packetLoss_eq_ok_iff.1 hy
    constructor
    · refine ⟨{ replayEntity r.stem replay with discovery := entities.length }, rfl, rfl, rfl,
        fun hbound => ?_⟩
      obtain ⟨htransmitted, hdropped, hrates, hnone, htime, hdivisor⟩ :=
        countsPackets_replayEntity hshape hbound r.stem
      exact ⟨htransmitted, hdropped, hrates, hnone, htime, hdivisor⟩
    · intro other hother hflows hpaths
      refine Extractor.ingest_packetLoss_eq_ok_iff.2 ⟨hother, ?_⟩
      rw [replayEntity_congr r.stem hflows hpaths]

/-- A path with a count and hops. -/
def replayPath (count : ℕ) (hops : Json) : Json := .object [("count", .int count), ("path", hops)]

/-- A flow with these steps. -/
def replayFlow (steps : List (List Json)) : Json := .object [("paths", .array (steps.map .array))]

/-- Two flows, the second of them with a step that has no path. -/
def oneSidedReplay : Json :=
  .array [replayFlow [[replayPath 3 (.string "r1"), replayPath 1 .null]], replayFlow [[]]]

/-- The same paths, spread evenly. -/
def evenReplay : Json :=
  .array [replayFlow [[replayPath 1 .null]], replayFlow [[replayPath 3 (.string "r1")]]]

theorem oneSidedReplay_regrouped :
    let x := Extractor.packetLoss []
    let r : Record := ⟨"8/random.json", "random.json", .document oneSidedReplay⟩
    oneSidedReplay.transmitted = 3 ∧ oneSidedReplay.dropped = 1 ∧
      ∃ y, x.ingest (r.holding oneSidedReplay) = .ok y ∧ x.ingest (r.holding evenReplay) = .ok y ∧
        ∃ e, y = .packetLoss [e] ∧ e.id = "random" ∧ e.CountsPackets oneSidedReplay := by
  intro x r
  have hread : ∀ j : Json, (x.ingest (r.holding j)).toOption.any (fun _ => true) = true →
      ∃ y, x.ingest (r.holding j) = .ok y := by
    intro j hj
    obtain ⟨y, hy, -⟩ := exists_of_any hj
    exact ⟨y, hy⟩
  obtain ⟨y, hy⟩ := hread oneSidedReplay (by decide +kernel)
  obtain ⟨heven, -⟩ := packets_conserved [] r evenReplay
  obtain ⟨-, -, haccepted⟩ := packets_conserved [] r oneSidedReplay
  obtain ⟨⟨e, hlist, hid, -, hcounts⟩, hregroup⟩ := haccepted y hy
  have hpaths : evenReplay.replayPaths.Perm oneSidedReplay.replayPaths := .swap _ _ _
  have hbound : oneSidedReplay.packetTotal < 2 ^ 64 := by decide +kernel
  refine ⟨by decide +kernel, by decide +kernel, y, hy, ?_, e, hlist, ?_, hcounts hbound⟩
  · exact hregroup evenReplay (heven.1 (hread evenReplay (by decide +kernel))) rfl hpaths
  · exact hid.trans (by decide +kernel)

end FigureData
