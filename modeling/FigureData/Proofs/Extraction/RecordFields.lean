/-
  Which array a source that names a key and a field reads.

  The key becomes a pointer by a slash put in front of it, and a pointer is cut at slashes and has
  escapes.  So a key that holds a slash or an escape is taken for something else, and the member of
  that name is not found; every other key names the member that has it as its name.

  Proved:
  * `unescapeStep_eq_self_iff`: a step stands for itself exactly when it holds no escape.
  * `pointerSteps?_key_eq_iff`: a key is a pointer to the member of its own name exactly when it
    holds neither a slash nor an escape.
  * `readSample_recordField_eq_ok_iff`: whatever the key, the sample is that of the records at its
    pointer.
  * `named_key_read_iff`: the sample is that of the member named by the key, in every document,
    exactly when the key holds neither.
-/
import FigureData.Proofs.Extraction.Packets
import FigureData.Proofs.Text.Split

namespace FigureData

open Extraction Outcome

/-! ## Keys as pointers -/

namespace Json

/-- A key holds neither a slash nor one of the escapes `~0` and `~1`. -/
structure IsPlainKey (key : String) : Prop where
  slash : '/' ∉ key.toList
  tilde : ¬ ['~', '0'] <:+: key.toList
  stroke : ¬ ['~', '1'] <:+: key.toList

instance (key : String) : Decidable (IsPlainKey key) :=
  decidable_of_iff ('/' ∉ key.toList ∧ ¬ ['~', '0'] <:+: key.toList ∧ ¬ ['~', '1'] <:+: key.toList)
    ⟨fun ⟨hslash, htilde, hstroke⟩ => ⟨hslash, htilde, hstroke⟩,
      fun ⟨hslash, htilde, hstroke⟩ => ⟨hslash, htilde, hstroke⟩⟩

theorem length_unescapeStep_le (cs : List Char) : (unescapeStep cs).length ≤ cs.length := by
  fun_induction unescapeStep cs with
  | case1 rest ih => grind
  | case2 rest ih => grind
  | case3 c rest _ _ ih => grind
  | case4 => grind

/-- An escape is shorter once it is undone. -/
theorem length_unescapeStep_lt {cs : List Char} (h : ['~', '0'] <:+: cs ∨ ['~', '1'] <:+: cs) :
    (unescapeStep cs).length < cs.length := by
  fun_induction unescapeStep cs with
  | case1 rest ih =>
    have hle := length_unescapeStep_le rest
    grind
  | case2 rest ih =>
    have hle := length_unescapeStep_le rest
    grind
  | case3 c rest hstroke htilde ih =>
    have hrest : ['~', '0'] <:+: rest ∨ ['~', '1'] <:+: rest := by
      rw [List.infix_cons_iff, List.infix_cons_iff] at h
      rcases h with (⟨more, hmore⟩ | h) | (⟨more, hmore⟩ | h)
      · cases hmore
        exact absurd rfl (htilde more rfl)
      · exact .inl h
      · cases hmore
        exact absurd rfl (hstroke more rfl)
      · exact .inr h
    have hlt := ih hrest
    grind
  | case4 => simp at h

/-- A step stands for itself exactly when it holds no escape. -/
theorem unescapeStep_eq_self_iff {cs : List Char} :
    unescapeStep cs = cs ↔ ¬ ['~', '0'] <:+: cs ∧ ¬ ['~', '1'] <:+: cs := by
  rw [← not_or]
  constructor
  · intro heq hescape
    have hlt := length_unescapeStep_lt hescape
    rw [heq] at hlt
    exact lt_irrefl _ hlt
  · intro hplain
    fun_induction unescapeStep cs with
    | case1 rest ih => exact absurd (.inr ⟨[], rest, rfl⟩) hplain
    | case2 rest ih => exact absurd (.inl ⟨[], rest, rfl⟩) hplain
    | case3 c rest _ _ ih =>
      rw [ih fun h => hplain (h.imp List.infix_cons List.infix_cons)]
    | case4 => rfl

/-- The steps of a key's pointer.  Where the key is not plain, the first of them is another text. -/
theorem pointerSteps?_key (key : String) :
    ∃ step rest, pointerSteps? ("/" ++ key) = some (step :: rest) ∧
      (IsPlainKey key → step = key ∧ rest = []) ∧ (¬ IsPlainKey key → step ≠ key) := by
  have hsteps : pointerSteps? ("/" ++ key) =
      some ((Text.splitAt '/' key.toList).map fun step => String.ofList (unescapeStep step)) := by
    unfold pointerSteps?
    rw [String.toList_append]
    rfl
  rw [hsteps]
  by_cases hslash : '/' ∈ key.toList
  · obtain ⟨before, after, hkey, hbefore⟩ := List.eq_append_cons_of_mem hslash
    have hshorter : (unescapeStep before).length < key.toList.length := by
      have hle := length_unescapeStep_le before
      rw [hkey, List.length_append, List.length_cons]
      omega
    rw [hkey, Text.splitAt_append_sep, Text.splitAt_of_not_mem hbefore]
    refine ⟨_, _, rfl, fun hplain => absurd hslash hplain.slash, fun _ hstep => ?_⟩
    rw [← hstep, String.toList_ofList] at hshorter
    exact lt_irrefl _ hshorter
  · rw [Text.splitAt_of_not_mem hslash]
    refine ⟨_, _, rfl, fun hplain => ⟨?_, rfl⟩, fun hother hstep => hother ?_⟩
    · show String.ofList (unescapeStep key.toList) = key
      rw [unescapeStep_eq_self_iff.2 ⟨hplain.tilde, hplain.stroke⟩, String.ofList_toList]
    · rw [← String.toList_inj, String.toList_ofList] at hstep
      obtain ⟨htilde, hstroke⟩ := unescapeStep_eq_self_iff.1 hstep
      exact ⟨hslash, htilde, hstroke⟩

/-- A plain key names the member that has it as its name. -/
theorem at?_of_isPlainKey {key : String} (h : IsPlainKey key) (members : List (String × Json)) :
    (object members).at? ("/" ++ key) = (object members).member? key := by
  obtain ⟨step, rest, hsteps, hplain, -⟩ := pointerSteps?_key key
  obtain ⟨rfl, rfl⟩ := hplain h
  unfold at?
  rw [hsteps, Option.bind_some]
  exact Option.bind_fun_some _

/-- Any other key misses the member that has it as its name. -/
theorem at?_of_not_isPlainKey {key : String} (h : ¬ IsPlainKey key) (part : Json) :
    (object [(key, part)]).at? ("/" ++ key) = none := by
  obtain ⟨step, rest, hsteps, -, hother⟩ := pointerSteps?_key key
  have hlookup : [(key, part)].lookup step = none := by
    rw [lookup_eq_none_iff, List.map_singleton, List.mem_singleton]
    exact hother h
  unfold at?
  rw [hsteps, Option.bind_some, descend?]
  show ([(key, part)].lookup step).bind _ = none
  rw [hlookup]
  rfl

/-! ## Records -/

/-- An element is an object with a number, or with null for a missing measurement, in a field. -/
inductive HoldsMeasurement (field : String) : Json → Option Float → Prop
  | number {members : List (String × Json)} {part : Json} {x : Float}
      (hpart : members.lookup field = some part) (hx : part.number? = some x) :
      HoldsMeasurement field (.object members) (some x)
  | missing {members : List (String × Json)} (hpart : members.lookup field = some .null) :
      HoldsMeasurement field (.object members) none

/-- A part of a document is an array of such elements, with these measurements in order. -/
inductive HoldsMeasurements (field : String) : Json → List (Option Float) → Prop
  | array {elements : List Json} {measurements : List (Option Float)}
      (h : List.Forall₂ (HoldsMeasurement field) elements measurements) :
      HoldsMeasurements field (.array elements) measurements

end Json

namespace Extraction

variable {file : String}

theorem measurement_eq_ok_iff {part : Json} {what : String} {m : Option Float} :
    measurement part what file = .ok m ↔
      part = .null ∧ m = none ∨ ∃ x, part.number? = some x ∧ m = some x := by
  cases part <;> simp [measurement, Json.isNull, Json.number?, eq_comm]

/-- An element is read exactly when it holds a measurement, as that measurement. -/
theorem elementOf_recordField_eq_ok_iff {key field : String} {element : Json} {m : Option Float} :
    elementOf (.recordField key field) file element = .ok m ↔
      element.HoldsMeasurement field m := by
  unfold elementOf
  simp only
  constructor
  · intro h
    split at h
    next part hpart =>
      obtain ⟨members, rfl, hlookup⟩ := Json.member?_eq_some_iff.1 hpart
      rcases measurement_eq_ok_iff.1 h with ⟨rfl, rfl⟩ | ⟨x, hx, rfl⟩
      · exact .missing hlookup
      · exact .number hlookup hx
    next => cases h
  · intro h
    cases h with
    | number hpart hx =>
      rw [show (Json.object _).member? field = _ from hpart]
      exact measurement_eq_ok_iff.2 (.inr ⟨_, hx, rfl⟩)
    | missing hpart =>
      rw [show (Json.object _).member? field = _ from hpart]
      exact measurement_eq_ok_iff.2 (.inl ⟨rfl, rfl⟩)

/-- Whatever the key, the sample is that of the records at its pointer. -/
theorem readSample_recordField_eq_ok_iff {j : Json} {key field : String} {s : Sample} :
    readSample j (.recordField key field) file = .ok s ↔
      ∃ part measurements, j.at? ("/" ++ key) = some part ∧
        part.HoldsMeasurements field measurements ∧ s = .ofMeasurements measurements := by
  unfold readSample
  constructor
  · intro h
    obtain ⟨elements, helements, h⟩ := bind_eq_ok h
    obtain ⟨measurements, hmeasurements, h⟩ := bind_eq_ok h
    cases h
    obtain ⟨part, hpart, hitems⟩ := Option.bind_eq_some_iff.1 (requireArray_eq_ok_iff.1 helements)
    obtain rfl := Json.items?_eq_some_iff.1 hitems
    refine ⟨_, measurements, hpart, .array ?_, rfl⟩
    exact (mapM_eq_ok hmeasurements).imp fun _ _ => elementOf_recordField_eq_ok_iff.1
  · rintro ⟨_, measurements, hpart, ⟨hmeasurements⟩, rfl⟩
    rename_i elements
    have helements : requireArray j ("/" ++ key) file = .ok elements := by
      rw [requireArray_eq_ok_iff, hpart]
      rfl
    have hread : elements.mapM (elementOf (.recordField key field) file) = .ok measurements :=
      mapM_of_forall₂ (hmeasurements.imp fun _ _ => elementOf_recordField_eq_ok_iff.2)
    show (requireArray j ("/" ++ key) file >>= _) = _
    rw [helements]
    show (elements.mapM (elementOf (.recordField key field) file) >>= _) = _
    rw [hread]
    rfl

/-- With a key that is not plain, even a document that has nothing but the member is refused. -/
theorem readSample_of_not_isPlainKey {key : String} (h : ¬ Json.IsPlainKey key) (field : String)
    (part : Json) :
    readSample (.object [(key, part)]) (.recordField key field) file =
      .error (.missingKey ("/" ++ key) file) := by
  have habsent := Json.at?_of_not_isPlainKey h part
  unfold readSample requireArray require SampleSource.pointer
  simp only [habsent]
  rfl

end Extraction

/-- A key is read as the name of a member: the sample is that of the records in the member, in
order, and there is none when the member is absent or holds anything else. -/
def SampleSource.ReadsMember (key : String) : Prop :=
  ∀ (field file : String) (members : List (String × Json)) (s : Sample),
    readSample (.object members) (.recordField key field) file = .ok s ↔
      ∃ part measurements, (Json.object members).member? key = some part ∧
        part.HoldsMeasurements field measurements ∧ s = .ofMeasurements measurements

/-- A key is read as the name of a member exactly when it holds neither a slash nor an escape.
With any other key even a document that has nothing but the member is refused. -/
theorem named_key_read_iff (key : String) :
    (SampleSource.ReadsMember key ↔ Json.IsPlainKey key) ∧
      (¬ Json.IsPlainKey key → ∀ (field file : String) (part : Json),
        readSample (.object [(key, part)]) (.recordField key field) file =
          .error (.missingKey ("/" ++ key) file)) := by
  refine ⟨⟨fun hreads => ?_, fun hplain field file members s => ?_⟩,
    fun hother field file part => readSample_of_not_isPlainKey hother field part⟩
  · by_contra hother
    -- An empty array of records is a sample without values.
    have hread := (hreads "" "" [(key, .array [])] (.ofMeasurements [])).2
      ⟨_, [], List.lookup_cons_self, .array .nil, rfl⟩
    rw [readSample_of_not_isPlainKey hother] at hread
    cases hread
  · rw [readSample_recordField_eq_ok_iff, Json.at?_of_isPlainKey hplain]

/-- Two runs, the second of them without a cost. -/
def costRuns : Json := .array [.object [("cost", .int 3)], .object [("cost", .null)]]

theorem costRuns_holdMeasurements :
    costRuns.HoldsMeasurements "cost" [some (Binary64.ofInt 3), none] :=
  .array (.cons (.number List.lookup_cons_self rfl) (.cons (.missing List.lookup_cons_self) .nil))

theorem costRuns_read :
    Json.IsPlainKey "strategy_result" ∧ ¬ Json.IsPlainKey "a~1b" ∧
      readSample (.object [("ideal_cost", .int 2), ("strategy_result", costRuns)])
          (.recordField "strategy_result" "cost") "a.json" =
        .ok (.ofMeasurements [some (Binary64.ofInt 3), none]) ∧
      readSample (.object [("a~1b", costRuns)]) (.recordField "a~1b" "cost") "a.json" =
        .error (.missingKey "/a~1b" "a.json") := by
  have hplain : Json.IsPlainKey "strategy_result" := by decide +kernel
  have hother : ¬ Json.IsPlainKey "a~1b" := by decide +kernel
  refine ⟨hplain, hother, ?_, (named_key_read_iff "a~1b").2 hother "cost" "a.json" costRuns⟩
  exact ((named_key_read_iff "strategy_result").1.2 hplain _ _ _ _).2
    ⟨costRuns, _, rfl, costRuns_holdMeasurements, rfl⟩

/-- The member is there and holds measurements, but its name has a slash. -/
theorem slashed_key_unread :
    (∃ part, (Json.object [("a/b", costRuns)]).member? "a/b" = some part ∧
      part.HoldsMeasurements "cost" [some (Binary64.ofInt 3), none]) ∧
      readSample (.object [("a/b", costRuns)]) (.recordField "a/b" "cost") "x.json" =
        .error (.missingKey "/a/b" "x.json") ∧
      ¬ SampleSource.ReadsMember "a/b" := by
  have hmember : ∃ part, (Json.object [("a/b", costRuns)]).member? "a/b" = some part ∧
      part.HoldsMeasurements "cost" [some (Binary64.ofInt 3), none] :=
    ⟨costRuns, rfl, costRuns_holdMeasurements⟩
  have hother : ¬ Json.IsPlainKey "a/b" := by decide +kernel
  have hmissed : readSample (.object [("a/b", costRuns)]) (.recordField "a/b" "cost") "x.json" =
      .error (.missingKey "/a/b" "x.json") := readSample_of_not_isPlainKey hother "cost" costRuns
  refine ⟨hmember, hmissed, fun hreads => ?_⟩
  obtain ⟨part, hpart, hholds⟩ := hmember
  have hread := (hreads "cost" "x.json" _ _).2 ⟨part, _, hpart, hholds, rfl⟩
  rw [hmissed] at hread
  cases hread

end FigureData
