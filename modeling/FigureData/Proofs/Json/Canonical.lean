/-
  Canonical text tells documents apart, and nothing else.

  Two texts have the same canonical text exactly when they hold the same data: the same leaves,
  doubles compared bit by bit, at the same places, where the order of members does not count and of
  a repeated name only the last value does.  Assumed of a text is only that what is written for the
  doubles in its data reads back as the same doubles; that its integers fit and that it is not too
  deep follows from its having been read.

  Proved:
  * `IsSpelled.fits`: a document that was read can be written, and its text read.
  * `alike_iff`: documents hold the same data when they are the same once they are sorted.
  * `canonical_text`: canonical text is the same exactly for the same data, lists names in
    ascending order and reads back as the data it was made of.
-/
import FigureData.Proofs.Binary64.Bits
import FigureData.Proofs.Json.RoundTrip
import FigureData.Proofs.Json.Spelled

namespace FigureData.Json

/-! ## Documents that were read -/

/-- What is spelled by a word can stand in no array and no object, and an integer fits 64 bits. -/
inductive IsWord : Json → Prop
  | null : IsWord .null
  | bool (b : Bool) : IsWord (.bool b)
  | int {n : Int} (hlow : -2 ^ 63 ≤ n) (hhigh : n < 2 ^ 64) : IsWord (.int n)
  | float (x : Float) : IsWord (.float x)

theorem isWord_double? {negative : Bool} {whole fraction : List Char} {power : Int} {j : Json}
    (h : double? negative whole fraction power = some j) : IsWord j := by
  obtain ⟨x, -, h⟩ := Option.bind_eq_some_iff.1 h
  cases h
  exact .float _

theorem isWord_integer? {negative : Bool} {digits : List Char} {j : Json}
    (h : integer? negative digits = some j) : IsWord j := by
  unfold integer? at h
  simp only [Nat.pow_eq] at h
  split at h
  · split at h
    · exact isWord_double? h
    next hn =>
      cases h
      exact .int (by omega) (by omega)
  · split at h
    next hn =>
      cases h
      exact .int (by omega) (by omega)
    next => exact isWord_double? h

theorem isWord_readNumber? {cs : List Char} {j : Json} (h : readNumber? cs = some (some j)) :
    IsWord j := by
  unfold readNumber? at h
  split at h
  obtain ⟨⟨whole, rest⟩, -, h⟩ := Option.bind_eq_some_iff.1 h
  simp only at h
  split at h
  · exact isWord_integer? (Option.some.inj h)
  · obtain ⟨⟨fraction, rest⟩, -, h⟩ := Option.bind_eq_some_iff.1 h
    obtain ⟨power, -, h⟩ := Option.bind_eq_some_iff.1 h
    exact isWord_double? (Option.some.inj h)

theorem isWord_word? {cs : List Char} {j : Json} (h : word? cs = some (some j)) : IsWord j := by
  unfold word? at h
  split at h
  · cases h
    exact .null
  split at h
  · cases h
    exact .bool true
  split at h
  · cases h
    exact .bool false
  · exact isWord_readNumber? h

/-- A document that was read fits. -/
theorem IsSpelled.fits {room : Nat} {j : Json} (h : IsSpelled room j) : Fits room j := by
  induction h with
  | string room s => exact .string room s
  | word room hword =>
    cases isWord_word? hword with
    | null => exact .null room
    | bool b => exact .bool room b
    | int hlow hhigh => exact .int room hlow hhigh
    | float x => exact .float room x
  | array _ ih => exact .array ih
  | object _ ih => exact .object ih

/-! ## The same data -/

/-- Documents that hold the same data, whatever the order of their members. -/
inductive Alike : Json → Json → Prop
  | null : Alike .null .null
  | bool (b : Bool) : Alike (.bool b) (.bool b)
  | int (n : Int) : Alike (.int n) (.int n)
  | float {x y : Float} (bits : x.toBits = y.toBits) : Alike (.float x) (.float y)
  | string (s : String) : Alike (.string s) (.string s)
  | array {xs ys : List Json} (length : xs.length = ys.length)
      (items : ∀ (i : Nat) (x y : Json), xs[i]? = some x → ys[i]? = some y → Alike x y) :
      Alike (.array xs) (.array ys)
  | object {xs ys : List (String × Json)}
      (names : ∀ name, (lastMember? xs name).isSome = (lastMember? ys name).isSome)
      (members : ∀ (name : String) (x y : Json), lastMember? xs name = some x →
        lastMember? ys name = some y → Alike x y) :
      Alike (.object xs) (.object ys)

theorem sorted_eq_of_alike {x y : Json} (h : Alike x y) : x.sorted = y.sorted := by
  induction h with
  | null | bool | int | string => rfl
  | float bits => rw [Float.toBits_inj.1 bits]
  | @array xs ys length _ ih =>
    rw [sorted_array, sorted_array]
    refine congrArg Json.array (List.ext_getElem (by simpa using length) ?_)
    intro i hi hi'
    rw [List.getElem_map, List.getElem_map]
    exact ih i _ _ (List.getElem?_eq_getElem _) (List.getElem?_eq_getElem _)
  | @object xs ys names _ ih =>
    have hmap : memberMap xs = memberMap ys := by
      refine SortedMap.ext_find? fun name => ?_
      have hnames := names name
      have hmembers := ih name
      rw [find?_memberMap, find?_memberMap]
      cases hx : lastMember? xs name with
      | none =>
        rw [hx] at hnames
        rw [Option.isNone_iff_eq_none.1 (Option.isSome_eq_false_iff.1 hnames.symm)]
      | some x =>
        rw [hx] at hnames
        obtain ⟨y, hy⟩ := Option.isSome_iff_exists.1 hnames.symm
        rw [hy, Option.map_some, Option.map_some, hmembers x y hx hy]
    rw [sorted_object, sorted_object, hmap]

theorem alike_of_sorted_eq {x y : Json} (h : x.sorted = y.sorted) : Alike x y := by
  induction x using inductionOn generalizing y with
  | null =>
    cases y with
    | null => exact .null
    | _ => simp only [sorted, reduceCtorEq] at h
  | bool b =>
    cases y with
    | bool b' =>
      cases h
      exact .bool b
    | _ => simp only [sorted, reduceCtorEq] at h
  | int n =>
    cases y with
    | int n' =>
      cases h
      exact .int n
    | _ => simp only [sorted, reduceCtorEq] at h
  | float x =>
    cases y with
    | float x' =>
      cases h
      exact .float rfl
    | _ => simp only [sorted, reduceCtorEq] at h
  | string s =>
    cases y with
    | string s' =>
      cases h
      exact .string s
    | _ => simp only [sorted, reduceCtorEq] at h
  | array xs ih =>
    cases y with
    | array ys =>
      rw [sorted_array, sorted_array, array.injEq] at h
      refine .array (by simpa using congrArg List.length h) ?_
      intro i x y hx hy
      have hi := congrArg (fun items => items[i]?) h
      simp only [List.getElem?_map, hx, hy, Option.map_some, Option.some.injEq] at hi
      exact ih x (List.mem_of_getElem? hx) hi
    | _ => simp only [sorted, reduceCtorEq] at h
  | object xs ih =>
    cases y with
    | object ys =>
      rw [sorted_object, sorted_object, object.injEq] at h
      have hlast : ∀ name,
          (lastMember? xs name).map sorted = (lastMember? ys name).map sorted := by
        intro name
        have hmap := congrArg (fun m => m.find? name) (SortedMap.ext_entries h)
        simpa only [find?_memberMap] using hmap
      constructor
      · intro name
        simpa only [Option.isSome_map] using congrArg Option.isSome (hlast name)
      · intro name x y hx hy
        have hname := hlast name
        rw [hx, hy] at hname
        exact ih _ (mem_of_lastMember? hx) (Option.some.inj hname)
    | _ => simp only [sorted, reduceCtorEq] at h

/-- Documents hold the same data when they are the same once they are sorted. -/
theorem alike_iff {x y : Json} : Alike x y ↔ x.sorted = y.sorted :=
  ⟨sorted_eq_of_alike, alike_of_sorted_eq⟩

/-! ## Canonical text -/

theorem sorted_sorted (j : Json) : j.sorted.sorted = j.sorted :=
  sorted_of_ascending (ascending_sorted j)

/-- Canonical text of a text's data reads back as the data, members in ascending order. -/
theorem read?_canonical {text : String} {x : Json} (hread : read? text = some x)
    (hfloats : ∀ v ∈ x.sorted.floats, ReadsBack v) : read? x.canonical = some x.sorted := by
  exact readSelected?_canonical (isSpelled_readSelected? hread).fits hfloats (.all x.sorted)

/-- Canonical text is the same exactly for the same data, lists names in ascending order and
reads back as the data it was made of. -/
theorem canonical_text {a b : String} {x y : Json} (ha : read? a = some x)
    (hb : read? b = some y) (hx : ∀ v ∈ x.sorted.floats, ReadsBack v)
    (hy : ∀ v ∈ y.sorted.floats, ReadsBack v) :
    (Bytes.ofText x.canonical = Bytes.ofText y.canonical ↔ Alike x y) ∧
      ∃ z, read? x.canonical = some z ∧ Ascending z ∧ Alike z x ∧
        Bytes.ofText z.canonical = Bytes.ofText x.canonical := by
  have hback := read?_canonical ha hx
  constructor
  · rw [alike_iff]
    constructor
    · intro hbytes
      have htext : x.canonical = y.canonical := by
        have hread := congrArg Bytes.text? hbytes
        rw [Bytes.text?_ofText, Bytes.text?_ofText] at hread
        exact Option.some.inj hread
      rw [htext, read?_canonical hb hy] at hback
      exact (Option.some.inj hback).symm
    · intro hsorted
      unfold canonical
      rw [hsorted]
  · refine ⟨x.sorted, hback, ascending_sorted x, alike_iff.2 (sorted_sorted x), ?_⟩
    unfold canonical
    rw [sorted_sorted]

/-- Two texts that hold the same data: members stand in another order, a name is repeated, and a
double and a character are spelled in other ways. -/
def twoSpellings : String × String :=
  ("\x7b\"b\":[\x7b\"y\":0.5,\"x\":-7\x7d],\"a\":2,\"a\":\"\\u0001A\"\x7d",
    "\x7b\"a\":\"\\u0001\\u0041\",\"b\":[\x7b\"x\":-7,\"y\":5e-1\x7d]\x7d")

theorem twoSpellings_alike : ∃ x y, read? twoSpellings.1 = some x ∧
    read? twoSpellings.2 = some y ∧ Alike x y ∧ ∃ z, read? x.canonical = some z ∧ Ascending z := by
  have htest : ((read? twoSpellings.1).any fun x => (read? twoSpellings.2).any fun y =>
      decide ((∀ v ∈ x.sorted.floats, ReadsBack v) ∧ (∀ v ∈ y.sorted.floats, ReadsBack v) ∧
        Bytes.ofText x.canonical = Bytes.ofText y.canonical)) = true := by
    decide +kernel
  obtain ⟨x, hx, htest⟩ := (Option.any_eq_true _ _).1 htest
  obtain ⟨y, hy, htest⟩ := (Option.any_eq_true _ _).1 htest
  obtain ⟨hfloats, hfloats', hbytes⟩ := of_decide_eq_true htest
  obtain ⟨hsame, z, hback, hascending, -⟩ := canonical_text hx hy hfloats hfloats'
  exact ⟨x, y, hx, hy, hsame.1 hbytes, z, hback, hascending⟩

end FigureData.Json
