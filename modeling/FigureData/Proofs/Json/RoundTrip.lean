/-
  Canonical text reads back as the document that was written, but for its doubles.

  A document fits when its integers fit 64 bits and not too many arrays and objects are inside
  each other.  Its text is scanned into the tokens of the document, these are read into its
  outline, and the document is selected from that.  A double comes back as what its text spells,
  which need not be the same double.

  Proved:
  * `readsBack_iff`: a double reads back when its text spells it.
  * `scan_writeIndented`: the text of a document that fits is scanned into its tokens.
  * `readTokens_value`: the tokens of a document are read into its outline.
  * `respell?_eq_mapFloats`, `isSome_spelled?`: what becomes of a document whose doubles are read
    as they are spelled.
  * `select?_of_covers`: that is selected from its outline by any selection that wants every part.
  * `readSelected?_respell`, `readSelected?_canonical`: so canonical text reads back, members in
    ascending order, and is the same document where its doubles read back.
-/
import FigureData.Json.Reader
import FigureData.Proofs.Json.Doubles
import FigureData.Proofs.Json.Numerals
import FigureData.Proofs.Json.Strings
import FigureData.Proofs.Outcome

namespace FigureData.Json

open Outcome

/-! ## Documents that fit -/

/-- What is written for a double reads back as the same double. -/
def ReadsBack (x : Float) : Prop := read? (compact (.float x)) = some (.float x)

/-- A double is written and read again to see whether it reads back. -/
instance : DecidablePred ReadsBack := fun x =>
  decidable_of_iff ((read? (compact (.float x))).any fun j =>
      match j with
      | .float y => decide (y = x)
      | _ => false) (by
    unfold ReadsBack
    cases read? (compact (.float x)) with
    | none => simp
    | some j => cases j <;> simp)

/-- The text of a double alone is read as what the double is spelled as. -/
theorem read?_compact_float (x : Float) : read? (compact (.float x)) = spelled? x := by
  have hword := word?_writeFloat x
  have hne : writeFloat x ≠ [] := by
    intro hempty
    rw [hempty] at hword
    cases hword
  have htext : (compact (.float x)).toList = writeFloat x := by
    rw [compact, writeCompact, String.toList_ofList]
  have htokens : tokens? (compact (.float x)).toList = some [.word (spelled? x)] := by
    rw [htext, tokens?_of_isWordChar hne (isWordChar_writeFloat x), hword, Option.map_some]
  show ((tokens? (compact (.float x)).toList).bind fun tokens =>
    (readTokens .start tokens).bind fun final => final.outline).bind _ = _
  rw [htokens]
  rfl

/-- A double reads back when its text spells it. -/
theorem readsBack_iff {x : Float} : ReadsBack x ↔ spelled? x = some (.float x) := by
  rw [ReadsBack, read?_compact_float]

/-- Every integer fits 64 bits, and at most `room` arrays and objects are inside each other. -/
inductive Fits : Nat → Json → Prop
  | null (room : Nat) : Fits room .null
  | bool (room : Nat) (b : Bool) : Fits room (.bool b)
  | int (room : Nat) {n : Int} (hlow : -2 ^ 63 ≤ n) (hhigh : n < 2 ^ 64) : Fits room (.int n)
  | float (room : Nat) (x : Float) : Fits room (.float x)
  | string (room : Nat) (s : String) : Fits room (.string s)
  | array {room : Nat} {items : List Json} (h : ∀ j ∈ items, Fits room j) :
      Fits (room + 1) (.array items)
  | object {room : Nat} {members : List (String × Json)} (h : ∀ m ∈ members, Fits room m.2) :
      Fits (room + 1) (.object members)

/-! ## Tokens of a document -/

mutual

/-- The tokens that a document is written in. -/
def tokensOf : Json → List Token
  | .float x => [.word (spelled? x)]
  | .string s => [.string (some s)]
  | .array [] => [.openArray, .closeArray]
  | .array (j :: rest) => .openArray :: (tokensOf j ++ (tokensOfItems rest ++ [.closeArray]))
  | .object [] => [.openObject, .closeObject]
  | .object ((name, j) :: rest) =>
    .openObject :: .string (some name) :: .colon ::
      (tokensOf j ++ (tokensOfMembers rest ++ [.closeObject]))
  | j => [.word (some j)]

/-- The tokens of the elements after the first. -/
def tokensOfItems : List Json → List Token
  | [] => []
  | j :: rest => .comma :: (tokensOf j ++ tokensOfItems rest)

/-- The tokens of the members after the first. -/
def tokensOfMembers : List (String × Json) → List Token
  | [] => []
  | (name, j) :: rest =>
    .comma :: .string (some name) :: .colon :: (tokensOf j ++ tokensOfMembers rest)

end

/-! ## Scanning -/

theorem scan_newLine (level : Nat) (done : List Token) (rest : List Char) :
    scan .between done (newLine level ++ rest) = scan .between done rest := by
  have hblanks : ∀ n, scan .between done (List.replicate n ' ' ++ rest) =
      scan .between done rest := by
    intro n
    induction n with
    | zero => rfl
    | succ n ih =>
      rw [List.replicate_succ, List.cons_append]
      exact ih
  exact hblanks (2 * level)

theorem endsWord_cons {c : Char} (h : isWordChar c = false) (rest : List Char) :
    EndsWord (c :: rest) := by
  intro d hd
  cases hd
  exact h

theorem endsWord_indentItems (level : Nat) (items : List Json) {rest : List Char}
    (h : EndsWord rest) : EndsWord (indentItems level items ++ rest) := by
  cases items with
  | nil =>
    rw [indentItems]
    exact h
  | cons j more =>
    rw [indentItems]
    exact endsWord_cons (by decide) _

theorem endsWord_indentMembers (level : Nat) (members : List (String × Json)) {rest : List Char}
    (h : EndsWord rest) : EndsWord (indentMembers level members ++ rest) := by
  cases members with
  | nil =>
    rw [indentMembers]
    exact h
  | cons m more =>
    obtain ⟨name, j⟩ := m
    rw [indentMembers]
    exact endsWord_cons (by decide) _

theorem endsWord_newLine (level : Nat) (rest : List Char) : EndsWord (newLine level ++ rest) :=
  endsWord_cons (by decide) _

mutual

/-- The text of a document that fits is scanned into its tokens. -/
theorem scan_writeIndented {room : Nat} {j : Json} (h : Fits room j) (level : Nat)
    (done : List Token) {rest : List Char} (hrest : EndsWord rest) :
    scan .between done (writeIndented level j ++ rest) =
      scan .between ((tokensOf j).reverse ++ done) rest := by
  match j, h with
  | .null, .null _ =>
    rw [writeIndented, tokensOf]
    · exact scan_word rfl (List.all_eq_true.1 rfl) done hrest
    all_goals exact nofun
  | .bool b, .bool _ _ =>
    rw [writeIndented, tokensOf]
    · cases b with
      | false => exact scan_word rfl (List.all_eq_true.1 rfl) done hrest
      | true => exact scan_word rfl (List.all_eq_true.1 rfl) done hrest
    all_goals exact nofun
  | .int n, .int _ hlow hhigh =>
    rw [writeIndented, tokensOf]
    · exact scan_word (word?_writeInt hlow hhigh) (isWordChar_writeInt n) done hrest
    all_goals exact nofun
  | .float x, .float _ _ =>
    rw [writeIndented, tokensOf]
    exact scan_word (word?_writeFloat x) (isWordChar_writeFloat x) done hrest
  | .string s, .string _ _ =>
    rw [writeIndented, tokensOf]
    exact scan_writeString s done rest
  | .array [], _ =>
    rw [writeIndented, tokensOf]
    rfl
  | .array (j :: more), .array hitems =>
    rw [List.forall_mem_cons] at hitems
    rw [writeIndented, tokensOf]
    show scan .between (.openArray :: done) (newLine (level + 1) ++ writeIndented (level + 1) j ++
      (indentItems (level + 1) more ++ newLine level ++ [']']) ++ rest) = _
    simp only [List.append_assoc]
    rw [scan_newLine, scan_writeIndented hitems.1 _ _
        (endsWord_indentItems _ _ (endsWord_newLine _ _)),
      scan_indentItems hitems.2 _ _ (endsWord_newLine _ _), scan_newLine]
    have hclose : ∀ done, scan .between done ([']'] ++ rest) =
        scan .between (.closeArray :: done) rest := fun _ => rfl
    rw [hclose]
    simp only [List.reverse_cons, List.reverse_append, List.append_assoc,
      List.reverse_nil, List.nil_append, List.cons_append]
  | .object [], _ =>
    rw [writeIndented, tokensOf]
    rfl
  | .object ((name, j) :: more), .object hmembers =>
    rw [List.forall_mem_cons] at hmembers
    rw [writeIndented, tokensOf]
    show scan .between (.openObject :: done) (newLine (level + 1) ++ writeString name ++
      ':' :: ' ' :: (writeIndented (level + 1) j ++
        (indentMembers (level + 1) more ++ newLine level ++ ['\x7d'])) ++ rest) = _
    simp only [List.append_assoc, List.cons_append]
    rw [scan_newLine, scan_writeString]
    show scan .between (.colon :: .string (some name) :: .openObject :: done) (writeIndented _ j ++
      (indentMembers (level + 1) more ++ (newLine level ++ '\x7d' :: ([] ++ rest)))) = _
    rw [scan_writeIndented hmembers.1 _ _ (endsWord_indentMembers _ _ (endsWord_newLine _ _)),
      scan_indentMembers hmembers.2 _ _ (endsWord_newLine _ _), scan_newLine]
    have hclose : ∀ done, scan .between done ('\x7d' :: ([] ++ rest)) =
        scan .between (.closeObject :: done) rest := fun _ => rfl
    rw [hclose]
    simp only [List.reverse_cons, List.reverse_append, List.append_assoc,
      List.reverse_nil, List.nil_append, List.cons_append]

theorem scan_indentItems {room : Nat} {items : List Json} (h : ∀ j ∈ items, Fits room j)
    (level : Nat) (done : List Token) {rest : List Char} (hrest : EndsWord rest) :
    scan .between done (indentItems level items ++ rest) =
      scan .between ((tokensOfItems items).reverse ++ done) rest := by
  match items with
  | [] =>
    rw [indentItems, tokensOfItems]
    rfl
  | j :: more =>
    rw [List.forall_mem_cons] at h
    rw [indentItems, tokensOfItems]
    show scan .between (.comma :: done)
      (newLine level ++ writeIndented level j ++ indentItems level more ++ rest) = _
    rw [List.append_assoc, List.append_assoc, scan_newLine,
      scan_writeIndented h.1 _ _ (endsWord_indentItems _ _ hrest), scan_indentItems h.2 _ _ hrest]
    simp only [List.reverse_cons, List.reverse_append, List.append_assoc, List.singleton_append]

theorem scan_indentMembers {room : Nat} {members : List (String × Json)}
    (h : ∀ m ∈ members, Fits room m.2) (level : Nat) (done : List Token) {rest : List Char}
    (hrest : EndsWord rest) :
    scan .between done (indentMembers level members ++ rest) =
      scan .between ((tokensOfMembers members).reverse ++ done) rest := by
  match members with
  | [] =>
    rw [indentMembers, tokensOfMembers]
    rfl
  | (name, j) :: more =>
    rw [List.forall_mem_cons] at h
    rw [indentMembers, tokensOfMembers]
    show scan .between (.comma :: done) (newLine level ++ writeString name ++
      ':' :: ' ' :: (writeIndented level j ++ indentMembers level more) ++ rest) = _
    simp only [List.append_assoc, List.cons_append]
    rw [scan_newLine, scan_writeString]
    show scan .between (.colon :: .string (some name) :: .comma :: done) (writeIndented _ j ++
      (indentMembers level more ++ rest)) = _
    rw [scan_writeIndented h.1 _ _ (endsWord_indentMembers _ _ hrest),
      scan_indentMembers h.2 _ _ hrest]
    simp only [List.reverse_cons, List.reverse_append, List.append_assoc, List.cons_append,
      List.nil_append]

end

/-! ## Reading -/

mutual

/-- The outline of a document. -/
def outlineOf : Json → Outline
  | .float x => .leaf (spelled? x)
  | .array items => .array (outlineItems items)
  | .object members => .object (outlineMembers members)
  | j => .leaf (some j)

def outlineItems : List Json → List Outline
  | [] => []
  | j :: rest => outlineOf j :: outlineItems rest

def outlineMembers : List (String × Json) → List (Option String × Outline)
  | [] => []
  | (name, j) :: rest => (some name, outlineOf j) :: outlineMembers rest

end

/-- No document begins with the end of an array. -/
theorem readTokens_valueOrClose (j : Json) (stack : List Frame) (rest : List Token) :
    readTokens ⟨stack, .valueOrClose, none⟩ (tokensOf j ++ rest) =
      readTokens ⟨stack, .value, none⟩ (tokensOf j ++ rest) := by
  unfold tokensOf
  split
  all_goals rfl

mutual

/-- The tokens of a document are read into its outline. -/
theorem readTokens_value (j : Json) (stack : List Frame) (rest : List Token) :
    readTokens ⟨stack, .value, none⟩ (tokensOf j ++ rest) =
      readTokens (deliver (outlineOf j) stack) rest := by
  match j with
  | .null => rfl
  | .bool b => rfl
  | .int n => rfl
  | .float x => rfl
  | .string s => rfl
  | .array [] => rfl
  | .array (j :: more) =>
    rw [tokensOf, outlineOf]
    show readTokens ⟨.array [] :: stack, .valueOrClose, none⟩
      (tokensOf j ++ (tokensOfItems more ++ [.closeArray]) ++ rest) = _
    rw [List.append_assoc, List.append_assoc, readTokens_valueOrClose, readTokens_value]
    show readTokens ⟨.array [outlineOf j] :: stack, .commaOrClose, none⟩ _ = _
    rw [readTokens_items]
    show readTokens (deliver (.array (_ ++ [outlineOf j]).reverse) stack) rest = _
    rw [List.reverse_append, List.reverse_reverse, outlineItems]
    rfl
  | .object [] => rfl
  | .object ((name, j) :: more) =>
    rw [tokensOf, outlineOf]
    show readTokens ⟨.object [] (some name) :: stack, .value, none⟩
      (tokensOf j ++ (tokensOfMembers more ++ [.closeObject]) ++ rest) = _
    rw [List.append_assoc, List.append_assoc, readTokens_value]
    show readTokens
      ⟨.object [(some name, outlineOf j)] (some name) :: stack, .commaOrClose, none⟩ _ = _
    obtain ⟨last, hmore⟩ := readTokens_members more [(some name, outlineOf j)] (some name) stack
      ([.closeObject] ++ rest)
    rw [hmore]
    show readTokens (deliver (.object (_ ++ [(some name, outlineOf j)]).reverse) stack) rest = _
    rw [List.reverse_append, List.reverse_reverse, outlineMembers]
    rfl

theorem readTokens_items (items : List Json) (done : List Outline) (stack : List Frame)
    (rest : List Token) :
    readTokens ⟨.array done :: stack, .commaOrClose, none⟩ (tokensOfItems items ++ rest) =
      readTokens ⟨.array ((outlineItems items).reverse ++ done) :: stack, .commaOrClose, none⟩
        rest := by
  match items with
  | [] => rw [tokensOfItems, outlineItems]; rfl
  | j :: more =>
    rw [tokensOfItems, outlineItems]
    show readTokens ⟨.array done :: stack, .value, none⟩
      (tokensOf j ++ tokensOfItems more ++ rest) = _
    rw [List.append_assoc, readTokens_value]
    show readTokens ⟨.array (outlineOf j :: done) :: stack, .commaOrClose, none⟩ _ = _
    rw [readTokens_items, List.reverse_cons, List.append_assoc, List.singleton_append]

/-- After the members the frame still has the name of the last. -/
theorem readTokens_members (members : List (String × Json))
    (done : List (Option String × Outline)) (name : Option String) (stack : List Frame)
    (rest : List Token) :
    ∃ last, readTokens ⟨.object done name :: stack, .commaOrClose, none⟩
        (tokensOfMembers members ++ rest) =
      readTokens ⟨.object ((outlineMembers members).reverse ++ done) last :: stack,
        .commaOrClose, none⟩ rest := by
  match members with
  | [] => exact ⟨name, by rw [tokensOfMembers, outlineMembers]; rfl⟩
  | (member, j) :: more =>
    obtain ⟨last, hmore⟩ :=
      readTokens_members more ((some member, outlineOf j) :: done) (some member) stack rest
    refine ⟨last, ?_⟩
    rw [tokensOfMembers, outlineMembers]
    show readTokens ⟨.object done (some member) :: stack, .value, none⟩
      (tokensOf j ++ tokensOfMembers more ++ rest) = _
    rw [List.append_assoc, readTokens_value, List.reverse_cons, List.append_assoc,
      List.singleton_append]
    exact hmore

end

/-! ## Doubles as they are spelled -/

mutual

/-- A document with its doubles as they are spelled, if all of them spell a value. -/
def respell? : Json → Option Json
  | .float x => spelled? x
  | .array items => (respellItems? items).map .array
  | .object members => (respellMembers? members).map .object
  | j => some j

def respellItems? : List Json → Option (List Json)
  | [] => some []
  | j :: rest => do
    let j ← respell? j
    let more ← respellItems? rest
    return j :: more

def respellMembers? : List (String × Json) → Option (List (String × Json))
  | [] => some []
  | (name, j) :: rest => do
    let j ← respell? j
    let more ← respellMembers? rest
    return (name, j) :: more

end

theorem respell?_array (items : List Json) :
    (Json.array items).respell? = (items.mapM respell?).map .array := by
  rw [respell?]
  congr 1
  induction items with
  | nil => rfl
  | cons j rest ih => rw [respellItems?, ih, List.mapM_cons]

theorem respell?_object (members : List (String × Json)) :
    (Json.object members).respell? =
      (members.mapM fun m : String × Json => m.2.respell?.map fun j => (m.1, j)).map .object := by
  rw [respell?]
  congr 1
  induction members with
  | nil => rfl
  | cons m rest ih =>
    rw [respellMembers?, ih, List.mapM_cons]
    cases m.2.respell? <;> rfl

/-- Where every double is spelled as another, the others stand in the document. -/
theorem respell?_eq_mapFloats {j : Json} {f : Float → Float}
    (h : ∀ x ∈ j.floats, spelled? x = some (.float (f x))) : j.respell? = some (j.mapFloats f) := by
  induction j using inductionOn with
  | null | bool | int | string => rfl
  | float x => exact h x (List.mem_singleton_self x)
  | array items ih =>
    rw [respell?_array, mapFloats_array, mapM_eq_some_map fun j hj =>
      ih j hj fun x hx => h x (mem_floats_array.2 ⟨j, hj, hx⟩)]
    rfl
  | object members ih =>
    have hmember : ∀ m ∈ members,
        m.2.respell?.map (fun j => (m.1, j)) = some (m.1, m.2.mapFloats f) := by
      intro m hm
      rw [ih m hm fun x hx => h x (mem_floats_object.2 ⟨m, hm, hx⟩)]
      rfl
    rw [respell?_object, mapFloats_object, mapM_eq_some_map hmember]
    rfl

/-- If one double spells no value, neither does the document. -/
theorem isSome_spelled? {j : Json} (h : j.respell?.isSome = true) :
    ∀ x ∈ j.floats, (spelled? x).isSome = true := by
  induction j using inductionOn with
  | null | bool | int | string => exact nofun
  | float x => exact List.forall_mem_singleton.2 h
  | array items ih =>
    rw [respell?_array, Option.isSome_map, isSome_mapM, List.all_eq_true] at h
    intro x hx
    obtain ⟨j, hj, hx⟩ := mem_floats_array.1 hx
    exact ih j hj (h j hj) x hx
  | object members ih =>
    rw [respell?_object, Option.isSome_map, isSome_mapM, List.all_eq_true] at h
    intro x hx
    obtain ⟨m, hm, hx⟩ := mem_floats_object.1 hx
    have hmember := h m hm
    rw [Option.isSome_map] at hmember
    exact ih m hm hmember x hx

/-! ## Selecting -/

theorem selectItems?_outlineItems {room : Nat} {items : List Json}
    (h : ∀ j ∈ items, (outlineOf j).select? room .all = j.respell?) :
    Outline.selectItems? room [] (outlineItems items) = respellItems? items := by
  induction items with
  | nil => rfl
  | cons j more ih =>
    rw [List.forall_mem_cons] at h
    rw [outlineItems, Outline.selectItems?, respellItems?]
    show ((outlineOf j).select? room .all).bind (fun j =>
      (Outline.selectItems? room [] (outlineItems more)).bind fun more => some (j :: more)) = _
    rw [h.1, ih h.2]
    rfl

/-- Members that are all wanted are all selected. -/
theorem selectMembers?_outlineMembers {room : Nat} {s : Selection}
    {members : List (String × Json)}
    (h : ∀ m ∈ members, ∃ wanted, s.member? m.1 = some wanted ∧
      (outlineOf m.2).select? room wanted = m.2.respell?) :
    Outline.selectMembers? room s (outlineMembers members) = respellMembers? members := by
  induction members with
  | nil => rfl
  | cons m more ih =>
    obtain ⟨name, j⟩ := m
    rw [List.forall_mem_cons] at h
    obtain ⟨⟨wanted, hwanted, hselect⟩, hmore⟩ := h
    rw [outlineMembers, Outline.selectMembers?, hwanted, respellMembers?]
    show ((outlineOf j).select? room wanted).bind (fun j =>
      (Outline.selectMembers? room s (outlineMembers more)).bind fun more =>
        some ((name, j) :: more)) = _
    rw [hselect, ih hmore]
    rfl

/-- The document is selected from its outline. -/
theorem select?_outlineOf {room : Nat} {j : Json} (h : Fits room j) :
    (outlineOf j).select? room .all = j.respell? := by
  induction h with
  | null | bool | int | float | string => rfl
  | array _ ih =>
    rw [outlineOf, Outline.select?, respell?]
    show (Outline.selectItems? _ [] _).map Json.array = _
    rw [selectItems?_outlineItems ih]
  | object _ ih =>
    rw [outlineOf, Outline.select?, respell?]
    show (Outline.selectMembers? _ .all _).map Json.object = _
    rw [selectMembers?_outlineMembers fun m hm => ⟨.all, rfl, ih m hm⟩]

/-- A selection wants every part of a document. -/
inductive Selection.Covers : Selection → Json → Prop
  | all (j : Json) : Covers .all j
  | object {wanted : List (String × Selection)} {members : List (String × Json)}
      (hknown : ∀ m ∈ members, ∃ s, wanted.lookup m.1 = some s)
      (hcovers : ∀ m ∈ members, ∀ s, wanted.lookup m.1 = some s → Covers s m.2) :
      Covers (.fields wanted) (.object members)
  | tagged {tag content : String} {wanted : Selection} {members : List (String × Json)}
      (h : Covers ((Selection.tagged tag content wanted).ofNames
        (members.map fun m => some m.1)) (.object members)) :
      Covers (.tagged tag content wanted) (.object members)

/-- An object is wanted as a whole when all its members are. -/
theorem covers_object {wanted : List (String × Selection)} {members : List (String × Json)}
    (h : ∀ m ∈ members, ∃ s, wanted.lookup m.1 = some s ∧ s.Covers m.2) :
    (Selection.fields wanted).Covers (.object members) := by
  constructor
  · intro m hm
    obtain ⟨s, hs, -⟩ := h m hm
    exact ⟨s, hs⟩
  · intro m hm s hs
    obtain ⟨s', hs', hcovers⟩ := h m hm
    rw [hs'] at hs
    cases hs
    exact hcovers

/-- Where the tag stands first, the content is wanted as its variant has it. -/
theorem covers_of_tag_first {tag content : String} {wanted : Selection} {name : Json}
    {others : List (String × Json)}
    (h : (Selection.fields [(tag, .all), (content, wanted)]).Covers
      (.object ((tag, name) :: others))) :
    (Selection.tagged tag content wanted).Covers (.object ((tag, name) :: others)) := by
  refine .tagged ?_
  rw [List.map_cons]
  simpa [Selection.ofNames] using h

/-- Where the content stands first, it is wanted as a whole. -/
theorem covers_of_content_first {tag content : String} (hne : content ≠ tag) {wanted : Selection}
    {j : Json} {others : List (String × Json)}
    (h : (Selection.fields [(tag, .all), (content, .all)]).Covers
      (.object ((content, j) :: others))) :
    (Selection.tagged tag content wanted).Covers (.object ((content, j) :: others)) := by
  refine .tagged ?_
  rw [List.map_cons]
  simpa [Selection.ofNames, hne] using h

theorem ofNames_ofNames (s : Selection) (names others : List (Option String)) :
    (s.ofNames names).ofNames others = s.ofNames names := by
  cases s with
  | all | fields => rfl
  | tagged tag content wanted =>
    rw [Selection.ofNames]
    cases names.find? fun name => name = some tag || name = some content <;> rfl

theorem names_outlineMembers (members : List (String × Json)) :
    (outlineMembers members).map Prod.fst = members.map fun m => some m.1 := by
  induction members with
  | nil => rfl
  | cons m more ih =>
    rw [outlineMembers, List.map_cons, List.map_cons, ih]

/-- Where every part is wanted, the whole document is selected. -/
theorem select?_of_covers {s : Selection} {j : Json} (hcovers : s.Covers j) :
    ∀ room, Fits room j → (outlineOf j).select? room s = j.respell? := by
  induction hcovers with
  | all j => exact fun room h => select?_outlineOf h
  | object hknown _ ih =>
    intro room h
    cases h with
    | object hmembers =>
      rw [outlineOf, Outline.select?, respell?]
      show (Outline.selectMembers? _ (.fields _) _).map Json.object = _
      rw [selectMembers?_outlineMembers]
      intro m hm
      obtain ⟨s, hs⟩ := hknown m hm
      exact ⟨s, hs, ih m hm s hs _ (hmembers m hm)⟩
  | tagged _ ih =>
    intro room h
    have hwhole := ih room h
    cases h with
    | object hmembers =>
      rw [outlineOf, Outline.select?, names_outlineMembers, ofNames_ofNames] at hwhole
      rw [outlineOf, Outline.select?, names_outlineMembers]
      exact hwhole

/-! ## Canonical text -/

theorem fits_sorted {room : Nat} {j : Json} (h : Fits room j) : Fits room j.sorted := by
  induction h with
  | null room => exact .null room
  | bool room b => exact .bool room b
  | int room hlow hhigh => exact .int room hlow hhigh
  | float room x => exact .float room x
  | string room s => exact .string room s
  | array _ ih =>
    rw [sorted_array]
    exact .array (List.forall_mem_map.2 ih)
  | object _ ih =>
    rw [sorted_object]
    refine .object fun m hm => ?_
    obtain ⟨m', hm', rfl⟩ := mem_memberMap hm
    exact ih m' hm'

/-- Canonical text has the outline of the sorted document. -/
theorem outline?_canonical {room : Nat} {j : Json} (h : Fits room j) :
    outline? (canonical j) = some (outlineOf j.sorted) := by
  have htokens : tokens? (canonical j).toList = some (tokensOf j.sorted) := by
    rw [canonical, String.toList_ofList, tokens?,
      scan_writeIndented (fits_sorted h) 0 [] (endsWord_cons (by decide) [])]
    show some (((tokensOf j.sorted).reverse ++ []).reverse ++ []) = _
    rw [List.append_nil, List.append_nil, List.reverse_reverse]
  have hread := readTokens_value j.sorted [] []
  rw [List.append_nil] at hread
  show (tokens? (canonical j).toList).bind (fun tokens =>
    (readTokens .start tokens).bind fun final => final.outline) = _
  rw [htokens]
  show (readTokens ⟨[], .value, none⟩ (tokensOf j.sorted)).bind (fun final => final.outline) = _
  rw [hread]
  rfl

/-- Canonical text reads back, members in ascending order and doubles as they are spelled. -/
theorem readSelected?_respell {j : Json} (h : Fits maxDepth j) {s : Selection}
    (hcovers : s.Covers j.sorted) : readSelected? s (canonical j) = j.sorted.respell? := by
  rw [readSelected?, outline?_canonical h]
  exact select?_of_covers hcovers _ (fits_sorted h)

/-- Where all doubles read back, so does the whole document. -/
theorem readSelected?_canonical {j : Json} (h : Fits maxDepth j)
    (hfloats : ∀ x ∈ j.sorted.floats, ReadsBack x) {s : Selection} (hcovers : s.Covers j.sorted) :
    readSelected? s (canonical j) = some j.sorted := by
  have hsame : j.sorted.mapFloats id = j.sorted := mapFloats_eq_self_iff.2 fun _ _ => rfl
  rw [readSelected?_respell h hcovers,
    respell?_eq_mapFloats fun x hx => readsBack_iff.1 (hfloats x hx)]
  exact congrArg some hsame

end FigureData.Json
