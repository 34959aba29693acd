/-
  What a text can be read as.

  Every leaf of a document that was read is a string or is spelled by a word of the text, and at
  most so many arrays and objects are inside each other.  What holds of all words therefore holds
  of all documents, whichever parts of the text are wanted.

  Proved:
  * `isSpelled_scan`, `isSpelled_readTokens`: tokens and outlines hold what words spell.
  * `isSpelled_readSelected?`: so does a document that was read, no deeper than it may be.
-/
import FigureData.Json.Reader

namespace FigureData.Json

/-! ## Definitions -/

/-- Every leaf is a string or is spelled by a word, and at most `room` arrays and objects are
inside each other. -/
inductive IsSpelled : Nat → Json → Prop
  | string (room : Nat) (s : String) : IsSpelled room (.string s)
  | word (room : Nat) {cs : List Char} {j : Json} (h : word? cs = some (some j)) :
      IsSpelled room j
  | array {room : Nat} {items : List Json} (h : ∀ j ∈ items, IsSpelled room j) :
      IsSpelled (room + 1) (.array items)
  | object {room : Nat} {members : List (String × Json)} (h : ∀ m ∈ members, IsSpelled room m.2) :
      IsSpelled (room + 1) (.object members)

/-- A value that stands in no array and no object. -/
def IsSpelledLeaf (j : Json) : Prop :=
  (∃ s, j = .string s) ∨ ∃ cs, word? cs = some (some j)

theorem IsSpelledLeaf.isSpelled {j : Json} (h : IsSpelledLeaf j) (room : Nat) :
    IsSpelled room j := by
  rcases h with ⟨s, rfl⟩ | ⟨cs, hcs⟩
  · exact .string room s
  · exact .word room hcs

/-- A token with a value has one that a word spells. -/
def Token.IsSpelled (t : Token) : Prop :=
  ∀ j, t = .word (some j) → ∃ cs, word? cs = some (some j)

/-- Every leaf of an outline that has a value is a string or is spelled by a word. -/
inductive Outline.IsSpelled : Outline → Prop
  | leaf {value : Option Json} (h : ∀ j, value = some j → IsSpelledLeaf j) :
      IsSpelled (.leaf value)
  | array {items : List Outline} (h : ∀ o ∈ items, IsSpelled o) : IsSpelled (.array items)
  | object {members : List (Option String × Outline)} (h : ∀ m ∈ members, IsSpelled m.2) :
      IsSpelled (.object members)

/-- The leaves of the finished parts are strings or spelled by words. -/
def Frame.IsSpelled : Frame → Prop
  | .array done => ∀ o ∈ done, Outline.IsSpelled o
  | .object done _ => ∀ m ∈ done, Outline.IsSpelled m.2

structure ReadState.IsSpelled (s : ReadState) : Prop where
  stack : ∀ f ∈ s.stack, f.IsSpelled
  outline : ∀ o, s.outline = some o → o.IsSpelled

/-! ## Tokens -/

/-- Punctuation has no value. -/
theorem isSpelled_startToken {c : Char} {next : ScanMode} {tokens : List Token}
    (h : startToken c = some (next, tokens)) : ∀ t ∈ tokens, t.IsSpelled := by
  have hword : ∀ t ∈ tokens, ∀ j, t ≠ .word (some j) := by
    unfold startToken at h
    split at h
    all_goals first
      | (cases h; intro t ht j; cases List.mem_singleton.1 ht; exact nofun)
      | (cases h; intro t ht; cases ht)
      | (split at h <;> cases h; intro t ht; cases ht)
  intro t ht j he
  exact absurd he (hword t ht j)

theorem isSpelled_scanChar {mode next : ScanMode} {c : Char} {tokens : List Token}
    (h : scanChar mode c = some (next, tokens)) : ∀ t ∈ tokens, t.IsSpelled := by
  cases mode with
  | between => exact isSpelled_startToken h
  | word read =>
    unfold scanChar at h
    simp only at h
    split at h
    · cases h
      simp
    obtain ⟨value, hvalue, h⟩ := Option.bind_eq_some_iff.1 h
    obtain ⟨⟨next', tokens'⟩, hstart, h⟩ := Option.bind_eq_some_iff.1 h
    cases h
    rw [List.forall_mem_cons]
    refine ⟨?_, isSpelled_startToken hstart⟩
    intro j he
    cases he
    exact ⟨_, hvalue⟩
  | string read =>
    unfold scanChar at h
    simp only at h
    split at h
    · cases h
      intro t ht j he
      rw [List.mem_singleton.1 ht] at he
      cases he
    split at h
    · cases h
      simp
    split at h
    · cases h
    · cases h
      simp
  | escape read =>
    unfold scanChar at h
    simp only at h
    split at h
    · cases h
      simp
    · obtain ⟨e, -, he⟩ := Option.map_eq_some_iff.1 h
      cases he
      simp
  | hex read owed value =>
    unfold scanChar at h
    simp only at h
    obtain ⟨digit, -, h⟩ := Option.map_eq_some_iff.1 h
    split at h
    · cases h
      simp
    · cases h
      simp

theorem isSpelled_scan {mode : ScanMode} {done tokens : List Token} {cs : List Char}
    (hdone : ∀ t ∈ done, t.IsSpelled) (h : scan mode done cs = some tokens) :
    ∀ t ∈ tokens, t.IsSpelled := by
  induction cs generalizing mode done with
  | nil =>
    obtain ⟨last, hlast, rfl⟩ := Option.map_eq_some_iff.1 h
    have hend : ∀ t ∈ last, t.IsSpelled := by
      unfold scanEnd at hlast
      split at hlast
      · cases hlast
        simp
      · obtain ⟨value, hvalue, rfl⟩ := Option.map_eq_some_iff.1 hlast
        intro t ht j he
        rw [List.mem_singleton.1 ht] at he
        cases he
        exact ⟨_, hvalue⟩
      · cases hlast
    intro t ht
    rcases List.mem_append.1 ht with ht | ht
    · exact hdone t (List.mem_reverse.1 ht)
    · exact hend t ht
  | cons c rest ih =>
    unfold scan at h
    split at h
    next next tokens' hchar =>
      refine ih ?_ h
      intro t ht
      rcases List.mem_append.1 ht with ht | ht
      · exact isSpelled_scanChar hchar t (List.mem_reverse.1 ht)
      · exact hdone t ht
    next => cases h

/-! ## Outlines -/

theorem isSpelled_deliver {value : Outline} (hvalue : value.IsSpelled) {stack : List Frame}
    (hstack : ∀ f ∈ stack, f.IsSpelled) : (deliver value stack).IsSpelled := by
  cases stack with
  | nil => exact ⟨hstack, fun o ho => Option.some.inj ho ▸ hvalue⟩
  | cons frame outer =>
    rw [List.forall_mem_cons] at hstack
    obtain ⟨hframe, houter⟩ := hstack
    cases frame with
    | array done =>
      refine ⟨List.forall_mem_cons.2 ⟨?_, houter⟩, by simp [deliver]⟩
      exact List.forall_mem_cons.2 ⟨hvalue, hframe⟩
    | object done name =>
      refine ⟨List.forall_mem_cons.2 ⟨?_, houter⟩, by simp [deliver]⟩
      exact List.forall_mem_cons.2 ⟨hvalue, hframe⟩

theorem isSpelled_beginValue {stack : List Frame} (hstack : ∀ f ∈ stack, f.IsSpelled) {t : Token}
    (ht : t.IsSpelled) {next : ReadState} (h : beginValue stack t = some next) : next.IsSpelled := by
  cases t with
  | openArray =>
    cases h
    exact ⟨List.forall_mem_cons.2 ⟨by simp [Frame.IsSpelled], hstack⟩, by simp⟩
  | openObject =>
    cases h
    exact ⟨List.forall_mem_cons.2 ⟨by simp [Frame.IsSpelled], hstack⟩, by simp⟩
  | string value =>
    cases h
    refine isSpelled_deliver (.leaf ?_) hstack
    intro j hj
    obtain ⟨s, -, rfl⟩ := Option.map_eq_some_iff.1 hj
    exact .inl ⟨s, rfl⟩
  | word value =>
    cases h
    exact isSpelled_deliver (.leaf fun j hj => .inr (ht j (by rw [hj]))) hstack
  | closeArray => cases h
  | closeObject => cases h
  | comma => cases h
  | colon => cases h

theorem isSpelled_closeFrame {stack : List Frame} (hstack : ∀ f ∈ stack, f.IsSpelled) {t : Token}
    {next : ReadState} (h : closeFrame stack t = some next) : next.IsSpelled := by
  unfold closeFrame at h
  split at h
  · cases h
    rw [List.forall_mem_cons] at hstack
    exact isSpelled_deliver (.array fun o ho => hstack.1 o (List.mem_reverse.1 ho)) hstack.2
  · cases h
    rw [List.forall_mem_cons] at hstack
    exact isSpelled_deliver (.object fun m hm => hstack.1 m (List.mem_reverse.1 hm)) hstack.2
  · cases h

theorem isSpelled_beginMember {stack : List Frame} (hstack : ∀ f ∈ stack, f.IsSpelled) {t : Token}
    {next : ReadState} (h : beginMember stack t = some next) : next.IsSpelled := by
  unfold beginMember at h
  split at h
  · cases h
    rw [List.forall_mem_cons] at hstack
    exact ⟨List.forall_mem_cons.2 ⟨hstack.1, hstack.2⟩, by simp⟩
  · cases h

theorem isSpelled_continueFrame {stack : List Frame} (hstack : ∀ f ∈ stack, f.IsSpelled)
    {next : ReadState} (h : continueFrame stack = some next) : next.IsSpelled := by
  unfold continueFrame at h
  split at h
  · cases h
    exact ⟨hstack, by simp⟩
  · cases h
    exact ⟨hstack, by simp⟩
  · cases h

theorem isSpelled_readToken {s next : ReadState} (hs : s.IsSpelled) {t : Token} (ht : t.IsSpelled)
    (h : readToken s t = some next) : next.IsSpelled := by
  unfold readToken at h
  split at h
  · exact isSpelled_beginValue hs.stack ht h
  · exact isSpelled_closeFrame hs.stack h
  · exact isSpelled_beginValue hs.stack ht h
  · exact isSpelled_beginMember hs.stack h
  · exact isSpelled_closeFrame hs.stack h
  · exact isSpelled_beginMember hs.stack h
  · cases h
    exact ⟨hs.stack, by simp⟩
  · exact isSpelled_continueFrame hs.stack h
  · exact isSpelled_closeFrame hs.stack h
  · cases h

theorem isSpelled_readTokens {s final : ReadState} (hs : s.IsSpelled) {tokens : List Token}
    (ht : ∀ t ∈ tokens, t.IsSpelled) (h : readTokens s tokens = some final) : final.IsSpelled := by
  induction tokens generalizing s with
  | nil =>
    cases h
    exact hs
  | cons t rest ih =>
    rw [List.forall_mem_cons] at ht
    obtain ⟨next, hnext, h⟩ := Option.bind_eq_some_iff.1 h
    exact ih (isSpelled_readToken hs ht.1 hnext) ht.2 h

theorem isSpelled_outline? {text : String} {o : Outline} (h : outline? text = some o) :
    o.IsSpelled := by
  unfold outline? at h
  obtain ⟨tokens, htokens, h⟩ := Option.bind_eq_some_iff.1 h
  obtain ⟨final, hfinal, h⟩ := Option.bind_eq_some_iff.1 h
  have hstart : ReadState.start.IsSpelled := ⟨by simp [ReadState.start], by simp [ReadState.start]⟩
  have hnil : ∀ t ∈ ([] : List Token), t.IsSpelled := by simp
  exact (isSpelled_readTokens hstart (isSpelled_scan hnil htokens) hfinal).outline o h

/-! ## The wanted parts -/

mutual

theorem isSpelled_select? {room : Nat} {s : Selection} {o : Outline} (ho : o.IsSpelled) {j : Json}
    (h : o.select? room s = some j) : IsSpelled room j := by
  cases o with
  | leaf value =>
    unfold Outline.select? at h
    cases ho with
    | leaf hvalue => exact (hvalue j h).isSpelled room
  | array items =>
    unfold Outline.select? at h
    cases ho with
    | array hitems =>
      split at h
      · cases h
      · obtain ⟨js, hjs, rfl⟩ := Option.map_eq_some_iff.1 h
        exact .array (isSpelled_selectItems? hitems hjs)
  | object members =>
    unfold Outline.select? at h
    cases ho with
    | object hmembers =>
      split at h
      · cases h
      · obtain ⟨js, hjs, rfl⟩ := Option.map_eq_some_iff.1 h
        exact .object (isSpelled_selectMembers? hmembers hjs)

theorem isSpelled_selectItems? {room : Nat} {wanted : List Selection} {items : List Outline}
    (hitems : ∀ o ∈ items, o.IsSpelled) {js : List Json}
    (h : Outline.selectItems? room wanted items = some js) : ∀ j ∈ js, IsSpelled room j := by
  cases items with
  | nil =>
    unfold Outline.selectItems? at h
    cases h
    simp
  | cons item rest =>
    unfold Outline.selectItems? at h
    rw [List.forall_mem_cons] at hitems
    obtain ⟨j, hj, h⟩ := Option.bind_eq_some_iff.1 h
    obtain ⟨more, hmore, h⟩ := Option.bind_eq_some_iff.1 h
    cases h
    exact List.forall_mem_cons.2
      ⟨isSpelled_select? hitems.1 hj, isSpelled_selectItems? hitems.2 hmore⟩

theorem isSpelled_selectMembers? {room : Nat} {s : Selection}
    {members : List (Option String × Outline)} (hmembers : ∀ m ∈ members, m.2.IsSpelled)
    {js : List (String × Json)} (h : Outline.selectMembers? room s members = some js) :
    ∀ m ∈ js, IsSpelled room m.2 := by
  match members with
  | [] =>
    unfold Outline.selectMembers? at h
    cases h
    simp
  | (none, _) :: _ =>
    unfold Outline.selectMembers? at h
    cases h
  | (some name, value) :: rest =>
    unfold Outline.selectMembers? at h
    rw [List.forall_mem_cons] at hmembers
    split at h
    · exact isSpelled_selectMembers? hmembers.2 h
    · obtain ⟨j, hj, h⟩ := Option.bind_eq_some_iff.1 h
      obtain ⟨more, hmore, h⟩ := Option.bind_eq_some_iff.1 h
      cases h
      exact List.forall_mem_cons.2
        ⟨isSpelled_select? hmembers.1 hj, isSpelled_selectMembers? hmembers.2 hmore⟩

end

/-- Every leaf of a document that was read is a string or is spelled by a word, and it is no
deeper than it may be. -/
theorem isSpelled_readSelected? {s : Selection} {text : String} {j : Json}
    (h : readSelected? s text = some j) : IsSpelled maxDepth j := by
  obtain ⟨o, ho, h⟩ := Option.bind_eq_some_iff.1 h
  exact isSpelled_select? (isSpelled_outline? ho) h

end FigureData.Json
