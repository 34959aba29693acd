/-
  Texts put together from pieces are cut into these pieces again.

  Proved:
  * `splitAt_of_not_mem`, `splitAt_append_sep`: the pieces between separators.
  * `cutAt?_append`: a text is cut at the first separator.
  * `lines_append`, `lines_of_not_mem`: a line that ends, and a last line that does not;
    `lines_of_firstLine`: the first line of a text, however it ends.
  * `words_append`: a word and those after it.
  * `trimWhile_append_left`, `trimWhile_append_right`: what is dropped at the ends leaves no trace.
  * `trim_dropCarriageReturn`, `words_concat`: a CR at the end of a line is no part of what the line
    says.
-/
import FigureData.Text.Split

namespace FigureData.Text

/-! ## Separators -/

theorem splitAt_of_not_mem {sep : Char} {cs : List Char} (h : sep ∉ cs) :
    splitAt sep cs = [cs] := by
  induction cs with
  | nil => rfl
  | cons c rest ih =>
    rw [List.mem_cons, not_or] at h
    unfold splitAt
    rw [if_neg (Ne.symm h.1), ih h.2]

theorem splitAt_ne_nil (sep : Char) (cs : List Char) : splitAt sep cs ≠ [] := by
  cases cs with
  | nil => exact List.cons_ne_nil _ _
  | cons c rest =>
    unfold splitAt
    split
    · exact List.cons_ne_nil _ _
    · split <;> exact List.cons_ne_nil _ _

theorem splitAt_append_sep (sep : Char) (before after : List Char) :
    splitAt sep (before ++ sep :: after) = splitAt sep before ++ splitAt sep after := by
  induction before with
  | nil =>
    show splitAt sep (sep :: after) = [] :: splitAt sep after
    rw [splitAt, if_pos rfl]
  | cons c rest ih =>
    rw [List.cons_append, splitAt, splitAt, ih]
    split
    · rfl
    · cases hrest : splitAt sep rest with
      | nil => exact absurd hrest (splitAt_ne_nil sep rest)
      | cons piece more => rfl

/-- A text is cut at the first separator; there may be more of them. -/
theorem cutAt?_append {sep : Char} {front : List Char} (h : sep ∉ front) (rest : List Char) :
    cutAt? sep (front ++ sep :: rest) = some (front, rest) := by
  induction front with
  | nil =>
    show cutAt? sep (sep :: rest) = some ([], rest)
    rw [cutAt?, if_pos rfl]
  | cons c front ih =>
    rw [List.mem_cons, not_or] at h
    rw [List.cons_append, cutAt?, if_neg (Ne.symm h.1), ih h.2]
    rfl

/-- What is added at the end stands behind the cut. -/
theorem cutAt?_concat {sep last : Char} (h : last ≠ sep) (cs : List Char) :
    cutAt? sep (cs ++ [last]) = (cutAt? sep cs).map fun x => (x.1, x.2 ++ [last]) := by
  induction cs with
  | nil =>
    show cutAt? sep [last] = none
    rw [cutAt?, if_neg h]
    rfl
  | cons c rest ih =>
    rw [List.cons_append, cutAt?, cutAt?]
    split
    · rfl
    · rw [ih]
      cases cutAt? sep rest <;> rfl

/-! ## Lines -/

/-- A line that ends comes before the lines of the rest. -/
theorem lines_append {line : List Char} (h : '\n' ∉ line) (rest : List Char) :
    lines (line ++ '\n' :: rest) = dropCarriageReturn line :: lines rest := by
  obtain ⟨piece, more, hpieces⟩ := List.exists_cons_of_ne_nil (splitAt_ne_nil '\n' rest)
  simp only [lines, splitAt_append_sep, splitAt_of_not_mem h, hpieces, List.singleton_append,
    List.dropLast_cons_cons, List.getLast?_cons_cons, List.map_cons]
  split
  · rfl
  · rfl

/-- A last line need not end. -/
theorem lines_of_not_mem {line : List Char} (h : '\n' ∉ line) (hne : line ≠ []) :
    lines line = [line] := by
  obtain ⟨c, rest, rfl⟩ := List.exists_cons_of_ne_nil hne
  unfold lines
  rw [splitAt_of_not_mem h]
  rfl

theorem dropCarriageReturn_concat (line : List Char) : dropCarriageReturn (line ++ ['\r']) = line := by
  unfold dropCarriageReturn
  rw [beforeTail?_append]
  rfl

/-- A CR is dropped where there is one. -/
theorem eq_dropCarriageReturn (line : List Char) :
    line = dropCarriageReturn line ∨ line = dropCarriageReturn line ++ ['\r'] := by
  unfold dropCarriageReturn
  cases hfront : beforeTail? ['\r'] line with
  | none => exact .inl rfl
  | some front => exact .inr (eq_append_of_beforeTail? hfront)

/-- The first line of a text and the rest after its end.  A last line need not end. -/
inductive FirstLine (line : List Char) : List Char → List Char → Prop
  | lf (rest : List Char) : FirstLine line (line ++ '\n' :: rest) rest
  | crlf (rest : List Char) : FirstLine line (line ++ '\r' :: '\n' :: rest) rest
  | unended (hne : line ≠ []) : FirstLine line line []

/-- A line at the front of a text is read up to a CR at its end. -/
theorem lines_of_firstLine {line cs rest : List Char} (hline : '\n' ∉ line)
    (h : FirstLine line cs rest) :
    ∃ read, (read = line ∨ read = dropCarriageReturn line) ∧ lines cs = read :: lines rest := by
  cases h with
  | lf => exact ⟨_, .inr rfl, lines_append hline rest⟩
  | crlf =>
    have hended : '\n' ∉ line ++ ['\r'] := by
      rw [List.mem_append, not_or]
      exact ⟨hline, by decide⟩
    refine ⟨line, .inl rfl, ?_⟩
    rw [List.append_cons, lines_append hended, dropCarriageReturn_concat]
  | unended hne => exact ⟨line, .inl rfl, lines_of_not_mem hline hne⟩

/-- What does not depend on a CR is the same. -/
theorem eq_of_read {β : Type} {f : List Char → β} (hf : ∀ line, f (dropCarriageReturn line) = f line)
    {read line : List Char} (h : read = line ∨ read = dropCarriageReturn line) : f read = f line := by
  rcases h with rfl | rfl
  · rfl
  · exact hf line

/-! ## Words -/

theorem words_go_cons (current : List Char) (c : Char) (rest : List Char) :
    words.go current (c :: rest) =
      if isBlank c then
        if current.isEmpty then words.go [] rest else current.reverse :: words.go [] rest
      else words.go (c :: current) rest := rfl

theorem words_cons_blank {c : Char} (h : isBlank c = true) (cs : List Char) :
    words (c :: cs) = words cs := by
  show words.go [] (c :: cs) = words.go [] cs
  rw [words_go_cons, if_pos h]
  rfl

theorem words_go_append {word : List Char} (h : ∀ c ∈ word, isBlank c = false)
    (current rest : List Char) :
    words.go current (word ++ rest) = words.go (word.reverse ++ current) rest := by
  induction word generalizing current with
  | nil => rfl
  | cons c word ih =>
    rw [List.forall_mem_cons] at h
    rw [List.cons_append, words_go_cons, if_neg (Bool.eq_false_iff.1 h.1), ih h.2, List.reverse_cons,
      List.append_assoc]
    rfl

/-- A word that the text ends after, or a blank, comes before the words of the rest. -/
theorem words_append {word rest : List Char} (hne : word ≠ [])
    (hword : ∀ c ∈ word, isBlank c = false) (hrest : ∀ c ∈ rest.head?, isBlank c = true) :
    words (word ++ rest) = word :: words rest := by
  have hcurrent : (word.reverse ++ []).isEmpty = false := by
    rw [List.append_nil, List.isEmpty_reverse]
    exact List.isEmpty_eq_false_iff.2 hne
  show words.go [] (word ++ rest) = word :: words rest
  rw [words_go_append hword]
  cases rest with
  | nil =>
    rw [words.go, hcurrent, List.append_nil, List.reverse_reverse]
    rfl
  | cons c rest =>
    have hc := hrest c rfl
    rw [words_cons_blank hc, words_go_cons, if_pos hc, hcurrent, List.append_nil, List.reverse_reverse]
    rfl

/-- A word stands alone. -/
theorem words_of_forall {word : List Char} (hne : word ≠ [])
    (hword : ∀ c ∈ word, isBlank c = false) : words word = [word] := by
  have hwords : words (word ++ []) = word :: words [] := words_append hne hword nofun
  rwa [List.append_nil] at hwords

theorem words_go_concat {last : Char} (h : isBlank last = true) (current cs : List Char) :
    words.go current (cs ++ [last]) = words.go current cs := by
  induction cs generalizing current with
  | nil =>
    rw [List.nil_append, words_go_cons, if_pos h]
    cases current <;> rfl
  | cons c cs ih =>
    rw [List.cons_append, words_go_cons, words_go_cons, ih, ih]

/-- A blank at the end is part of no word. -/
theorem words_concat {last : Char} (h : isBlank last = true) (cs : List Char) :
    words (cs ++ [last]) = words cs := words_go_concat h [] cs

/-! ## Trimming -/

section Trim

variable {p : Char → Bool}

theorem trimWhile_append_left {front : List Char} (h : ∀ c ∈ front, p c = true) (cs : List Char) :
    trimWhile p (front ++ cs) = trimWhile p cs := by
  unfold trimWhile
  rw [List.dropWhile_append_of_pos h]

theorem dropEndWhile_append_right {back : List Char} (h : ∀ c ∈ back, p c = true)
    (cs : List Char) : dropEndWhile p (cs ++ back) = dropEndWhile p cs := by
  unfold dropEndWhile
  rw [List.reverse_append, List.dropWhile_append_of_pos fun c hc => h c (List.mem_reverse.1 hc)]

theorem trimWhile_append_right {back : List Char} (h : ∀ c ∈ back, p c = true) (cs : List Char) :
    trimWhile p (cs ++ back) = trimWhile p cs := by
  unfold trimWhile
  rw [List.dropWhile_append]
  split
  next hempty =>
    have hback : (back ++ []).dropWhile p = [].dropWhile p := List.dropWhile_append_of_pos h
    rw [List.append_nil, List.dropWhile_nil] at hback
    rw [List.isEmpty_iff.1 hempty, hback]
  next => exact dropEndWhile_append_right h _

/-- Nothing is dropped where there is nothing to drop. -/
theorem trimWhile_of_forall {cs : List Char} (h : ∀ c ∈ cs, p c = false) : trimWhile p cs = cs := by
  have hkept : ∀ {l : List Char}, (∀ c ∈ l, p c = false) → l.dropWhile p = l := by
    intro l hl
    cases l with
    | nil => rfl
    | cons c rest => exact List.dropWhile_cons_of_neg (Bool.eq_false_iff.1 (hl c (List.mem_cons_self ..)))
  unfold trimWhile dropEndWhile
  rw [hkept h, hkept fun c hc => h c (List.mem_reverse.1 hc), List.reverse_reverse]

end Trim

/-- A CR at the end of a line is blank. -/
theorem trim_dropCarriageReturn (line : List Char) : trim (dropCarriageReturn line) = trim line := by
  rcases eq_dropCarriageReturn line with hline | hline
  · rw [← hline]
  · have hblank : ∀ c ∈ ['\r'], isBlank c = true := List.forall_mem_singleton.2 rfl
    unfold trim
    rw [← trimWhile_append_right hblank (dropCarriageReturn line), ← hline]

end FigureData.Text
