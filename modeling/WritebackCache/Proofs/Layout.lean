import WritebackCache.Proofs.LineByLine

/-! The layout of a text. Words stand in a line with gaps between them, and there may be blanks in front
of the first and behind the last, and a comment behind those. None of it is seen by who takes the lines
of the text and the fields of a line. -/

namespace WritebackCache.Text

/-- Spaces and tabs. -/
structure Blanks where
  chars : List Char
  spaced : ∀ c ∈ chars, c = ' ' ∨ c = '\t'

/-- What divides two words. -/
structure Gap extends Blanks where
  ne_nil : chars ≠ []

/-- The text of a comment. -/
structure Remark where
  chars : List Char
  oneLine : '\n' ∉ chars

/-- What stands around the words of a line. -/
structure Margin where
  indent : Blanks
  trail : Blanks
  remark : Option Remark
  /-- The line feed has a carriage return in front of it. -/
  carriage : Bool

def Blanks.none : Blanks := ⟨[], fun _ h => nomatch h⟩

def Gap.space : Gap := ⟨⟨[' '], by simp⟩, by simp⟩

def Gap.tab : Gap := ⟨⟨['\t'], by simp⟩, by simp⟩

def Margin.plain : Margin := ⟨.none, .none, none, false⟩

/-- A word has no blank in it, and nothing that begins a comment. -/
def IsWord (cs : List Char) : Prop := cs ≠ [] ∧ ∀ c ∈ cs, isBlank c = false ∧ c ≠ '#'

/-- Words, each behind its gap. -/
def spread (words : List (Gap × List Char)) : List Char := words.flatMap fun w => w.1.chars ++ w.2

namespace Margin

/-- The comment, and what belongs to the end of the line. -/
def close (m : Margin) : List Char :=
  m.remark.elim [] (fun r => '#' :: r.chars) ++ if m.carriage then ['\r'] else []

/-- The line with words in it, without its line feed. -/
def line (m : Margin) (words : List Char) : List Char :=
  m.indent.chars ++ (words ++ (m.trail.chars ++ m.close))

end Margin

/-- The text with the lines given. -/
def unlines (lines : List (List Char)) : List Char := lines.flatMap (· ++ ['\n'])

/-! ## Lines -/

theorem lines_ended {line : List Char} (h : '\n' ∉ line) : lines (line ++ ['\n']) = [line] := by
  induction line with
  | nil => rfl
  | cons c cs ih =>
    rw [List.mem_cons, not_or] at h
    exact lines_cons (Ne.symm h.1) (ih h.2)

theorem lines_unlines {ls : List (List Char)} (h : ∀ line ∈ ls, '\n' ∉ line) :
    lines (unlines ls) = ls := by
  induction ls with
  | nil => rfl
  | cons line ls ih =>
    rw [List.forall_mem_cons] at h
    have hended : Ended (line ++ ['\n']) := .inr (by simp)
    calc lines (unlines (line :: ls)) = lines (line ++ ['\n'] ++ unlines ls) := rfl
      _ = [line] ++ ls := by rw [lines_append hended, lines_ended h.1, ih h.2]
      _ = line :: ls := rfl

/-! ## Fields -/

theorem Blanks.blank (bs : Blanks) : ∀ c ∈ bs.chars, isBlank c = true := by
  intro c hc
  rcases bs.spaced c hc with rfl | rfl <;> rfl

theorem Gap.apart (gap : Gap) (cs : List Char) :
    ∀ c ∈ (gap.chars ++ cs).head?, isBlank c = true := by
  intro c hc
  cases hgap : gap.chars with
  | nil => exact (gap.ne_nil hgap).elim
  | cons d ds =>
    rw [hgap] at hc
    obtain rfl : d = c := Option.some.inj hc
    exact gap.blank d (by simp [hgap])

theorem fields_blank_append {bs : List Char} (h : ∀ c ∈ bs, isBlank c = true) (cs : List Char) :
    fields (bs ++ cs) = fields cs := by
  induction bs with
  | nil => rfl
  | cons c bs ih =>
    rw [List.forall_mem_cons] at h
    simp [fields, h.1, ih h.2]

theorem fields_blank {bs : List Char} (h : ∀ c ∈ bs, isBlank c = true) : fields bs = [] := by
  have hfields := fields_blank_append h []
  rwa [List.append_nil] at hfields

/-- A character in front of one that is not blank belongs to its field. -/
theorem fields_cons {c d : Char} (hc : isBlank c = false) (hd : isBlank d = false)
    {cs field : List Char} {rest : List (List Char)} (h : fields (d :: cs) = field :: rest) :
    fields (c :: d :: cs) = (c :: field) :: rest := by
  rw [fields.eq_def]
  simp only [hc, hd, h, Bool.false_eq_true, if_false]

/-- A word is a field, if a blank or nothing is behind it. -/
theorem fields_word_append {word rest : List Char} (h : IsWord word)
    (apart : ∀ c ∈ rest.head?, isBlank c = true) : fields (word ++ rest) = word :: fields rest := by
  obtain ⟨ne, plain⟩ := h
  induction word with
  | nil => exact (ne rfl).elim
  | cons c word ih =>
    rw [List.forall_mem_cons] at plain
    cases word with
    | nil =>
      cases rest with
      | nil => simp [fields, plain.1.1]
      | cons d rest =>
        have hd : isBlank d = true := apart d rfl
        simp [fields, plain.1.1, hd]
    | cons d word =>
      have hd : isBlank d = false := (plain.2 d List.mem_cons_self).1
      exact fields_cons plain.1.1 hd (ih (by simp) plain.2)

theorem fields_spread {word : List Char} (hword : IsWord word) {words : List (Gap × List Char)}
    (hwords : ∀ w ∈ words, IsWord w.2) {tail : List Char} (htail : ∀ c ∈ tail, isBlank c = true) :
    fields (word ++ (spread words ++ tail)) = word :: words.map Prod.snd := by
  induction words generalizing word with
  | nil =>
    have hapart : ∀ c ∈ tail.head?, isBlank c = true := fun c hc => htail c (List.mem_of_head? hc)
    calc fields (word ++ tail) = word :: fields tail := fields_word_append hword hapart
      _ = [word] := by rw [fields_blank htail]
  | cons next words ih =>
    obtain ⟨gap, second⟩ := next
    rw [List.forall_mem_cons] at hwords
    have hspread : spread ((gap, second) :: words) ++ tail =
        gap.chars ++ (second ++ (spread words ++ tail)) := by simp [spread]
    rw [hspread, fields_word_append hword (gap.apart _), fields_blank_append gap.blank,
      ih hwords.1 hwords.2]
    rfl

/-! ## Margins -/

theorem beforeComment_append {front : List Char} (h : '#' ∉ front) (cs : List Char) :
    beforeComment (front ++ cs) = front ++ beforeComment cs := by
  apply List.takeWhile_append_of_pos
  intro c hc
  rw [decide_eq_true_iff]
  rintro rfl
  exact h hc

theorem Blanks.not_mem (bs : Blanks) {c : Char} (hc : c = '#' ∨ c = '\n') : c ∉ bs.chars := by
  intro hmem
  rcases bs.spaced c hmem with rfl | rfl <;> simp at hc

theorem IsWord.not_mem {word : List Char} (h : IsWord word) {c : Char} (hc : c = '#' ∨ c = '\n') :
    c ∉ word := by
  intro hmem
  obtain ⟨hblank, hhash⟩ := h.2 c hmem
  rcases hc with rfl | rfl
  · exact hhash rfl
  · cases hblank

theorem not_mem_spread {words : List (Gap × List Char)} (hwords : ∀ w ∈ words, IsWord w.2) {c : Char}
    (hc : c = '#' ∨ c = '\n') : c ∉ spread words := by
  intro hmem
  obtain ⟨w, hw, hmem⟩ := List.mem_flatMap.mp hmem
  rcases List.mem_append.mp hmem with hmem | hmem
  · exact w.1.not_mem hc hmem
  · exact (hwords w hw).not_mem hc hmem

namespace Margin

theorem isBlank_close (m : Margin) : ∀ c ∈ beforeComment m.close, isBlank c = true := by
  rw [close]
  cases m.remark with
  | some r => simp [beforeComment]
  | none =>
    cases m.carriage with
    | false => simp [beforeComment]
    | true =>
      have hreturn : isBlank '\r' = true := rfl
      simpa [beforeComment] using hreturn

theorem isBlank_tail (m : Margin) : ∀ c ∈ m.trail.chars ++ beforeComment m.close, isBlank c = true := by
  intro c hc
  rcases List.mem_append.mp hc with hc | hc
  · exact m.trail.blank c hc
  · exact m.isBlank_close c hc

theorem fields_line (m : Margin) {words : List Char} (h : '#' ∉ words) :
    fields (beforeComment (m.line words)) =
      fields (words ++ (m.trail.chars ++ beforeComment m.close)) := by
  rw [line, beforeComment_append (m.indent.not_mem (.inl rfl)), beforeComment_append h,
    beforeComment_append (m.trail.not_mem (.inl rfl)), fields_blank_append m.indent.blank]

/-- A line without words has no fields. -/
theorem fields_empty (m : Margin) : fields (beforeComment (m.line [])) = [] := by
  rw [m.fields_line (by simp), List.nil_append, fields_blank m.isBlank_tail]

/-- The words of a line are its fields. -/
theorem fields_words (m : Margin) {word : List Char} (hword : IsWord word)
    {words : List (Gap × List Char)} (hwords : ∀ w ∈ words, IsWord w.2) :
    fields (beforeComment (m.line (word ++ spread words))) = word :: words.map Prod.snd := by
  have hplain : '#' ∉ word ++ spread words := by
    rw [List.mem_append, not_or]
    exact ⟨hword.not_mem (.inl rfl), not_mem_spread hwords (.inl rfl)⟩
  rw [m.fields_line hplain, List.append_assoc, fields_spread hword hwords m.isBlank_tail]

theorem feed_not_mem_close (m : Margin) : '\n' ∉ m.close := by
  rw [close, List.mem_append, not_or]
  constructor
  · cases m.remark with
    | none => simp
    | some r => simpa using r.oneLine
  · cases m.carriage <;> simp

theorem feed_not_mem_line (m : Margin) {words : List Char} (h : '\n' ∉ words) : '\n' ∉ m.line words := by
  simp only [line, List.mem_append, not_or]
  exact ⟨m.indent.not_mem (.inr rfl), h, m.trail.not_mem (.inr rfl), m.feed_not_mem_close⟩

end Margin

end WritebackCache.Text
