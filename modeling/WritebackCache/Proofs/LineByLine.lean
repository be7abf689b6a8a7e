import WritebackCache.Trace.Reader

/-! A trace is read line by line. A text is cut into lines without regard to what they say, and no line
has an influence on how another is read: of two texts put together, the first is read as if it stood
alone, and so is the second if the first is in order. Only the numbers of the lines go on. -/

namespace WritebackCache

namespace Text

/-- A text after which a new line begins. -/
def Ended (text : List Char) : Prop := text = [] ∨ text.getLast? = some '\n'

theorem Ended.tail {c : Char} {cs : List Char} (h : Ended (c :: cs)) (ne : cs ≠ []) : Ended cs := by
  rcases h with h | h
  · cases h
  · right
    rwa [List.getLast?_cons_of_ne_nil ne] at h

theorem lines_eq_nil_iff {cs : List Char} : lines cs = [] ↔ cs = [] := by
  cases cs with
  | nil => simp [lines]
  | cons c cs =>
    simp only [lines, reduceCtorEq, iff_false]
    split
    · simp
    · split <;> simp

theorem lines_cons_feed (cs : List Char) : lines ('\n' :: cs) = [] :: lines cs := by
  simp [lines]

/-- A character in front of a line that is there belongs to it. -/
theorem lines_cons {c : Char} (hc : c ≠ '\n') {cs line : List Char} {rest : List (List Char)}
    (h : lines cs = line :: rest) : lines (c :: cs) = (c :: line) :: rest := by
  simp [lines, hc, h]

theorem lines_append {a : List Char} (ended : Ended a) (b : List Char) :
    lines (a ++ b) = lines a ++ lines b := by
  induction a with
  | nil => rfl
  | cons c cs ih =>
    by_cases hc : c = '\n'
    · subst hc
      by_cases hcs : cs = []
      · subst hcs
        exact lines_cons_feed b
      · rw [List.cons_append, lines_cons_feed, lines_cons_feed, ih (ended.tail hcs), List.cons_append]
    · have hcs : cs ≠ [] := by
        intro h
        subst h
        rcases ended with h | h
        · cases h
        · exact hc (by simpa using h)
      cases h : lines cs with
      | nil => exact (hcs (lines_eq_nil_iff.mp h)).elim
      | cons line rest =>
        have hb := ih (ended.tail hcs)
        rw [h, List.cons_append] at hb
        rw [List.cons_append, lines_cons hc hb, lines_cons hc h, List.cons_append]

/-- A text that ends with its last line has as many lines as line feeds. -/
theorem length_lines {a : List Char} (ended : Ended a) : (lines a).length = a.count '\n' := by
  induction a with
  | nil => rfl
  | cons c cs ih =>
    by_cases hcs : cs = []
    · subst hcs
      rcases ended with h | h
      · cases h
      · obtain rfl : c = '\n' := by simpa using h
        rfl
    · have hlen := ih (ended.tail hcs)
      by_cases hc : c = '\n'
      · subst hc
        rw [lines_cons_feed, List.length_cons, hlen, List.count_cons_self]
      · cases h : lines cs with
        | nil => exact (hcs (lines_eq_nil_iff.mp h)).elim
        | cons line rest =>
          rw [h, List.length_cons] at hlen
          rw [lines_cons hc h, List.length_cons, hlen, List.count_cons_of_ne hc]

end Text

/-- The error as it is counted when so many lines stand in front. -/
def TraceError.later (lines : Nat) : TraceError → TraceError
  | file reason => .file reason
  | line number reason => .line (lines + number) reason

namespace Trace

theorem ofEntries_append (xs ys : List TraceEntry) :
    ofEntries (xs ++ ys) = (ofEntries xs).append (ofEntries ys) := by
  induction xs with
  | nil => rfl
  | cons e xs ih =>
    calc ofEntries (e :: xs ++ ys) = cons e (ofEntries (xs ++ ys)) := rfl
      _ = cons e ((ofEntries xs).append (ofEntries ys)) := by rw [ih]
      _ = (cons e (ofEntries xs)).append (ofEntries ys) := (cons_append e _ _).symm

theorem readLines_append (number : Nat) (xs ys : List (List Char)) :
    readLines number (xs ++ ys) = (readLines number xs).bind fun entries =>
      (readLines (number + xs.length) ys).map (entries ++ ·) := by
  induction xs generalizing number with
  | nil =>
    simp only [List.nil_append, readLines, Except.bind, List.length_nil, Nat.add_zero]
    cases readLines number ys <;> rfl
  | cons line xs ih =>
    rw [List.cons_append, readLines, readLines, List.length_cons, Nat.add_comm xs.length,
      ← Nat.add_assoc]
    cases readLine line with
    | error reason => rfl
    | ok read =>
      cases read with
      | none => exact ih (number + 1)
      | some entry =>
        simp only [ih (number + 1)]
        cases readLines (number + 1) xs with
        | error e => rfl
        | ok entries => cases readLines (number + 1 + xs.length) ys <;> rfl

/-- Where the counting of lines starts shows in the number of an error and nowhere else. -/
theorem readLines_later (lines number : Nat) (xs : List (List Char)) :
    readLines (lines + number) xs = (readLines number xs).mapError (·.later lines) := by
  induction xs generalizing number with
  | nil => rfl
  | cons line xs ih =>
    rw [readLines, readLines]
    cases readLine line with
    | error reason => rfl
    | ok read =>
      cases read with
      | none => exact ih (number + 1)
      | some entry =>
        simp only [Nat.add_assoc, ih (number + 1)]
        cases readLines (number + 1) xs <;> rfl

theorem ofChars_append {a : List Char} (ended : Text.Ended a) (b : List Char) :
    ofChars (a ++ b) = (ofChars a).bind fun t =>
      ((ofChars b).mapError (·.later (a.count '\n'))).map t.append := by
  rw [ofChars, Text.lines_append ended, readLines_append, Text.length_lines ended, Nat.add_comm 1,
    readLines_later, ofChars, ofChars]
  cases readLines 1 (Text.lines a) with
  | error e => rfl
  | ok xs =>
    cases readLines 1 (Text.lines b) with
    | error e => rfl
    | ok ys => exact congrArg Except.ok (ofEntries_append xs ys)

theorem ended_toList {a : String} (ended : a = "" ∨ ∃ front, a = front ++ "\n") :
    Text.Ended a.toList := by
  rcases ended with rfl | ⟨front, rfl⟩
  · left
    rfl
  · right
    simp

/-- A text that ends with a line, put in front of another: if it has an error, that is the error of both;
otherwise the other one is read as if it stood alone, and adds its entries to those of the first, or its
error, counted on from the lines of the first. -/
theorem parse_append (a b : String) (ended : a = "" ∨ ∃ front, a = front ++ "\n") :
    parse (a ++ b) = (parse a).bind (fun t =>
      ((parse b).mapError (·.later (Text.lines a.toList).length)).map t.append) ∧
    (Text.lines a.toList).length = a.toList.count '\n' := by
  have hended := ended_toList ended
  refine ⟨?_, Text.length_lines hended⟩
  rw [parse, String.toList_append, ofChars_append hended, Text.length_lines hended]
  rfl

/-- Two good texts, whose preloads and requests come in order, and three lines, the second of them empty
but for a comment, in front of one with an odd digit. -/
theorem parse_append_odd_digit :
    parse ("I 0x40 0a0b\nR 0x40 2\n" ++ "P 65 ff\ni 0 07\n") =
        .ok ⟨[(⟨64⟩, [0x0a, 0x0b]), (⟨0⟩, [0x07])],
          [⟨⟨64⟩, .read, [0, 0], true, false, by decide⟩, ⟨⟨65⟩, .write, [0xff], false, false, by decide⟩]⟩ ∧
      parse ("R 0x40 8\r\n  # é\no 7\n" ++ "w 0 0ff") =
        .error (.line 4 (.badData ['0', 'f', 'f'])) := by
  constructor
  · have ended : "I 0x40 0a0b\nR 0x40 2\n" = "" ∨ ∃ front, "I 0x40 0a0b\nR 0x40 2\n" = front ++ "\n" :=
      .inr ⟨"I 0x40 0a0b\nR 0x40 2", by decide⟩
    rw [(parse_append _ _ ended).1]
    rfl
  · have ended : "R 0x40 8\r\n  # é\no 7\n" = "" ∨
        ∃ front, "R 0x40 8\r\n  # é\no 7\n" = front ++ "\n" :=
      .inr ⟨"R 0x40 8\r\n  # é\no 7", by decide⟩
    rw [(parse_append _ _ ended).1]
    rfl

end Trace

end WritebackCache
