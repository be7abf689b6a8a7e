import WritebackCache.Proofs.Service
import WritebackCache.Proofs.TraceGrammar

/-! Where reading a trace ends. The grammar that a reader follows is the one laid down and no more than
two things besides: a plus sign in front of a number or in place of a byte's first digit, and an argument
of other traffic. A text is read if all its lines follow that grammar; otherwise the first that does not
is reported, by its number. -/

namespace WritebackCache.Trace

open Numeral

theorem isNumber_strict_iff {v : UInt64} {cs : List Char} :
    IsNumber false v cs ↔ IsNumber true v cs ∧ '+' ∉ cs := by
  constructor
  · intro h
    cases h with
    | decimal hsign hdigits =>
      obtain rfl := hsign.strict
      exact ⟨.decimal (.inl rfl) hdigits, not_mem_spelled (by decide) hdigits⟩
    | hex hmark hsign hdigits =>
      obtain rfl := hsign.strict
      refine ⟨.hex hmark (.inl rfl) hdigits, ?_⟩
      have hplus := not_mem_spelled (Nat.le_refl 16) hdigits
      rcases hmark with rfl | rfl <;> simpa using hplus
  · rintro ⟨h, hplus⟩
    cases h with
    | decimal hsign hdigits =>
      rcases hsign with rfl | ⟨-, rfl⟩
      · exact .decimal (.inl rfl) hdigits
      · exact (hplus (by simp)).elim
    | hex hmark hsign hdigits =>
      rcases hsign with rfl | ⟨-, rfl⟩
      · exact .hex hmark (.inl rfl) hdigits
      · exact (hplus (by simp)).elim

theorem isBytes_strict_iff {bytes : List UInt8} {cs : List Char} :
    IsBytes false bytes cs ↔ IsBytes true bytes cs ∧ '+' ∉ cs := by
  constructor
  · intro h
    cases h with
    | plain ne h =>
      obtain ⟨hbytes, hplus⟩ := spellsBytes_strict_iff.mp h
      exact ⟨.plain ne hbytes, hplus⟩
    | marked ne h =>
      obtain ⟨hbytes, hplus⟩ := spellsBytes_strict_iff.mp h
      exact ⟨.marked ne hbytes, by simpa using hplus⟩
  · rintro ⟨h, hplus⟩
    cases h with
    | plain ne h => exact .plain ne (spellsBytes_strict_iff.mpr ⟨h, hplus⟩)
    | marked ne h => exact .marked ne (spellsBytes_strict_iff.mpr ⟨h, by simpa using hplus⟩)

/-- What only a lax reader takes: a plus sign in a field, or an argument of other traffic. -/
def Overlooked (fields : List (List Char)) : Prop :=
  (∃ field ∈ fields, '+' ∈ field) ∨ ∃ op addr arg, fields = [op, addr, arg] ∧ IsOp 'O' op

/-- Letters of operations are told apart in either case. -/
theorem IsOp.letter_eq {a b : Char} {op : List Char} (ha : IsOp a op) (hb : IsOp b op)
    (capitalA : a.isUpper) (capitalB : b.isUpper) : a = b := by
  have hop := (ha.map_toUpper capitalA).symm.trans (hb.map_toUpper capitalB)
  exact List.singleton_inj.mp hop

theorem IsOp.plus_not_mem {letter : Char} {op : List Char} (h : IsOp letter op)
    (capital : letter.isUpper) : '+' ∉ op := by
  intro hmem
  have hplus : '+' ∈ [letter] := by
    rw [← h.map_toUpper capital]
    exact List.mem_map_of_mem hmem
  rw [List.mem_singleton] at hplus
  subst hplus
  cases capital

theorem overlooked_pair_iff {letter : Char} {op addr : List Char} (hop : IsOp letter op)
    (capital : letter.isUpper) : Overlooked [op, addr] ↔ '+' ∈ addr := by
  simp [Overlooked, hop.plus_not_mem capital]

theorem overlooked_triple_iff {letter : Char} {op addr arg : List Char} (hop : IsOp letter op)
    (capital : letter.isUpper) :
    Overlooked [op, addr, arg] ↔ '+' ∈ addr ∨ '+' ∈ arg ∨ letter = 'O' := by
  have hother : IsOp 'O' op ↔ letter = 'O' := by
    constructor
    · intro h
      exact hop.letter_eq h capital rfl
    · rintro rfl
      exact hop
  simp [Overlooked, hop.plus_not_mem capital, hother, or_assoc]

/-- The grammar laid down is the lax one without what only a lax reader takes. -/
theorem form_strict_iff {fields : List (List Char)} {st : Statement} :
    Form false fields st ↔ Form true fields st ∧ ¬ Overlooked fields := by
  constructor
  · intro form
    cases form with
    | preload op addr bytes =>
      rw [isNumber_strict_iff] at addr
      rw [isBytes_strict_iff] at bytes
      exact ⟨.preload op addr.1 bytes.1, by simp [overlooked_triple_iff op rfl, addr.2, bytes.2]⟩
    | readEight op addr =>
      rw [isNumber_strict_iff] at addr
      exact ⟨.readEight op addr.1, by simp [overlooked_pair_iff op rfl, addr.2]⟩
    | read op addr size =>
      rw [isNumber_strict_iff] at addr size
      exact ⟨.read op addr.1 size.1, by simp [overlooked_triple_iff op rfl, addr.2, size.2]⟩
    | write op addr bytes =>
      rw [isNumber_strict_iff] at addr
      rw [isBytes_strict_iff] at bytes
      exact ⟨.write op addr.1 bytes.1, by simp [overlooked_triple_iff op rfl, addr.2, bytes.2]⟩
    | postedWrite op addr bytes =>
      rw [isNumber_strict_iff] at addr
      rw [isBytes_strict_iff] at bytes
      exact ⟨.postedWrite op addr.1 bytes.1, by simp [overlooked_triple_iff op rfl, addr.2, bytes.2]⟩
    | other op addr =>
      rw [isNumber_strict_iff] at addr
      exact ⟨.other op addr.1, by simp [overlooked_pair_iff op rfl, addr.2]⟩
    | otherArg _ hlax => cases hlax
  · rintro ⟨form, h⟩
    cases form with
    | preload op addr bytes =>
      simp only [overlooked_triple_iff op rfl, not_or] at h
      exact .preload op (isNumber_strict_iff.mpr ⟨addr, h.1⟩) (isBytes_strict_iff.mpr ⟨bytes, h.2.1⟩)
    | readEight op addr =>
      rw [overlooked_pair_iff op rfl] at h
      exact .readEight op (isNumber_strict_iff.mpr ⟨addr, h⟩)
    | read op addr size =>
      simp only [overlooked_triple_iff op rfl, not_or] at h
      exact .read op (isNumber_strict_iff.mpr ⟨addr, h.1⟩) (isNumber_strict_iff.mpr ⟨size, h.2.1⟩)
    | write op addr bytes =>
      simp only [overlooked_triple_iff op rfl, not_or] at h
      exact .write op (isNumber_strict_iff.mpr ⟨addr, h.1⟩) (isBytes_strict_iff.mpr ⟨bytes, h.2.1⟩)
    | postedWrite op addr bytes =>
      simp only [overlooked_triple_iff op rfl, not_or] at h
      exact .postedWrite op (isNumber_strict_iff.mpr ⟨addr, h.1⟩)
        (isBytes_strict_iff.mpr ⟨bytes, h.2.1⟩)
    | other op addr =>
      rw [overlooked_pair_iff op rfl] at h
      exact .other op (isNumber_strict_iff.mpr ⟨addr, h⟩)
    | otherArg arg _ op addr =>
      rw [overlooked_triple_iff op rfl] at h
      exact (h (.inr (.inr rfl))).elim

theorem grammatical_strict_iff {line : List Char} :
    Grammatical false line ↔ Grammatical true line ∧ ¬ Overlooked (fieldsOf line) := by
  constructor
  · rintro (hnone | ⟨st, form, sound⟩)
    · refine ⟨.inl hnone, ?_⟩
      rw [hnone]
      simp [Overlooked]
    · rw [form_strict_iff] at form
      exact ⟨.inr ⟨st, form.1, sound⟩, form.2⟩
  · rintro ⟨hnone | ⟨st, form, sound⟩, h⟩
    · exact .inl hnone
    · exact .inr ⟨st, form_strict_iff.mpr ⟨form, h⟩, sound⟩

/-! ## Whole texts -/

/-- The line at a place is the first that does not follow the grammar. -/
def FirstFlaw (lax : Bool) (lines : List (List Char)) (place : Nat) : Prop :=
  (∃ line, lines[place]? = some line ∧ ¬ Grammatical lax line) ∧
    ∀ line ∈ lines.take place, Grammatical lax line

theorem readLines_returns {lines : List (List Char)} (h : ∀ line ∈ lines, Grammatical true line)
    (number : Nat) : ∃ entries, readLines number lines = .ok entries := by
  induction lines generalizing number with
  | nil => exact ⟨[], rfl⟩
  | cons line rest ih =>
    rw [List.forall_mem_cons] at h
    obtain ⟨read, hread⟩ := readLine_returns_iff.mpr h.1
    obtain ⟨entries, hrest⟩ := ih h.2 (number + 1)
    cases read with
    | none => exact ⟨entries, by simp only [readLines, hread, hrest]⟩
    | some e => exact ⟨e :: entries, by simp only [readLines, hread, hrest, Except.map]⟩

theorem readLines_fails {lines : List (List Char)} {place : Nat} (h : FirstFlaw true lines place)
    (number : Nat) : ∃ reason, readLines number lines = .error (.line (number + place) reason) := by
  induction lines generalizing place number with
  | nil =>
    obtain ⟨⟨line, hline, _⟩, _⟩ := h
    simp at hline
  | cons first rest ih =>
    obtain ⟨⟨line, hline, flawed⟩, sound⟩ := h
    cases place with
    | zero =>
      obtain rfl := Option.some.inj hline
      cases hread : readLine first with
      | ok read => exact (flawed (readLine_returns_iff.mp ⟨read, hread⟩)).elim
      | error reason => exact ⟨reason, by simp only [readLines, hread, Nat.add_zero]⟩
    | succ place =>
      rw [List.take_succ_cons, List.forall_mem_cons] at sound
      obtain ⟨read, hread⟩ := readLine_returns_iff.mpr sound.1
      obtain ⟨reason, hrest⟩ := ih ⟨⟨line, hline, flawed⟩, sound.2⟩ (number + 1)
      rw [Nat.add_assoc, Nat.add_comm 1] at hrest
      refine ⟨reason, ?_⟩
      cases read with
      | none => simp only [readLines, hread, hrest]
      | some e => simp only [readLines, hread, hrest, Except.map]

/-- Reading a text fails exactly at the first line outside the grammar that the reader follows, with its
number. That grammar is the one laid down, but for a plus sign in a field and an argument of other
traffic; so a line outside the one laid down is reported if nothing in it is overlooked. -/
theorem fails_at_first_flaw (text : String) :
    (∀ place, FirstFlaw false (Text.lines text.toList) place →
      (∀ line, (Text.lines text.toList)[place]? = some line → ¬ Overlooked (fieldsOf line)) →
      ∃ reason, parse text = .error (.line (place + 1) reason)) ∧
    (∀ place, FirstFlaw true (Text.lines text.toList) place →
      ∃ reason, parse text = .error (.line (place + 1) reason)) ∧
    ((∀ line ∈ Text.lines text.toList, Grammatical true line) → ∃ t, parse text = .ok t) ∧
    ∀ line, Grammatical false line ↔ Grammatical true line ∧ ¬ Overlooked (fieldsOf line) := by
  have fails : ∀ place, FirstFlaw true (Text.lines text.toList) place →
      ∃ reason, parse text = .error (.line (place + 1) reason) := by
    intro place h
    obtain ⟨reason, hread⟩ := readLines_fails h 1
    rw [Nat.add_comm] at hread
    exact ⟨reason, by rw [parse, ofChars, hread, Except.map]⟩
  refine ⟨?_, fails, ?_, fun _ => grammatical_strict_iff⟩
  · rintro place ⟨⟨line, hline, flawed⟩, sound⟩ noticed
    refine fails place ⟨⟨line, hline, ?_⟩, ?_⟩
    · intro h
      exact flawed (grammatical_strict_iff.mpr ⟨h, noticed line hline⟩)
    · intro l hl
      exact (grammatical_strict_iff.mp (sound l hl)).1
  · intro h
    obtain ⟨entries, hread⟩ := readLines_returns h 1
    exact ⟨ofEntries entries, by rw [parse, ofChars, hread, Except.map]⟩

/-- The second of two reads takes bytes of two blocks. -/
theorem fails_at_first_flaw_crossing :
    FirstFlaw false (Text.lines "R 0x40 8\nR 0x3c 8\n".toList) 1 ∧
      ∃ reason, parse "R 0x40 8\nR 0x3c 8\n" = .error (.line 2 reason) := by
  have hlines : Text.lines "R 0x40 8\nR 0x3c 8\n".toList = ["R 0x40 8".toList, "R 0x3c 8".toList] := rfl
  have hfields : fieldsOf "R 0x40 8".toList = [['R'], "0x40".toList, ['8']] := rfl
  have hfields' : fieldsOf "R 0x3c 8".toList = [['R'], "0x3c".toList, ['8']] := rfl
  have first : Grammatical false "R 0x40 8".toList := by
    refine grammatical_strict_iff.mpr ⟨readLine_returns_iff.mp ⟨_, rfl⟩, ?_⟩
    rw [hfields, overlooked_triple_iff (.inl rfl) rfl]
    simp
  have second : ¬ Grammatical false "R 0x3c 8".toList := by
    intro h
    obtain ⟨read, hread⟩ := readLine_returns_iff.mpr (grammatical_strict_iff.mp h).1
    cases hread
  have flaw : FirstFlaw false (Text.lines "R 0x40 8\nR 0x3c 8\n".toList) 1 := by
    rw [hlines]
    exact ⟨⟨_, rfl, second⟩, List.forall_mem_singleton.mpr first⟩
  refine ⟨flaw, (fails_at_first_flaw _).1 1 flaw ?_⟩
  intro line hline
  rw [hlines] at hline
  obtain rfl := Option.some.inj hline
  rw [hfields', overlooked_triple_iff (.inl rfl) rfl]
  simp

/-- A plus sign for a digit, a plus sign in front of a number, and a stray argument: each of these lines is
outside the grammar laid down, and is read all the same. -/
theorem overlooked_lines_are_read :
    (¬ Grammatical false "W 0x0 +f".toList ∧
      parse "W 0x0 +f\n" = .ok { requests := [.byte ⟨0⟩ .write 15 true] }) ∧
    (¬ Grammatical false "R +0 1".toList ∧
      parse "R +0 1\n" = .ok { requests := [.byte ⟨0⟩ .read 0 true] }) ∧
    (¬ Grammatical false "O 0x0 junk".toList ∧
      parse "O 0x0 junk\n" = .ok { requests := [.other ⟨0⟩] }) := by
  refine ⟨⟨?_, by rfl⟩, ⟨?_, by rfl⟩, ⟨?_, by rfl⟩⟩
  · intro h
    exact (grammatical_strict_iff.mp h).2 (.inl ⟨['+', 'f'], by decide, by decide⟩)
  · intro h
    exact (grammatical_strict_iff.mp h).2 (.inl ⟨['+', '0'], by decide, by decide⟩)
  · intro h
    exact (grammatical_strict_iff.mp h).2 (.inr ⟨['O'], _, ['j', 'u', 'n', 'k'], by rfl, .inl rfl⟩)

end WritebackCache.Trace
