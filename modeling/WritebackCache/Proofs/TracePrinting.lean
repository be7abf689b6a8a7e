import WritebackCache.Proofs.Layout
import WritebackCache.Proofs.TraceGrammar

/-! Printing a trace. Each statement has a line of its own, written in one of the many ways that the
grammar leaves open: the letters in either case, numbers in either radix, any blanks, any comments, and
lines without words wherever one likes. The two halves meet at the grammar: what is printed has a form of
the grammar, and what has such a form is read. So reading undoes printing. -/

namespace WritebackCache

namespace Trace

open Numeral Text

/-- How a number is written. -/
inductive NumberStyle
  | decimal
  | hex (capitalMark : Bool) (caps : Nat → Bool)

/-- How a byte string is written. -/
structure BytesStyle where
  marked : Bool
  caps : Nat → Bool

def NumberStyle.print (style : NumberStyle) (v : UInt64) : List Char :=
  match style with
  | decimal => Nat.toDigits 10 v.toNat
  | hex capitalMark caps =>
    '0' :: recase capitalMark 'x' :: (Nat.toDigits 16 v.toNat).mapIdx fun i => recase (caps i)

def BytesStyle.print (style : BytesStyle) (bytes : List UInt8) : List Char :=
  (if style.marked then ['0', 'x'] else []) ++
    (bytes.flatMap ofByte).mapIdx fun i => recase (style.caps i)

/-- How a statement is written, and what stands around it. -/
structure Style where
  margin : Margin
  capital : Bool
  addrGap : Gap
  addr : NumberStyle
  argGap : Gap
  size : NumberStyle
  /-- The size is left out if it is eight. -/
  brief : Bool
  bytes : BytesStyle

def Style.plain : Style where
  margin := .plain
  capital := true
  addrGap := .space
  addr := .decimal
  argGap := .space
  size := .decimal
  brief := true
  bytes := ⟨false, fun _ => false⟩

end Trace

namespace Statement

open Trace

def letter : Statement → Char
  | preload _ _ => 'I'
  | read _ _ => 'R'
  | write _ _ => 'W'
  | postedWrite _ _ => 'P'
  | other _ => 'O'

def addr : Statement → Address
  | preload addr _ => addr
  | read addr _ => addr
  | write addr _ => addr
  | postedWrite addr _ => addr
  | other addr => addr

def arg? (style : Style) : Statement → Option (List Char)
  | preload _ bytes => some (style.bytes.print bytes)
  | read _ size => if style.brief ∧ size = 8 then none else some (style.size.print (.ofNat size))
  | write _ bytes => some (style.bytes.print bytes)
  | postedWrite _ bytes => some (style.bytes.print bytes)
  | other _ => none

/-- The bytes that it puts into memory before the run. -/
def preload? : Statement → Option (Address × List UInt8)
  | preload addr bytes => some (addr, bytes)
  | _ => none

/-- The request that it makes. -/
def request? : Statement → Option (Except PacketError Packet)
  | preload _ _ => none
  | read addr size => some (Packet.read addr size)
  | write addr bytes => some (Packet.write addr bytes)
  | postedWrite addr bytes => some (Packet.postedWrite addr bytes)
  | other addr => some (.ok (Packet.other addr))

theorem request?_of_draft {st : Statement} {d : Packet.Draft} (h : st.draft = some d) :
    st.preload? = none ∧ st.request? = some d.packet := by
  cases st <;> cases h <;> exact ⟨rfl, rfl⟩

end Statement

namespace Trace

open Numeral Text

namespace Style

def op (style : Style) (st : Statement) : List Char :=
  [if style.capital then st.letter else st.letter.toLower]

/-- The fields behind the operation, each with its gap. -/
def more (style : Style) (st : Statement) : List (Gap × List Char) :=
  (style.addrGap, style.addr.print st.addr.val) :: (st.arg? style).toList.map (style.argGap, ·)

end Style

/-- A line of a printed trace. -/
inductive Row
  | empty (margin : Margin)
  | stated (st : Statement) (style : Style)

def Row.line : Row → List Char
  | empty margin => margin.line []
  | stated st style => style.margin.line (style.op st ++ spread (style.more st))

def Row.statement? : Row → Option Statement
  | empty _ => none
  | stated st _ => some st

def statements (rows : List Row) : List Statement := rows.filterMap Row.statement?

def printed (rows : List Row) : List Char := unlines (rows.map Row.line)

/-! ## What is printed has a form of the grammar -/

theorem isNumber_print (lax : Bool) (style : NumberStyle) (v : UInt64) :
    IsNumber lax v (style.print v) := by
  cases style with
  | decimal => exact .decimal (.inl rfl) (spells_toDigits_plain (by decide) v.toNat)
  | hex capitalMark caps =>
    refine .hex ?_ (.inl rfl) (spells_toDigits caps (by decide) v.toNat)
    cases capitalMark
    · exact .inl rfl
    · exact .inr rfl

/-- An address can be written as it is shown. -/
theorem print_eq_text (a : Address) :
    (NumberStyle.hex false fun _ => false).print a.val = a.text.toList := by
  simp [NumberStyle.print, Address.text, Numeral.hex, recase, List.mapIdx_eq_zipIdx_map]

theorem isBytes_print (lax : Bool) (style : BytesStyle) {bytes : List UInt8} (ne : bytes ≠ []) :
    IsBytes lax bytes (style.print bytes) := by
  unfold BytesStyle.print
  split
  · exact .marked ne (spells_ofByte lax style.caps bytes)
  · exact .plain ne (spells_ofByte lax style.caps bytes)

theorem isOp_op (style : Style) (st : Statement) : IsOp st.letter (style.op st) := by
  unfold Style.op
  split
  · exact .inl rfl
  · exact .inr rfl

/-- Sizes of accesses are far below the end of the word. -/
theorem toNat_size {addr : Address} {size : Nat} (h : addr.offset + size ≤ blockSize) :
    (UInt64.ofNat size).toNat = size :=
  UInt64.toNat_ofNat_of_lt' (by simp only [blockSize, UInt64.size] at *; omega)

theorem form_printed (lax : Bool) (style : Style) {st : Statement} (sound : st.Sound) :
    Form lax (style.op st :: (style.more st).map Prod.snd) st := by
  have hop := isOp_op style st
  have haddr := isNumber_print lax style.addr st.addr.val
  cases st with
  | preload addr bytes => exact .preload hop haddr (isBytes_print lax style.bytes sound)
  | read addr size =>
    have hsize := toNat_size sound.2
    simp only [Style.more, Statement.arg?]
    split
    · next h =>
      obtain ⟨-, rfl⟩ := h
      exact .readEight hop haddr
    · have hform := Form.read hop haddr (isNumber_print lax style.size (.ofNat size))
      rwa [hsize] at hform
  | write addr bytes => exact .write hop haddr (isBytes_print lax style.bytes sound.1)
  | postedWrite addr bytes => exact .postedWrite hop haddr (isBytes_print lax style.bytes sound.1)
  | other addr => exact .other hop haddr

/-! ## A form of the grammar can be laid out -/

theorem isWord_spelled {radix : Nat} (small : radix ≤ 16) {digits : List Char} {n : Nat}
    (h : Spells radix digits n) : IsWord digits := by
  refine ⟨h.ne_nil, ?_⟩
  intro c hc
  obtain ⟨d, hd⟩ := h.digits small c hc
  exact ⟨hd.plain.1, hd.plain.2.1⟩

/-- The mark of a radix can stand in a word. -/
theorem isWord_marked {mark : Char} (h : mark = 'x' ∨ mark = 'X') {cs : List Char} (hcs : IsWord cs) :
    IsWord ('0' :: mark :: cs) := by
  refine ⟨by simp, ?_⟩
  simp only [List.forall_mem_cons]
  rcases h with rfl | rfl
  · exact ⟨⟨rfl, by decide⟩, ⟨rfl, by decide⟩, hcs.2⟩
  · exact ⟨⟨rfl, by decide⟩, ⟨rfl, by decide⟩, hcs.2⟩

theorem IsNumber.isWord {v : UInt64} {cs : List Char} (h : IsNumber false v cs) : IsWord cs := by
  cases h with
  | decimal hsign hdigits =>
    obtain rfl := hsign.strict
    exact isWord_spelled (by decide) hdigits
  | hex hmark hsign hdigits =>
    obtain rfl := hsign.strict
    exact isWord_marked hmark (isWord_spelled (Nat.le_refl 16) hdigits)

theorem isWord_bytes {bytes : List UInt8} {cs : List Char} (ne : bytes ≠ [])
    (h : SpellsBytes false cs bytes) : IsWord cs := by
  refine ⟨mt (spellsBytes_eq_nil_iff h).mp ne, ?_⟩
  clear ne
  induction h with
  | nil => simp
  | pair ha hb _ ih =>
    simp only [List.forall_mem_cons]
    exact ⟨⟨ha.plain.1, ha.plain.2.1⟩, ⟨hb.plain.1, hb.plain.2.1⟩, ih⟩
  | signed hlax => cases hlax

theorem IsBytes.isWord {bytes : List UInt8} {cs : List Char} (h : IsBytes false bytes cs) :
    IsWord cs := by
  cases h with
  | plain ne h => exact isWord_bytes ne h
  | marked ne h => exact isWord_marked (.inl rfl) (isWord_bytes ne h)

theorem IsOp.isWord {letter : Char} {op : List Char} (h : IsOp letter op) (capital : letter.isUpper) :
    IsWord op := by
  obtain ⟨hlow, hhigh⟩ := range_of_isUpper capital
  have plain : (isBlank letter = false ∧ letter ≠ '#') ∧
      isBlank letter.toLower = false ∧ letter.toLower ≠ '#' := by
    rw [← Char.ofNat_toNat letter]
    interval_cases letter.toNat <;> decide
  rcases h with rfl | rfl
  · exact ⟨by simp, List.forall_mem_singleton.mpr plain.1⟩
  · exact ⟨by simp, List.forall_mem_singleton.mpr plain.2⟩

theorem Form.isWord {fields : List (List Char)} {st : Statement} (form : Form false fields st) :
    ∀ field ∈ fields, IsWord field := by
  cases form with
  | preload op addr bytes => simp [op.isWord rfl, addr.isWord, bytes.isWord]
  | readEight op addr => simp [op.isWord rfl, addr.isWord]
  | read op addr size => simp [op.isWord rfl, addr.isWord, size.isWord]
  | write op addr bytes => simp [op.isWord rfl, addr.isWord, bytes.isWord]
  | postedWrite op addr bytes => simp [op.isWord rfl, addr.isWord, bytes.isWord]
  | other op addr => simp [op.isWord rfl, addr.isWord]
  | otherArg _ hlax => cases hlax

theorem isWord_printed (style : Style) {st : Statement} (sound : st.Sound) :
    IsWord (style.op st) ∧ ∀ w ∈ style.more st, IsWord w.2 := by
  have hwords := (form_printed false style sound).isWord
  rwa [List.forall_mem_cons, List.forall_mem_map] at hwords

/-! ## What is printed is read -/

theorem readLine_empty (margin : Margin) : readLine (Row.empty margin).line = .ok none := by
  rw [readLine, Row.line, margin.fields_empty, readFields]

theorem readLine_stated {st : Statement} (sound : st.Sound) (style : Style) {e : TraceEntry}
    (h : st.entry = .ok e) : readLine (Row.stated st style).line = .ok (some e) := by
  obtain ⟨hop, hmore⟩ := isWord_printed style sound
  rw [readLine, Row.line, style.margin.fields_words hop hmore]
  exact readFields_of_form (form_printed true style sound) h

theorem feed_not_mem_rows {rows : List Row} (sound : ∀ st ∈ statements rows, st.Sound) :
    ∀ line ∈ rows.map Row.line, '\n' ∉ line := by
  rw [List.forall_mem_map]
  intro row hrow
  cases row with
  | empty margin => exact margin.feed_not_mem_line (by simp)
  | stated st style =>
    have hst : st ∈ statements rows := List.mem_filterMap.mpr ⟨_, hrow, rfl⟩
    obtain ⟨hop, hmore⟩ := isWord_printed style (sound st hst)
    apply Margin.feed_not_mem_line
    rw [List.mem_append, not_or]
    exact ⟨hop.not_mem (.inr rfl), not_mem_spread hmore (.inr rfl)⟩

/-- The entries of the statements, in their order. -/
theorem readLines_rows {rows : List Row} (sound : ∀ st ∈ statements rows, st.Sound) (number : Nat) :
    ∃ entries, readLines number (rows.map Row.line) = .ok entries ∧
      entries.map Except.ok = (statements rows).map Statement.entry := by
  induction rows generalizing number with
  | nil => exact ⟨[], rfl, rfl⟩
  | cons row rows ih =>
    cases row with
    | empty margin =>
      obtain ⟨entries, hread, hentries⟩ := ih sound (number + 1)
      exact ⟨entries, by rw [List.map_cons, readLines, readLine_empty, hread], hentries⟩
    | stated st style =>
      have hstatements : statements (.stated st style :: rows) = st :: statements rows := rfl
      rw [hstatements] at sound ⊢
      rw [List.forall_mem_cons] at sound
      obtain ⟨e, he⟩ := Statement.entry_of_sound sound.1
      obtain ⟨entries, hread, hentries⟩ := ih sound.2 (number + 1)
      refine ⟨e :: entries, ?_, ?_⟩
      · simp only [List.map_cons, readLines, readLine_stated sound.1 style he, hread, Except.map]
      · rw [List.map_cons, List.map_cons, he, hentries]

/-- An entry goes to the one list or to the other. -/
theorem cons_of_entry {st : Statement} {e : TraceEntry} (h : st.entry = .ok e) (t : Trace) :
    (cons e t).preloads = [st].filterMap Statement.preload? ++ t.preloads ∧
      (cons e t).requests.map Except.ok =
        [st].filterMap Statement.request? ++ t.requests.map Except.ok := by
  cases hd : st.draft with
  | none =>
    obtain ⟨addr, bytes, rfl⟩ := Statement.preload_of_draft hd
    cases h
    exact ⟨rfl, rfl⟩
  | some d =>
    obtain ⟨preload, request⟩ := Statement.request?_of_draft hd
    rw [Statement.entry_of_draft hd] at h
    obtain ⟨p, hp, rfl⟩ := map_eq_ok.mp h
    simp only [List.filterMap_cons, preload, request, hp, cons]
    exact ⟨rfl, rfl⟩

theorem ofEntries_of_statements {entries : List TraceEntry} {sts : List Statement}
    (h : entries.map Except.ok = sts.map Statement.entry) :
    (ofEntries entries).preloads = sts.filterMap Statement.preload? ∧
      (ofEntries entries).requests.map Except.ok = sts.filterMap Statement.request? := by
  induction sts generalizing entries with
  | nil =>
    obtain rfl := List.map_eq_nil_iff.mp h
    exact ⟨rfl, rfl⟩
  | cons st sts ih =>
    obtain ⟨e, rest, rfl, he, hrest⟩ := List.map_eq_cons_iff.mp h
    obtain ⟨hpreloads, hrequests⟩ := ih hrest
    obtain ⟨hfirst, hsecond⟩ := cons_of_entry he.symm (ofEntries rest)
    rw [hpreloads, ← List.filterMap_append] at hfirst
    rw [hrequests, ← List.filterMap_append] at hsecond
    exact ⟨hfirst, hsecond⟩

/-- Reading undoes printing: from any statements that are sound, printed in any way, reading makes their
preloads and their requests, each in order. -/
theorem parse_printed (rows : List Row) (sound : ∀ st ∈ statements rows, st.Sound) :
    ∃ t, parse (String.ofList (printed rows)) = .ok t ∧
      t.preloads = (statements rows).filterMap Statement.preload? ∧
      t.requests.map Except.ok = (statements rows).filterMap Statement.request? := by
  obtain ⟨entries, hread, hentries⟩ := readLines_rows sound 1
  refine ⟨ofEntries entries, ?_, ofEntries_of_statements hentries⟩
  rw [parse, String.toList_ofList, ofChars, printed, lines_unlines (feed_not_mem_rows sound), hread,
    Except.map]

/-- Five statements, no two of them laid out alike, with a comment and an empty line. -/
theorem parse_printed_variously :
    ∃ t, parse ("\t# é #\r\n" ++ "I\t0x1000 dEad\n" ++ " r 18446744073709551615 0X1\t\r\n" ++ "\n" ++
        "R 0XA0\n" ++ "w 4 0x0fF0#\n" ++ "O 0\n") = .ok t ∧
      t.preloads = [(⟨4096⟩, [0xde, 0xad])] ∧
      t.requests.map Except.ok = [Packet.read ⟨18446744073709551615⟩ 1, Packet.read ⟨160⟩ 8,
        Packet.write ⟨4⟩ [0x0f, 0xf0], .ok (Packet.other ⟨0⟩)] := by
  have h := parse_printed
    [.empty ⟨Gap.tab.toBlanks, .none, some ⟨" é #".toList, by decide⟩, true⟩,
      .stated (.preload ⟨4096⟩ [0xde, 0xad])
        { Style.plain with
          addrGap := .tab
          addr := .hex false fun _ => false
          bytes := ⟨false, fun i => i = 1⟩ },
      .stated (.read ⟨18446744073709551615⟩ 1)
        { Style.plain with
          margin := ⟨Gap.space.toBlanks, Gap.tab.toBlanks, none, true⟩
          capital := false
          size := .hex true fun _ => false },
      .empty .plain,
      .stated (.read ⟨160⟩ 8) { Style.plain with addr := .hex true fun _ => true },
      .stated (.write ⟨4⟩ [0x0f, 0xf0])
        { Style.plain with
          margin := { Margin.plain with remark := some ⟨[], by simp⟩ }
          capital := false
          bytes := ⟨true, fun i => i = 2⟩ },
      .stated (.other ⟨0⟩) .plain]
    (by decide)
  exact h

end Trace

end WritebackCache
