import WritebackCache.Proofs.Numerals
import WritebackCache.Proofs.PacketDraft
import WritebackCache.Trace.Reader

/-! The grammar of a trace. A line says nothing or makes one statement, in a form that its operation
prescribes; an access has to stay within one block and to have at least a byte. A reader takes exactly
the sound statements of a grammar that is a little larger than the one laid down: it is lax about plus
signs in numbers, and about what follows the address of other traffic. At the first line that is
outside that grammar reading ends, with the number of the line. -/

namespace WritebackCache

/-- What a line of a trace says. -/
inductive Statement
  | preload (addr : Address) (bytes : List UInt8)
  | read (addr : Address) (size : Nat)
  | write (addr : Address) (bytes : List UInt8)
  | postedWrite (addr : Address) (bytes : List UInt8)
  | other (addr : Address)

namespace Statement

/-- The entry of a trace that it stands for. -/
def entry : Statement → Except PacketError TraceEntry
  | preload addr bytes => .ok (.preload addr bytes)
  | read addr size => (Packet.read addr size).map .request
  | write addr bytes => (Packet.write addr bytes).map .request
  | postedWrite addr bytes => (Packet.postedWrite addr bytes).map .request
  | other addr => .ok (.request (.other addr))

/-- There is at least one byte, and those of an access lie in one block. -/
def Sound : Statement → Prop
  | preload _ bytes => bytes ≠ []
  | read addr size => 1 ≤ size ∧ addr.offset + size ≤ blockSize
  | write addr bytes => bytes ≠ [] ∧ addr.offset + bytes.length ≤ blockSize
  | postedWrite addr bytes => bytes ≠ [] ∧ addr.offset + bytes.length ≤ blockSize
  | other _ => True

instance : DecidablePred Sound
  | preload _ bytes => inferInstanceAs (Decidable (bytes ≠ []))
  | read addr size => inferInstanceAs (Decidable (1 ≤ size ∧ addr.offset + size ≤ blockSize))
  | write addr bytes =>
    inferInstanceAs (Decidable (bytes ≠ [] ∧ addr.offset + bytes.length ≤ blockSize))
  | postedWrite addr bytes =>
    inferInstanceAs (Decidable (bytes ≠ [] ∧ addr.offset + bytes.length ≤ blockSize))
  | other _ => inferInstanceAs (Decidable True)

/-- What its packet is built from; a preload makes none. -/
def draft : Statement → Option Packet.Draft
  | preload _ _ => none
  | read addr size => some (.read addr size)
  | write addr bytes => some (.write addr bytes)
  | postedWrite addr bytes => some (.postedWrite addr bytes)
  | other addr => some (.other addr)

theorem preload_of_draft {st : Statement} (h : st.draft = none) :
    ∃ addr bytes, st = .preload addr bytes := by
  cases st with
  | preload addr bytes => exact ⟨addr, bytes, rfl⟩
  | _ => cases h

theorem entry_of_draft {st : Statement} {d : Packet.Draft} (h : st.draft = some d) :
    st.entry = d.packet.map .request := by
  cases st <;> cases h <;> rfl

theorem sound_of_draft {st : Statement} {d : Packet.Draft} (h : st.draft = some d) :
    st.Sound ↔ (d.isChecked = true → d.header.Fits) := by
  rw [Packet.Header.fits_iff]
  cases st with
  | preload addr bytes => cases h
  | read addr size =>
    cases h
    exact (imp_iff_right rfl).symm
  | write addr bytes | postedWrite addr bytes =>
    cases h
    refine Iff.trans ?_ (imp_iff_right rfl).symm
    exact and_congr_left' List.length_pos_iff.symm
  | other addr =>
    cases h
    exact iff_of_true trivial fun checked => by cases checked

/-- A packet is made of the sound statements. -/
theorem entry_returns_iff {st : Statement} {d : Packet.Draft} (h : st.draft = some d) :
    (∃ e, st.entry = .ok e) ↔ st.Sound := by
  rw [entry_of_draft h, sound_of_draft h, ← Packet.Draft.exists_packet_iff]
  constructor
  · rintro ⟨e, he⟩
    obtain ⟨p, hp, -⟩ := map_eq_ok.mp he
    exact ⟨p, hp⟩
  · rintro ⟨p, hp⟩
    exact ⟨_, map_eq_ok.mpr ⟨p, hp, rfl⟩⟩

end Statement

namespace Trace

open Numeral

/-- The letter of an operation, in either case. -/
def IsOp (letter : Char) (op : List Char) : Prop := op = [letter] ∨ op = [letter.toLower]

/-- A decimal number, or one of radix sixteen behind its mark. -/
inductive IsNumber (lax : Bool) (value : UInt64) : List Char → Prop
  | decimal {sign digits} : IsSign lax sign → Spells 10 digits value.toNat →
      IsNumber lax value (sign ++ digits)
  | hex {mark sign digits} : mark = 'x' ∨ mark = 'X' → IsSign lax sign →
      Spells 16 digits value.toNat → IsNumber lax value ('0' :: mark :: (sign ++ digits))

/-- Digits for at least one byte, with or without a mark. -/
inductive IsBytes (lax : Bool) (bytes : List UInt8) : List Char → Prop
  | plain {cs} : bytes ≠ [] → SpellsBytes lax cs bytes → IsBytes lax bytes cs
  | marked {cs} : bytes ≠ [] → SpellsBytes lax cs bytes → IsBytes lax bytes ('0' :: 'x' :: cs)

/-- The fields of a line that makes a statement. -/
inductive Form (lax : Bool) : List (List Char) → Statement → Prop
  | preload {op addr arg a bytes} : IsOp 'I' op → IsNumber lax a addr → IsBytes lax bytes arg →
      Form lax [op, addr, arg] (.preload ⟨a⟩ bytes)
  | readEight {op addr a} : IsOp 'R' op → IsNumber lax a addr → Form lax [op, addr] (.read ⟨a⟩ 8)
  | read {op addr arg a size} : IsOp 'R' op → IsNumber lax a addr → IsNumber lax size arg →
      Form lax [op, addr, arg] (.read ⟨a⟩ size.toNat)
  | write {op addr arg a bytes} : IsOp 'W' op → IsNumber lax a addr → IsBytes lax bytes arg →
      Form lax [op, addr, arg] (.write ⟨a⟩ bytes)
  | postedWrite {op addr arg a bytes} : IsOp 'P' op → IsNumber lax a addr → IsBytes lax bytes arg →
      Form lax [op, addr, arg] (.postedWrite ⟨a⟩ bytes)
  | other {op addr a} : IsOp 'O' op → IsNumber lax a addr → Form lax [op, addr] (.other ⟨a⟩)
  | otherArg {op addr a} (arg : List Char) : lax = true → IsOp 'O' op → IsNumber lax a addr →
      Form lax [op, addr, arg] (.other ⟨a⟩)

/-- The fields of a line without its comment. -/
def fieldsOf (line : List Char) : List (List Char) := Text.fields (Text.beforeComment line)

/-- A line that says nothing or makes a sound statement. -/
def Grammatical (lax : Bool) (line : List Char) : Prop :=
  fieldsOf line = [] ∨ ∃ st, Form lax (fieldsOf line) st ∧ st.Sound

/-! ## Fields as they are read -/

theorem number?_of_unmarked {cs : List Char} (small : 'x' ∉ cs) (capital : 'X' ∉ cs) :
    number? cs = word? 10 cs := by
  unfold number?
  split
  · exact (small (by simp)).elim
  · exact (capital (by simp)).elim
  · rfl

/-- Neither a sign nor digits hold the mark of a radix. -/
theorem not_mem_signed {lax : Bool} {radix : Nat} (small : radix ≤ 16) {sign digits : List Char} {n : Nat}
    (hsign : IsSign lax sign) (h : Spells radix digits n) {mark : Char}
    (hmark : mark = 'x' ∨ mark = 'X') : mark ∉ sign ++ digits := by
  intro hmem
  rcases List.mem_append.mp hmem with hmem | hmem
  · rcases hsign with rfl | ⟨-, rfl⟩
    · cases hmem
    · rw [List.mem_singleton.mp hmem] at hmark
      revert hmark
      decide
  · obtain ⟨d, hd⟩ := h.digits small _ hmem
    obtain ⟨-, -, -, hx, hX⟩ := hd.plain
    rcases hmark with rfl | rfl
    · exact hx rfl
    · exact hX rfl

theorem number?_eq_some_iff {cs : List Char} {v : UInt64} :
    number? cs = some v ↔ IsNumber true v cs := by
  constructor
  · intro h
    unfold number? at h
    split at h
    · obtain ⟨sign, digits, hsign, rfl, hdigits⟩ := (word?_eq_some_iff (by decide)).mp h
      exact .hex (.inl rfl) hsign hdigits
    · obtain ⟨sign, digits, hsign, rfl, hdigits⟩ := (word?_eq_some_iff (by decide)).mp h
      exact .hex (.inr rfl) hsign hdigits
    · obtain ⟨sign, digits, hsign, rfl, hdigits⟩ := (word?_eq_some_iff (by decide)).mp h
      exact .decimal hsign hdigits
  · intro h
    cases h with
    | @decimal sign digits hsign hdigits =>
      rw [number?_of_unmarked (not_mem_signed (by decide) hsign hdigits (.inl rfl))
        (not_mem_signed (by decide) hsign hdigits (.inr rfl))]
      exact (word?_eq_some_iff (by decide)).mpr ⟨sign, digits, hsign, rfl, hdigits⟩
    | @hex mark sign digits hmark hsign hdigits =>
      have hword := (word?_eq_some_iff (Nat.le_refl 16)).mpr ⟨sign, digits, hsign, rfl, hdigits⟩
      rcases hmark with rfl | rfl
      · exact hword
      · exact hword

theorem bytes?_marked (cs : List Char) :
    bytes? ('0' :: 'x' :: cs) = if cs = [] then none else Numeral.bytes? cs := rfl

theorem bytes?_unmarked {cs : List Char} (h : ∀ rest, cs ≠ '0' :: 'x' :: rest) :
    bytes? cs = if cs = [] then none else Numeral.bytes? cs := by
  unfold bytes?
  dsimp only
  split
  · exact (h _ rfl).elim
  · rfl

theorem spellsBytes_eq_nil_iff {lax : Bool} {cs : List Char} {bytes : List UInt8}
    (h : SpellsBytes lax cs bytes) : cs = [] ↔ bytes = [] := by
  cases h <;> simp

/-- The second character of a byte is a digit. -/
theorem not_spellsBytes_marked {lax : Bool} {cs : List Char} {bytes : List UInt8} :
    ¬ SpellsBytes lax ('0' :: 'x' :: cs) bytes := by
  intro h
  cases h with
  | pair _ hx _ => exact hx.plain.2.2.2.1 rfl

theorem bytes?_eq_some_iff {cs : List Char} {bytes : List UInt8} :
    bytes? cs = some bytes ↔ IsBytes true bytes cs := by
  by_cases hmark : ∃ rest, cs = '0' :: 'x' :: rest
  · obtain ⟨rest, rfl⟩ := hmark
    rw [bytes?_marked, Option.ite_none_left_eq_some, Numeral.bytes?_eq_some_iff]
    constructor
    · rintro ⟨hrest, h⟩
      exact .marked (mt (spellsBytes_eq_nil_iff h).mpr hrest) h
    · intro h
      cases h with
      | plain _ h => exact (not_spellsBytes_marked h).elim
      | marked ne h => exact ⟨mt (spellsBytes_eq_nil_iff h).mp ne, h⟩
  · rw [not_exists] at hmark
    rw [bytes?_unmarked hmark, Option.ite_none_left_eq_some, Numeral.bytes?_eq_some_iff]
    constructor
    · rintro ⟨hcs, h⟩
      exact .plain (mt (spellsBytes_eq_nil_iff h).mpr hcs) h
    · intro h
      cases h with
      | plain ne h => exact ⟨mt (spellsBytes_eq_nil_iff h).mp ne, h⟩
      | marked _ _ => exact (hmark _ rfl).elim

theorem readBytes_eq_ok_iff {arg : Option (List Char)} {bytes : List UInt8} :
    readBytes arg = .ok bytes ↔ ∃ field, arg = some field ∧ IsBytes true bytes field := by
  cases arg with
  | none => simp [readBytes]
  | some field =>
    simp only [readBytes, Option.some.injEq, exists_eq_left', ← bytes?_eq_some_iff]
    cases bytes? field <;> simp

theorem readSize_eq_ok_iff {arg : Option (List Char)} {size : Nat} :
    readSize arg = .ok size ↔ (arg = none ∧ size = 8) ∨
      ∃ field v, arg = some field ∧ IsNumber true v field ∧ size = v.toNat := by
  cases arg with
  | none => simp [readSize, eq_comm]
  | some field =>
    simp only [readSize, ← number?_eq_some_iff]
    cases h : number? field with
    | none => simp [h]
    | some v => simp [h, eq_comm]

/-! ## Operations in either case -/

theorem range_of_isLower {c : Char} (small : c.isLower) : 97 ≤ c.toNat ∧ c.toNat ≤ 122 := by
  obtain ⟨hlow, hhigh⟩ := Bool.and_eq_true_iff.mp small
  exact ⟨UInt32.le_iff_toNat_le.mp (of_decide_eq_true hlow),
    UInt32.le_iff_toNat_le.mp (of_decide_eq_true hhigh)⟩

theorem range_of_isUpper {c : Char} (capital : c.isUpper) : 65 ≤ c.toNat ∧ c.toNat ≤ 90 := by
  obtain ⟨hlow, hhigh⟩ := of_decide_eq_true capital
  exact ⟨UInt32.le_iff_toNat_le.mp hlow, UInt32.le_iff_toNat_le.mp hhigh⟩

theorem toLower_toUpper {c : Char} (small : c.isLower) : c.toUpper.toLower = c := by
  obtain ⟨hlow, hhigh⟩ := range_of_isLower small
  rw [← Char.ofNat_toNat c]
  interval_cases c.toNat <;> rfl

theorem toUpper_capital {c : Char} (capital : c.isUpper) : c.toUpper = c ∧ c.toLower.toUpper = c := by
  obtain ⟨hlow, hhigh⟩ := range_of_isUpper capital
  rw [← Char.ofNat_toNat c]
  interval_cases c.toNat <;> exact ⟨rfl, rfl⟩

theorem eq_or_toLower_of_toUpper {c u : Char} (h : c.toUpper = u) : c = u ∨ c = u.toLower := by
  by_cases small : c.isLower
  · right
    rw [← h, toLower_toUpper small]
  · left
    have hc : c.toUpper = c := by
      refine dif_neg fun hrange => small ?_
      exact Bool.and_eq_true_iff.mpr ⟨decide_eq_true hrange.1, decide_eq_true hrange.2⟩
    rwa [hc] at h

theorem isOp_of_map {letter : Char} {op : List Char} (h : op.map Char.toUpper = [letter]) :
    IsOp letter op := by
  obtain ⟨c, rfl, hc⟩ := List.map_eq_singleton_iff.mp h
  rcases eq_or_toLower_of_toUpper hc with rfl | rfl
  · exact .inl rfl
  · exact .inr rfl

/-! ## Lines as they are read -/

theorem readPacket_eq_ok_iff {x : Except PacketError Packet} {e : TraceEntry} :
    readPacket x = .ok e ↔ x.map .request = .ok e := by
  cases x with
  | error reason => constructor <;> (intro h; cases h)
  | ok p => constructor <;> (intro h; cases h; rfl)

/-- What is read makes a statement of the lax grammar. -/
theorem form_of_readEntry {op addr : List Char} {a : UInt64} {arg : Option (List Char)} {e : TraceEntry}
    (haddr : IsNumber true a addr) (h : readEntry (op.map Char.toUpper) ⟨a⟩ arg = .ok e) :
    ∃ st, Form true (op :: addr :: arg.toList) st ∧ st.entry = .ok e := by
  unfold readEntry at h
  -- one case for each letter of an operation, and one for all else
  split at h
  · next hop =>
    obtain ⟨bytes, hbytes, rfl⟩ := map_eq_ok.mp h
    obtain ⟨field, rfl, hfield⟩ := readBytes_eq_ok_iff.mp hbytes
    exact ⟨.preload ⟨a⟩ bytes, .preload (isOp_of_map hop) haddr hfield, rfl⟩
  · next hop =>
    obtain ⟨size, hsize, hpacket⟩ := bind_eq_ok.mp h
    rcases readSize_eq_ok_iff.mp hsize with ⟨rfl, rfl⟩ | ⟨field, v, rfl, hfield, rfl⟩
    · exact ⟨.read ⟨a⟩ 8, .readEight (isOp_of_map hop) haddr, readPacket_eq_ok_iff.mp hpacket⟩
    · exact ⟨.read ⟨a⟩ v.toNat, .read (isOp_of_map hop) haddr hfield,
        readPacket_eq_ok_iff.mp hpacket⟩
  · next hop =>
    obtain ⟨bytes, hbytes, hpacket⟩ := bind_eq_ok.mp h
    obtain ⟨field, rfl, hfield⟩ := readBytes_eq_ok_iff.mp hbytes
    exact ⟨.write ⟨a⟩ bytes, .write (isOp_of_map hop) haddr hfield, readPacket_eq_ok_iff.mp hpacket⟩
  · next hop =>
    obtain ⟨bytes, hbytes, hpacket⟩ := bind_eq_ok.mp h
    obtain ⟨field, rfl, hfield⟩ := readBytes_eq_ok_iff.mp hbytes
    exact ⟨.postedWrite ⟨a⟩ bytes, .postedWrite (isOp_of_map hop) haddr hfield,
      readPacket_eq_ok_iff.mp hpacket⟩
  · next hop =>
    cases h
    cases arg with
    | none => exact ⟨.other ⟨a⟩, .other (isOp_of_map hop) haddr, rfl⟩
    | some field => exact ⟨.other ⟨a⟩, .otherArg field rfl (isOp_of_map hop) haddr, rfl⟩
  · cases h

theorem IsOp.map_toUpper {letter : Char} {op : List Char} (h : IsOp letter op)
    (capital : letter.isUpper) : op.map Char.toUpper = [letter] := by
  obtain ⟨hletter, hsmall⟩ := toUpper_capital capital
  rcases h with rfl | rfl
  · rw [List.map_singleton, hletter]
  · rw [List.map_singleton, hsmall]

theorem readFields_pair {op addr : List Char} {a : UInt64} (haddr : IsNumber true a addr) :
    readFields [op, addr] = (readEntry (op.map Char.toUpper) ⟨a⟩ none).map some := by
  simp [readFields, number?_eq_some_iff.mpr haddr]

theorem readFields_triple {op addr arg : List Char} {a : UInt64} (haddr : IsNumber true a addr) :
    readFields [op, addr, arg] = (readEntry (op.map Char.toUpper) ⟨a⟩ (some arg)).map some := by
  simp [readFields, number?_eq_some_iff.mpr haddr]

/-- A statement of the lax grammar is read, if it stands for an entry. -/
theorem readFields_of_form {fields : List (List Char)} {st : Statement} (form : Form true fields st)
    {e : TraceEntry} (h : st.entry = .ok e) : readFields fields = .ok (some e) := by
  cases form with
  | preload op addr bytes =>
    rw [readFields_triple addr, op.map_toUpper rfl, readEntry, readBytes_eq_ok_iff.mpr ⟨_, rfl, bytes⟩]
    cases h
    rfl
  | readEight op addr =>
    rw [readFields_pair addr, op.map_toUpper rfl, readEntry, readSize, Except.bind,
      readPacket_eq_ok_iff.mpr h, Except.map]
  | read op addr size =>
    rw [readFields_triple addr, op.map_toUpper rfl, readEntry,
      readSize_eq_ok_iff.mpr (.inr ⟨_, _, rfl, size, rfl⟩), Except.bind, readPacket_eq_ok_iff.mpr h,
      Except.map]
  | write op addr bytes =>
    rw [readFields_triple addr, op.map_toUpper rfl, readEntry, readBytes_eq_ok_iff.mpr ⟨_, rfl, bytes⟩,
      Except.bind, readPacket_eq_ok_iff.mpr h, Except.map]
  | postedWrite op addr bytes =>
    rw [readFields_triple addr, op.map_toUpper rfl, readEntry, readBytes_eq_ok_iff.mpr ⟨_, rfl, bytes⟩,
      Except.bind, readPacket_eq_ok_iff.mpr h, Except.map]
  | other op addr =>
    rw [readFields_pair addr, op.map_toUpper rfl, readEntry]
    cases h
    rfl
  | otherArg arg _ op addr =>
    rw [readFields_triple addr, op.map_toUpper rfl, readEntry]
    cases h
    rfl

theorem form_of_readFields {fields : List (List Char)} {e : TraceEntry}
    (h : readFields fields = .ok (some e)) : ∃ st, Form true fields st ∧ st.entry = .ok e := by
  unfold readFields at h
  split at h
  · cases h
  · cases h
  · next op addr args =>
    split at h
    · cases h
    · next a haddr =>
      split at h
      · cases h
      · next notMore =>
        obtain ⟨e', hread, he⟩ := map_eq_ok.mp h
        cases he
        have hargs : args.head?.toList = args := by
          cases args with
          | nil => rfl
          | cons arg rest =>
            cases rest with
            | nil => rfl
            | cons extra more => exact (notMore _ _ _ rfl).elim
        have hform := form_of_readEntry (number?_eq_some_iff.mp haddr) hread
        rwa [hargs] at hform

theorem fields_of_readFields {fields : List (List Char)} (h : readFields fields = .ok none) :
    fields = [] := by
  unfold readFields at h
  split at h
  · rfl
  · cases h
  · split at h
    · cases h
    · split at h
      · cases h
      · obtain ⟨e, _, he⟩ := map_eq_ok.mp h
        cases he

end Trace

namespace Statement

theorem entry_of_sound {st : Statement} (h : st.Sound) : ∃ e, st.entry = .ok e := by
  cases hd : st.draft with
  | none =>
    obtain ⟨addr, bytes, rfl⟩ := preload_of_draft hd
    exact ⟨_, rfl⟩
  | some d => exact (entry_returns_iff hd).mpr h

theorem sound_of_entry {lax : Bool} {fields : List (List Char)} {st : Statement} {e : TraceEntry}
    (form : Trace.Form lax fields st) (h : st.entry = .ok e) : st.Sound := by
  cases form with
  | preload _ _ bytes => cases bytes <;> assumption
  | readEight | read | write | postedWrite | other | otherArg =>
    exact (entry_returns_iff rfl).mp ⟨e, h⟩

end Statement

namespace Trace

/-- A line is read exactly if it follows the lax grammar. -/
theorem readLine_returns_iff {line : List Char} :
    (∃ read, readLine line = .ok read) ↔ Grammatical true line := by
  constructor
  · rintro ⟨read, h⟩
    cases read with
    | none => exact .inl (fields_of_readFields h)
    | some e =>
      obtain ⟨st, form, he⟩ := form_of_readFields h
      exact .inr ⟨st, form, Statement.sound_of_entry form he⟩
  · rintro (hnone | ⟨st, form, sound⟩)
    · refine ⟨none, ?_⟩
      rw [readLine, show Text.fields (Text.beforeComment line) = [] from hnone, readFields]
    · obtain ⟨e, he⟩ := Statement.entry_of_sound sound
      exact ⟨some e, readFields_of_form form he⟩

end Trace

end WritebackCache
